/-
The bases of types, nearest first.

The search for bases takes types from a queue, passes over names that it
has seen, and puts the bases of any other type at the end of the queue
(`Visits`). The bases of types may lead back to one another, but each
name is seen once, so the search comes to its end (`visits_lineage`).

That it finds all that bases lead to, the nearest first, is an invariant
of the queue (`Search`): in front stand types at some number of steps,
behind them types at one step more, and all names at fewer steps were
seen.
-/
import SourceBundle.Proofs.Binding.Members

namespace SourceBundle

open List

/-- One more name that is passed over leaves fewer elements. -/
theorem length_filter_cons_lt {α β : Type} [DecidableEq β] (name : α → β) {as : List α} {a : α}
    {names : List β} (ha : a ∈ as) (hnew : name a ∉ names) :
    (as.filter (name · ∉ name a :: names)).length < (as.filter (name · ∉ names)).length := by
  have hsplit : as.filter (name · ∉ name a :: names)
      = (as.filter (name · ∉ names)).filter (name · ≠ name a) := by
    rw [filter_filter]
    refine filter_congr fun o _ => ?_
    simp [not_or]
  rw [hsplit, length_filter_lt_length_iff_exists]
  exact ⟨a, mem_filter.2 ⟨ha, by simpa using hnew⟩, by simp⟩

namespace Declarations

variable {ds : Declarations}

-- ===== steps

/-- Some part of a type writes a base that is a declared type of the other name. -/
def HasBase (ds : Declarations) (name base : String) : Prop :=
  ∃ part ∈ ds.types, part.qualifiedName = name ∧ ∃ ref ∈ part.decl.baseTypes,
    ∃ s, (ds.boundType (some part) [] ref).source = some s ∧ s.qualifiedName = base

/-- A number of steps, each to a base, leads from one name to another. -/
inductive Ascends (ds : Declarations) (name : String) : Nat → String → Prop
  | self : Ascends ds name 0 name
  | step {k : Nat} {mid base : String} :
    Ascends ds name k mid → ds.HasBase mid base → Ascends ds name (k + 1) base

theorem Ascends.trans {a b c : String} {j k : Nat} (h : ds.Ascends a j b) (h' : ds.Ascends b k c) :
    ds.Ascends a (j + k) c := by
  induction h' with
  | self => exact h
  | step _ hbase ih => exact ih.step hbase

/-- A type parameter stands for no declared type. -/
theorem source_eq_none_of_isTypeParam (t : Option DeclaredType) (typeParams : List String)
    (ref : TypeRef) : (ds.boundType t typeParams ref).isTypeParam = true →
      (ds.boundType t typeParams ref).source = none := by
  cases ref with
  | mk name args qualifier rank nullable tuple span =>
    unfold boundType
    simp only
    split
    · exact fun _ => rfl
    split
    · exact fun _ => rfl
    split
    · exact fun _ => rfl
    · exact nofun
    · exact fun _ => rfl

/-- The bases of a type are those that its parts write, but for the type itself. -/
theorem hasBase_of_mem_basesOf {name : String} {t : DeclaredType} (ht : t ∈ ds.basesOf name) :
    ds.HasBase name t.qualifiedName := by
  obtain ⟨b, hb, hsource⟩ := mem_filterMap.1 (mem_filter.1 (Text.mem_of_mem_distinctBy ht)).1
  obtain ⟨part, hpart, hb⟩ := mem_flatMap.1 hb
  obtain ⟨ref, href, rfl⟩ := mem_map.1 hb
  obtain ⟨hmem, hname⟩ := mem_filter.1 hpart
  split at hsource
  · cases hsource
  · exact ⟨part, hmem, of_decide_eq_true hname, ref, href, t, hsource, rfl⟩

theorem HasBase.exists_mem_basesOf (hplaced : WellPlaced ds.types) {name base : String}
    (h : ds.HasBase name base) (hne : base ≠ name) :
    ∃ t ∈ ds.basesOf name, t.qualifiedName = base := by
  obtain ⟨part, hpart, hname, ref, href, s, hsource, rfl⟩ := h
  have hwritten : ds.boundType (some part) [] ref ∈ ds.writtenBases name :=
    mem_flatMap.2 ⟨part, mem_filter.2 ⟨hpart, decide_eq_true hname⟩, mem_map_of_mem href⟩
  have hs : s ∈ ((ds.writtenBases name).filterMap fun b =>
      if b.isTypeParam then none else b.source).filter
      (·.qualifiedName ≠ name) := by
    refine mem_filter.2 ⟨mem_filterMap.2 ⟨_, hwritten, ?_⟩, decide_eq_true hne⟩
    split
    · next hparam => rw [← hsource, source_eq_none_of_isTypeParam _ _ _ hparam]
    · exact hsource
  obtain ⟨t, ht, hnumber⟩ := Text.exists_mem_distinctBy (f := DeclaredType.number) hs
  replace ht : t ∈ ds.basesOf name := ht
  have hsame : some t = some s := by
    rw [← (hplaced t (mem_of_mem_basesOf ht)).number_eq, hnumber,
      (hplaced s ((known_writtenBases hwritten).source s hsource)).number_eq]
  cases hsame
  exact ⟨s, ht, rfl⟩

-- ===== the search

/-- The search from a queue, where some names were seen, finds types and comes to its end. -/
inductive Visits (ds : Declarations) :
    List DeclaredType → (seen : List String) → List DeclaredType → Prop
  | done {seen : List String} : Visits ds [] seen []
  | pass {t : DeclaredType} {queue found : List DeclaredType} {seen : List String} :
    t.qualifiedName ∈ seen → Visits ds queue seen found → Visits ds (t :: queue) seen found
  | take {t : DeclaredType} {queue found : List DeclaredType} {seen : List String} :
    t.qualifiedName ∉ seen →
    Visits ds (queue ++ ds.basesOf t.qualifiedName) (t.qualifiedName :: seen) found →
    Visits ds (t :: queue) seen (t :: found)

/-- How many types have a name that was not seen. -/
def unseen (ds : Declarations) (seen : List String) : Nat :=
  (ds.types.filter fun t => t.qualifiedName ∉ seen).length

theorem unseen_cons_lt {t : DeclaredType} {seen : List String} (ht : t ∈ ds.types)
    (hnew : t.qualifiedName ∉ seen) : ds.unseen (t.qualifiedName :: seen) < ds.unseen seen :=
  length_filter_cons_lt (fun o : DeclaredType => o.qualifiedName) ht hnew

theorem forall_mem_append_basesOf {queue : List DeclaredType} (hqueue : ∀ t ∈ queue, t ∈ ds.types)
    (name : String) : ∀ t ∈ queue ++ ds.basesOf name, t ∈ ds.types := by
  intro t ht
  rcases mem_append.1 ht with ht | ht
  · exact hqueue t ht
  · exact mem_of_mem_basesOf ht

theorem visits_lineageWithin {bound : Nat} {queue : List DeclaredType} {seen : List String}
    (hqueue : ∀ t ∈ queue, t ∈ ds.types) (hbound : ds.unseen seen < bound) :
    ds.Visits queue seen (ds.lineageWithin bound queue seen) := by
  induction bound generalizing queue seen with
  | zero => omega
  | succ bound ih =>
    show ds.Visits queue seen (ds.lineageStep _ queue seen)
    induction queue with
    | nil => exact .done
    | cons t queue ihqueue =>
      have hrest : ∀ o ∈ queue, o ∈ ds.types := fun o ho => hqueue o (mem_cons_of_mem _ ho)
      rw [lineageStep]
      split
      · next hseen => exact .pass (contains_iff_mem.1 hseen) (ihqueue hrest)
      · next hseen =>
        have hnew : t.qualifiedName ∉ seen := by simpa using hseen
        have hless := unseen_cons_lt (hqueue t mem_cons_self) hnew
        exact .take hnew (ih (forall_mem_append_basesOf hrest _) (by omega))

/-- The search for the bases of a type comes to its end. -/
theorem visits_lineage {t : DeclaredType} (ht : t ∈ ds.types) : ds.Visits [t] [] (ds.lineage t) :=
  visits_lineageWithin (forall_mem_singleton.2 ht) (Nat.lt_succ_of_le (length_filter_le _ _))

theorem Visits.mem_types {queue found : List DeclaredType} {seen : List String}
    (h : ds.Visits queue seen found) (hqueue : ∀ t ∈ queue, t ∈ ds.types) :
    ∀ t ∈ found, t ∈ ds.types := by
  induction h with
  | done => exact forall_mem_nil _
  | pass _ _ ih => exact ih (forall_mem_cons.1 hqueue).2
  | take _ _ ih =>
    obtain ⟨ht, hrest⟩ := forall_mem_cons.1 hqueue
    exact forall_mem_cons.2 ⟨ht, ih (forall_mem_append_basesOf hrest _)⟩

theorem mem_of_mem_lineage {t o : DeclaredType} (ht : t ∈ ds.types) (ho : o ∈ ds.lineage t) :
    o ∈ ds.types :=
  (visits_lineage ht).mem_types (forall_mem_singleton.2 ht) o ho

theorem Visits.not_mem_seen {queue found : List DeclaredType} {seen : List String}
    (h : ds.Visits queue seen found) : ∀ t ∈ found, t.qualifiedName ∉ seen := by
  induction h with
  | done => exact forall_mem_nil _
  | pass _ _ ih => exact ih
  | take hnew _ ih =>
    exact forall_mem_cons.2 ⟨hnew, fun t ht hseen => ih t ht (mem_cons_of_mem _ hseen)⟩

-- ===== nearest first

/-- The search from a name has come to types `near` at a number of steps, with types `far` at one
step more behind them. -/
structure Search (ds : Declarations) (root : String) (depth : Nat) (seen : List String)
    (near far : List DeclaredType) : Prop where
  near_ascends : ∀ t ∈ near, ds.Ascends root depth t.qualifiedName
  far_ascends : ∀ t ∈ far, ds.Ascends root (depth + 1) t.qualifiedName
  /-- All names at fewer steps were seen. -/
  nearer : ∀ k < depth, ∀ name, ds.Ascends root k name → name ∈ seen
  level : ∀ name, ds.Ascends root depth name → name ∈ seen ∨ ∃ t ∈ near, t.qualifiedName = name
  bases : ∀ name ∈ seen, ∀ base, ds.HasBase name base →
    base ∈ seen ∨ ∃ t ∈ near ++ far, t.qualifiedName = base

namespace Search

variable {root : String} {depth : Nat} {seen : List String} {t : DeclaredType}
  {near far found : List DeclaredType}

/-- All types at a number of steps are passed: those behind them are at one step more. -/
theorem advance (h : ds.Search root depth seen [] far) :
    ds.Search root (depth + 1) seen far [] := by
  have hlevel : ∀ name, ds.Ascends root depth name → name ∈ seen := by
    intro name hname
    simpa using h.level name hname
  refine ⟨h.far_ascends, forall_mem_nil _, fun k hk name hname => ?_, fun name hname => ?_, ?_⟩
  · rcases Nat.lt_succ_iff_lt_or_eq.1 hk with hk | rfl
    · exact h.nearer k hk name hname
    · exact hlevel name hname
  · cases hname with
    | step hmid hbase => exact h.bases _ (hlevel _ hmid) name hbase
  · simpa using h.bases

theorem pass (h : ds.Search root depth seen (t :: near) far) (ht : t.qualifiedName ∈ seen) :
    ds.Search root depth seen near far where
  near_ascends := (forall_mem_cons.1 h.near_ascends).2
  far_ascends := h.far_ascends
  nearer := h.nearer
  level name hname := by grind [h.level name hname]
  bases name hname base hbase := by grind [h.bases name hname base hbase]

theorem take (hplaced : WellPlaced ds.types) (h : ds.Search root depth seen (t :: near) far) :
    ds.Search root depth (t.qualifiedName :: seen) near (far ++ ds.basesOf t.qualifiedName) where
  near_ascends := (forall_mem_cons.1 h.near_ascends).2
  far_ascends o ho := by
    rcases mem_append.1 ho with ho | ho
    · exact h.far_ascends o ho
    · exact (h.near_ascends t mem_cons_self).step (hasBase_of_mem_basesOf ho)
  nearer k hk name hname := mem_cons_of_mem _ (h.nearer k hk name hname)
  level name hname := by grind [h.level name hname]
  bases name hname base hbase := by
    rcases mem_cons.1 hname with rfl | hname
    · by_cases hself : base = t.qualifiedName
      · exact .inl (hself ▸ mem_cons_self)
      · obtain ⟨s, hs, rfl⟩ := hbase.exists_mem_basesOf hplaced hself
        exact .inr ⟨s, mem_append_right _ (mem_append_right _ hs), rfl⟩
    · grind [h.bases name hname base hbase]

/-- What a search finds: types that steps lead to, no type before one at fewer steps, and all names
that were not seen before. -/
structure Finds (ds : Declarations) (root : String) (seen : List String)
    (found : List DeclaredType) : Prop where
  ascends : ∀ t ∈ found, ∃ k, ds.Ascends root k t.qualifiedName
  nearest : found.Pairwise fun t o =>
    ∀ k, ds.Ascends root k o.qualifiedName → ∃ j ≤ k, ds.Ascends root j t.qualifiedName
  all : ∀ k name, ds.Ascends root k name → name ∈ seen ∨ ∃ t ∈ found, t.qualifiedName = name

/-- The type in front of the queue is one of those at the number of steps come to. -/
theorem exists_front (h : ds.Search root depth seen near far) {queue : List DeclaredType}
    (hqueue : t :: queue = near ++ far) :
    ∃ depth near far, ds.Search root depth seen (t :: near) far ∧ queue = near ++ far := by
  cases near with
  | nil =>
    cases hqueue
    exact ⟨depth + 1, queue, [], h.advance, (append_nil _).symm⟩
  | cons o near =>
    cases hqueue
    exact ⟨depth, near, far, h, rfl⟩

theorem mem_seen (h : ds.Search root depth seen [] []) {k : Nat} {name : String}
    (hname : ds.Ascends root k name) : name ∈ seen := by
  induction hname with
  | self =>
    cases depth with
    | zero => simpa using h.level root .self
    | succ depth => exact h.nearer 0 (Nat.succ_pos _) root .self
  | step _ hbase ih => simpa using h.bases _ ih _ hbase

theorem finds (hplaced : WellPlaced ds.types) {queue : List DeclaredType}
    (hvisits : ds.Visits queue seen found) (h : ds.Search root depth seen near far)
    (hqueue : queue = near ++ far) : Finds ds root seen found := by
  induction hvisits generalizing depth near far with
  | done =>
    obtain ⟨rfl, rfl⟩ := append_eq_nil_iff.1 hqueue.symm
    exact ⟨forall_mem_nil _, .nil, fun k name hname => .inl (h.mem_seen hname)⟩
  | pass hseen _ ih =>
    obtain ⟨depth, near, far, h, rfl⟩ := h.exists_front hqueue
    exact ih (h.pass hseen) rfl
  | take hnew hrest ih =>
    obtain ⟨depth, near, far, h, rfl⟩ := h.exists_front hqueue
    have hfinds := ih (h.take hplaced) (append_assoc _ _ _)
    have hfront := h.near_ascends _ mem_cons_self
    refine ⟨forall_mem_cons.2 ⟨⟨depth, hfront⟩, hfinds.ascends⟩,
      .cons (fun o ho k hk => ?_) hfinds.nearest, fun k name hname => ?_⟩
    · -- a name at fewer steps would have been seen
      refine ⟨depth, Nat.le_of_not_lt fun hless => ?_, hfront⟩
      exact hrest.not_mem_seen o ho (mem_cons_of_mem _ (h.nearer k hless _ hk))
    · grind [hfinds.all k name hname]

end Search

/-- The lineage of a type holds all that bases lead to, the nearest first. -/
theorem finds_lineage (hplaced : WellPlaced ds.types) {t : DeclaredType} (ht : t ∈ ds.types) :
    Search.Finds ds t.qualifiedName [] (ds.lineage t) := by
  have hstart : ds.Search t.qualifiedName 0 [] [t] [] := by
    refine ⟨forall_mem_singleton.2 .self, forall_mem_nil _, nofun,
      fun name hname => ?_, forall_mem_nil _⟩
    cases hname
    exact .inr ⟨t, mem_singleton_self t, rfl⟩
  exact hstart.finds hplaced (visits_lineage ht) rfl

-- ===== subtypes

theorem answers_findName (name : String) (types : List DeclaredType) :
    Answers (fun found => found = true ↔ ∃ t ∈ types, t.qualifiedName = name)
      (ds.findName name types) := by
  induction types with
  | nil => exact .of_pure (by simp)
  | cons t types ih =>
    unfold findName
    split
    · next heq => exact .of_pure (by simp [heq])
    · next hne => exact .after _ fun _ => ih.mono fun found hfound => by simp [hfound, hne]

theorem answers_isSubtype (hplaced : WellPlaced ds.types) {t : DeclaredType} (ht : t ∈ ds.types)
    (base : DeclaredType) :
    Answers (fun found => found = true ↔ ∃ k, ds.Ascends t.qualifiedName k base.qualifiedName)
      (ds.isSubtype t base) := by
  have hfinds := finds_lineage hplaced ht
  refine (answers_findName base.qualifiedName (ds.lineage t)).mono fun found hfound => ?_
  rw [hfound]
  constructor
  · rintro ⟨o, ho, hname⟩
    exact hname ▸ hfinds.ascends o ho
  · rintro ⟨k, hk⟩
    exact (hfinds.all k _ hk).resolve_left not_mem_nil

end Declarations

namespace Workspace

/-- Whatever was asked before, a type is a subtype of another exactly if bases lead from its name to
that of the other, in any number of steps. So each type is a subtype of itself, and the subtypes of
a subtype are subtypes. -/
theorem subtypes_ascend (w : Workspace) {a : DeclaredType} (ha : a ∈ w.index.types)
    (memo : BaseMemo) :
    w.index.Visits [a] [] (w.index.lineage a)
      ∧ (∀ b, (w.index.isSubtype a b memo).1 = true ↔
        ∃ k, w.index.Ascends a.qualifiedName k b.qualifiedName)
      ∧ (w.index.isSubtype a a memo).1 = true
      ∧ ∀ b ∈ w.index.types, (w.index.isSubtype a b memo).1 = true →
        ∀ c memo', (w.index.isSubtype b c memo').1 = true →
          (w.index.isSubtype a c memo).1 = true := by
  have hiff : ∀ {t : DeclaredType}, t ∈ w.index.types → ∀ base memo,
      (w.index.isSubtype t base memo).1 = true ↔
        ∃ k, w.index.Ascends t.qualifiedName k base.qualifiedName :=
    fun ht base => Declarations.answers_isSubtype w.index_sound.placed ht base
  refine ⟨Declarations.visits_lineage ha, fun b => hiff ha b memo, (hiff ha a memo).2 ⟨0, .self⟩,
    fun b hb hab c memo' hbc => ?_⟩
  obtain ⟨j, hj⟩ := (hiff ha b memo).1 hab
  obtain ⟨k, hk⟩ := (hiff hb c memo').1 hbc
  exact (hiff ha c memo).2 ⟨j + k, hj.trans hk⟩

/-- Classes whose bases lead in a circle, through a class in two parts to an interface. -/
def ladder : Workspace :=
  Id.run (ofSources {} [("A.cs", "namespace A \x7b class T : R \x7b int F() => 1; \x7d "
    ++ "partial class L : T \x7b \x7d partial class L : I \x7b \x7d interface I \x7b \x7d "
    ++ "class M : T \x7b int F() => 2; \x7d class R : L, M \x7b \x7d \x7d")])

theorem subtypes_ascend_ladder :
    ∃ a ∈ ladder.index.types, ∃ b ∈ ladder.index.types,
      (a.qualifiedName, b.qualifiedName) = ("A.T", "A.I")
        ∧ (ladder.index.isSubtype a b []).1 = true
        ∧ ∃ k, ladder.index.Ascends a.qualifiedName k b.qualifiedName := by
  have hfound : (ladder.index.types[0]?.any fun a => ladder.index.types[3]?.any fun b =>
      (a.qualifiedName, b.qualifiedName) == ("A.T", "A.I")
        && (ladder.index.isSubtype a b []).1) = true := by
    decide +kernel
  obtain ⟨a, ha, hfound⟩ := (Option.any_eq_true _ _).1 hfound
  obtain ⟨b, hb, hfound⟩ := (Option.any_eq_true _ _).1 hfound
  obtain ⟨hnames, hsubtype⟩ := Bool.and_eq_true_iff.1 hfound
  refine ⟨a, mem_of_getElem? ha, b, mem_of_getElem? hb, beq_iff_eq.1 hnames, hsubtype, ?_⟩
  exact ((subtypes_ascend ladder (mem_of_getElem? ha) []).2.1 b).1 hsubtype

end Workspace

end SourceBundle
