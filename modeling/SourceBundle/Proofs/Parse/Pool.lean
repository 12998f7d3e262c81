/-
The expressions that a parse makes. Each gets the next free number, and
a parse is followed by the pool of those made so far, in a record that
goes with the changes of the state (`Ledger`). A reader makes the pool
larger, and what it comes to holds nothing but expressions of the larger
pool (`Tracks`). One such record is that the numbers of the pool lie
below the next free one and tell the expressions apart, and that it holds
what stands inside them and the initializers of the locals declared so
far (`Pooled`).

That a reader keeps the record is found from the readers that it is put
together from. What the readers before it came to is given to it, and
where it puts expressions together, each is found among those (`Among`).
The readers of bodies call one another within a bound on steps; the
induction is on the bound, for all of them at once (`bodiesTrack`).
-/
import Mathlib.Data.List.Infix
import SourceBundle.Proofs.Parse.Plain

-- the search for how a reader is put together goes through all of its steps
set_option synthInstance.maxSize 100000

namespace SourceBundle

open List Parse

variable {α β : Type}

-- ===== pools

/-- Expressions have numbers of their own below a bound, and what stands inside them is among
them. -/
structure OwnNumbers (pool : List Expr) (bound : Nat) : Prop where
  below : ∀ e ∈ pool, e.node < bound
  node_inj : ∀ e ∈ pool, ∀ f ∈ pool, e.node = f.node → e = f
  children : ∀ e ∈ pool, ∀ c ∈ e.children, c ∈ pool

/-- The expressions made so far have numbers of their own, and the initializers of the locals so
far are among them. -/
structure ParseState.Pooled (pool : List Expr) (s : ParseState) : Prop
    extends OwnNumbers pool s.nextNode where
  locals : ∀ l ∈ s.locals, ∀ init ∈ l.init, init ∈ pool

/-- A record of the expressions made so far and of a state that goes with all changes of the state
which keep the first `b` locals. -/
class Ledger (I : List Expr → ParseState → Prop) (b : outParam Nat) : Prop where
  of_eq {pool : List Expr} {s s' : ParseState} : I pool s → s'.locals = s.locals →
    s'.nextNode = s.nextNode → I pool s'
  base_le {pool : List Expr} {s : ParseState} : I pool s → b ≤ s.locals.size
  made {pool : List Expr} {s : ParseState} {e : Expr} : I pool s → e.node = s.nextNode →
    (∀ c ∈ e.children, c ∈ pool) → I (e :: pool) { s with nextNode := s.nextNode + 1 }
  changed {pool : List Expr} {s : ParseState} {ls : Array LocalDecl} : I pool s →
    s.locals.toList.take b <+: ls.toList →
    (∀ l ∈ ls, ∀ init ∈ l.init, init ∈ pool ∨ ∃ l' ∈ s.locals, init ∈ l'.init) →
    I pool { s with locals := ls }

instance ParseState.ledger_pooled : Ledger ParseState.Pooled 0 where
  of_eq h hlocals hnode := ⟨hnode ▸ h.toOwnNumbers, hlocals ▸ h.locals⟩
  base_le _ := Nat.zero_le _
  made {pool s e} h hnode hchildren := by
    refine ⟨?_, fun l hl init hinit => mem_cons_of_mem _ (h.locals l hl init hinit)⟩
    constructor
    case below =>
      refine forall_mem_cons.2 ⟨Nat.lt_succ_of_le (Nat.le_of_eq hnode), fun e he => ?_⟩
      exact Nat.lt_succ_of_lt (h.below e he)
    case node_inj =>
      -- the new number is none of those in use
      intro f hf f' hf' heq
      rcases mem_cons.1 hf with rfl | hold
      · rcases mem_cons.1 hf' with rfl | hold'
        · rfl
        · exact absurd (hnode.symm.trans heq) (Nat.ne_of_gt (h.below f' hold'))
      · rcases mem_cons.1 hf' with rfl | hold'
        · exact absurd (heq.trans hnode) (Nat.ne_of_lt (h.below f hold))
        · exact h.node_inj f hold f' hold' heq
    case children =>
      refine forall_mem_cons.2 ⟨fun c hc => ?_, fun e he c hc => ?_⟩
      · exact mem_cons_of_mem _ (hchildren c hc)
      · exact mem_cons_of_mem _ (h.children e he c hc)
  changed h _ hlocals := by
    refine ⟨h.toOwnNumbers, fun l hl init hinit => ?_⟩
    rcases hlocals l hl init hinit with hinit | ⟨l', hl', hinit⟩
    · exact hinit
    · exact h.locals l' hl' init hinit

-- ===== what is held

/-- The expressions that something read holds. -/
class Holder (α : Type) where
  held : α → Expr → Prop

export Holder (held)

instance : Holder Unit := ⟨fun _ _ => False⟩
instance : Holder TypeRef := ⟨fun _ _ => False⟩
instance : Holder Expr := ⟨fun x e => e = x⟩
instance [Holder α] : Holder (List α) := ⟨fun xs e => ∃ x ∈ xs, held x e⟩
instance [Holder α] : Holder (Option α) := ⟨fun o e => ∃ x ∈ o, held x e⟩
instance [Holder α] [Holder β] : Holder (α × β) := ⟨fun x e => held x.1 e ∨ held x.2 e⟩
instance : Holder Param := ⟨fun p => held p.default⟩
instance : Holder LocalDecl := ⟨fun l => held l.init⟩

/-- What one or the other holds. -/
def Either (P Q : Expr → Prop) (e : Expr) : Prop :=
  P e ∨ Q e

/-- Expressions are among the given ones. -/
class Among (P given : Expr → Prop) : Prop where
  sub : ∀ e, P e → given e

namespace Among

variable {P Q given : Expr → Prop} [Holder α] [Holder β] {x : α} {y : β} {xs ys : List α}

instance first : Among P (Either P given) := ⟨fun _ => .inl⟩

instance (priority := low) later [h : Among P given] : Among P (Either Q given) :=
  ⟨fun e he => .inr (h.sub e he)⟩

instance unit : Among (held ()) given := ⟨nofun⟩
instance types {ts : List TypeRef} : Among (held ts) given := ⟨nofun⟩
instance nil : Among (held ([] : List α)) given := ⟨nofun⟩
instance none : Among (held (none : Option α)) given := ⟨nofun⟩

instance cons [hx : Among (held x) given] [hxs : Among (held xs) given] :
    Among (held (x :: xs)) given where
  sub := fun e ⟨y, hmem, he⟩ =>
    (mem_cons.1 hmem).elim (fun h => hx.sub e (h ▸ he)) fun h => hxs.sub e ⟨y, h, he⟩

instance append [hx : Among (held xs) given] [hy : Among (held ys) given] :
    Among (held (xs ++ ys)) given where
  sub := fun e ⟨x, hmem, he⟩ =>
    (mem_append.1 hmem).elim (fun h => hx.sub e ⟨x, h, he⟩) fun h => hy.sub e ⟨x, h, he⟩

instance some [h : Among (held x) given] : Among (held (some x)) given where
  sub := fun e ⟨_, hmem, he⟩ => h.sub e (Option.mem_some.1 hmem ▸ he)

instance toList {o : Option α} [h : Among (held o) given] : Among (held o.toList) given where
  sub := fun e ⟨x, hmem, he⟩ => h.sub e ⟨x, Option.mem_toList.1 hmem, he⟩

instance pair [hx : Among (held x) given] [hy : Among (held y) given] :
    Among (held (x, y)) given where
  sub e he := he.elim (hx.sub e) (hy.sub e)

instance param {name type modifier default span} [h : Among (held default) given] :
    Among (held (Param.mk name type modifier default span)) given :=
  ⟨h.sub⟩

instance declared {name type init isForeach isLambda declarator span}
    [h : Among (held init) given] :
    Among (held (LocalDecl.mk name type init isForeach isLambda declarator span)) given :=
  ⟨h.sub⟩

theorem of_head [h : Among (held (x :: xs)) given] : Among (held x) given :=
  ⟨fun e he => h.sub e ⟨x, mem_cons_self, he⟩⟩

-- ----- from what is put together

instance of_cons [h : Among P (Either (held x) (Either (held xs) given))] :
    Among P (Either (held (x :: xs)) given) where
  sub e he := by
    rcases h.sub e he with he | ⟨x, hmem, he⟩ | he
    · exact .inl ⟨_, mem_cons_self, he⟩
    · exact .inl ⟨x, mem_cons_of_mem _ hmem, he⟩
    · exact .inr he

end Among

-- ===== records kept

/-- From given expressions of a pool a reader comes to a larger pool, with all that its result
holds. -/
class Parse.Tracks [Holder α] (I : List Expr → ParseState → Prop) (given : Expr → Prop)
    (p : Parse α) : Prop where
  run : ∀ {s s' : ParseState} {pool : List Expr} {a : α}, I pool s →
    (∀ e, given e → e ∈ pool) → p s = .ok (a, s') →
      ∃ pool', pool ⊆ pool' ∧ I pool' s' ∧ ∀ e, held a e → e ∈ pool'

/-- What stands inside an expression is given, whatever its mark is. -/
class Built (given : Expr → Prop) (build : Mark → Expr) : Prop where
  mark : ∀ m, (build m).mark = m
  children : ∀ m, Among (held (build m).children) given

namespace Built

variable {given : Expr → Prop} {x : Expr} {args items : List Expr} {type : Option TypeRef}
  {types : List TypeRef} {name : String} {q : Option String} {kind : LiteralKind} {c : Bool}

instance ident : Built given (.ident · name types q) := ⟨fun _ => rfl, fun _ => .nil⟩
instance literal : Built given (.literal · kind name) := ⟨fun _ => rfl, fun _ => .nil⟩
instance thisRef : Built given .thisRef := ⟨fun _ => rfl, fun _ => .nil⟩
instance baseRef : Built given .baseRef := ⟨fun _ => rfl, fun _ => .nil⟩

section

variable [h : Among (held items) given]

instance group : Built given (.group · items) := ⟨fun _ => rfl, fun _ => h⟩
instance interpolated : Built given (.interpolated · items) := ⟨fun _ => rfl, fun _ => h⟩
instance array : Built given (.array · type items) := ⟨fun _ => rfl, fun _ => h⟩

instance creation [Among (held args) given] : Built given (.creation · type args items) :=
  ⟨fun _ => rfl, fun _ => inferInstanceAs (Among (held (args ++ items)) given)⟩

instance call [Among (held x) given] : Built given (.call · x items) :=
  ⟨fun _ => rfl, fun _ => inferInstanceAs (Among (held (x :: items)) given)⟩

instance element [Among (held x) given] : Built given (.element · x items) :=
  ⟨fun _ => rfl, fun _ => inferInstanceAs (Among (held (x :: items)) given)⟩

end

instance member [Among (held x) given] : Built given (.member · x name types c) :=
  ⟨fun _ => rfl, fun _ => inferInstanceAs (Among (held [x]) given)⟩

end Built

namespace Parse.Tracks

variable {I : List Expr → ParseState → Prop} {given : Expr → Prop} [Holder α] [Holder β]
  {p : Parse α} {f : α → Parse β}

instance of_pure {a : α} [h : Among (held a) given] : Tracks I given (pure a) where
  run {s s' pool a} hs hgiven hrun := by
    cases hrun
    exact ⟨pool, List.Subset.refl _, hs, fun e he => hgiven e (h.sub e he)⟩

theorem bind (hp : Tracks I given p) (hf : ∀ a, Tracks I (Either (held a) given) (f a)) :
    Tracks I given (p >>= f) where
  run {s s' pool b} hs hgiven hrun := by
    obtain ⟨a, w, ha, hb⟩ := bind_eq_ok hrun
    obtain ⟨pool', hsubset, hw, hheld⟩ := hp.run hs hgiven ha
    have hgiven' : ∀ e, Either (held a) given e → e ∈ pool' := by
      rintro e (he | he)
      · exact hheld e he
      · exact hsubset (hgiven e he)
    obtain ⟨pool'', hsubset', hs', hheld'⟩ := (hf a).run hw hgiven' hb
    exact ⟨pool'', List.Subset.trans hsubset hsubset', hs', hheld'⟩

instance of_bind [hp : Tracks I given p] [hf : ∀ a, Tracks I (Either (held a) given) (f a)] :
    Tracks I given (p >>= f) :=
  hp.bind hf

theorem weaken {given' : Expr → Prop} (hp : Tracks I given p) (h : ∀ e, given e → given' e) :
    Tracks I given' p where
  run hs hgiven hrun := hp.run hs (fun e he => hgiven e (h e he)) hrun

/-- What is read if there is nothing, and if there is something. -/
instance (priority := 2000) of_option {p : Parse (Option α)} {f : Option α → Parse β}
    [hp : Tracks I given p] [hnone : Tracks I given (f none)]
    [hsome : ∀ a, Tracks I (Either (held a) given) (f (some a))] : Tracks I given (p >>= f) := by
  refine hp.bind fun o => ?_
  cases o with
  | none => exact hnone.weaken fun _ => .inr
  | some a => exact (hsome a).weaken fun _ h => h.imp_left fun h => ⟨a, rfl, h⟩

/-- What is read from no, from one and from more items. -/
instance (priority := low) of_items {p : Parse (List α)} {f : List α → Parse β}
    [hp : Tracks I given p] [hnil : Tracks I given (f [])]
    [hone : ∀ a, Tracks I (Either (held a) given) (f [a])]
    [hmore : ∀ a a' as, Tracks I (Either (held (a :: a' :: as)) given) (f (a :: a' :: as))] :
    Tracks I given (p >>= f) := by
  refine hp.bind fun as => ?_
  match as with
  | [] => exact hnil.weaken fun _ => .inr
  | [a] => exact (hone a).weaken fun _ h => h.imp_left fun h => ⟨a, mem_cons_self, h⟩
  | a :: a' :: as => exact hmore a a' as

instance (priority := 2000) of_pair {p : Parse (α × β)} {γ : Type} [Holder γ] {f : α × β → Parse γ}
    [hp : Tracks I given p]
    [hf : ∀ a b, Tracks I (Either (held a) (Either (held b) given)) (f (a, b))] :
    Tracks I given (p >>= f) :=
  hp.bind fun (a, b) => (hf a b).weaken fun _ h => or_assoc.2 h

instance of_get {f : ParseState → Parse β} [hf : ∀ s, Tracks I given (f s)] :
    Tracks I given (get >>= f) where
  run {s _ _ _} hs hgiven hrun := (hf s).run hs hgiven hrun

instance of_ite (c : Prop) [Decidable c] (p q : Parse α) [Tracks I given p] [Tracks I given q] :
    Tracks I given (if c then p else q) := by
  split <;> infer_instance

theorem of_fails (h : ∀ s, ∃ e, p s = .error e) : Tracks I given p where
  run {s _ _ _} _ _ hrun := by
    obtain ⟨e, he⟩ := h s
    rw [he] at hrun
    cases hrun

instance of_failAt (fault : ParseFault) (token : Token) :
    Tracks I given (failAt fault token : Parse α) :=
  of_fails fun _ => ⟨_, rfl⟩

instance of_unexpected (what : Expected) : Tracks I given (unexpected what : Parse α) :=
  of_fails fun _ => ⟨_, rfl⟩

instance of_exhausted : Tracks I given (exhausted : Parse α) :=
  of_unexpected _

variable {b : Nat} [hI : Ledger I b]
include hI

/-- A plain reader leaves the pool as it is. -/
theorem plain {γ : Type} {p : Parse γ} {f : γ → Parse α} [hp : Plain p]
    (hf : ∀ a, Tracks I given (f a)) : Tracks I given (p >>= f) where
  run {s s' pool b} hs hgiven hrun := by
    obtain ⟨a, w, ha, hb⟩ := bind_eq_ok hrun
    obtain ⟨hlocals, hnode⟩ := hp.kept ha
    exact (hf a).run (Ledger.of_eq hs hlocals hnode) hgiven hb

instance (priority := 2000) of_plain {γ : Type} {p : Parse γ} {f : γ → Parse α} [Plain p]
    [hf : ∀ a, Tracks I given (f a)] : Tracks I given (p >>= f) :=
  plain hf

-- ----- expressions

variable {start : Span} {build : Mark → Expr}

/-- An expression around given ones is made. -/
theorem make {span : Option Span} (build : Mark → Expr) {g : Mark → Parse β}
    [hbuild : Built given build] (hg : ∀ m, Tracks I (Either (held (build m)) given) (g m)) :
    Tracks I given (newMark span >>= g) where
  run {s s' pool b} hs hgiven hrun := by
    obtain ⟨m, w, hm, hrun⟩ := bind_eq_ok hrun
    cases hm
    have hnode : (build ⟨span, s.nextNode⟩).node = s.nextNode := congrArg Mark.node (hbuild.mark _)
    have hw : I (build ⟨span, s.nextNode⟩ :: pool) { s with nextNode := s.nextNode + 1 } :=
      Ledger.made hs hnode fun c hc => hgiven c ((hbuild.children _).sub c ⟨c, hc, rfl⟩)
    have hgiven' : ∀ e, Either (held (build ⟨span, s.nextNode⟩)) given e →
        e ∈ build ⟨span, s.nextNode⟩ :: pool := by
      rintro e (rfl | he)
      · exact mem_cons_self
      · exact mem_cons_of_mem _ (hgiven e he)
    obtain ⟨pool', hsubset, hs', hheld⟩ := (hg _).run hw hgiven' hrun
    exact ⟨pool', List.Subset.trans (subset_cons_self _ _) hsubset, hs', hheld⟩

theorem makeFrom (build : Mark → Expr) {g : Mark → Parse β} [Built given build]
    (hg : ∀ m, Tracks I (Either (held (build m)) given) (g m)) :
    Tracks I given (markFrom start >>= g) := by
  have hmake : ∀ s : Span, Tracks I given (newMark (some s) >>= g) := fun _ => make build hg
  unfold markFrom
  rw [bind_assoc]
  infer_instance

instance of_made [Built given build] :
    Tracks I given (markFrom start >>= fun m => pure (build m)) :=
  makeFrom build fun _ => inferInstance

instance of_madeSome [Built given build] :
    Tracks I given (markFrom start >>= fun m => pure (some (build m))) :=
  makeFrom build fun _ => inferInstance

-- ----- choices

variable {k : Kind} {q : Parse (List α)} [hq : Tracks I given q]
include hq

instance of_whenNext : Tracks I given (whenNext k q) := by unfold whenNext; infer_instance
instance of_unlessNext : Tracks I given (unlessNext k q) := by unfold unlessNext; infer_instance
instance of_whenTaken : Tracks I given (whenTaken k q) := by unfold whenTaken; infer_instance

end Parse.Tracks

-- ===== locals

/-- A lambda head declares parameters without initializers. -/
theorem Expr.init_of_mem_lambdaParameters {head : Expr} {l : LocalDecl}
    (hl : l ∈ head.lambdaParameters) : l.init = none := by
  have hnames : ∀ (names : List Expr) (ls : List LocalDecl),
      names.mapM Expr.asParameter? = some ls → ∀ l ∈ ls, l.init = none := by
    intro names
    induction names with
    | nil =>
      intro ls hls
      cases hls
      exact fun _ hl => absurd hl not_mem_nil
    | cons e names ih =>
      intro ls hls
      rw [mapM_cons] at hls
      obtain ⟨first, hfirst, hls⟩ := Option.bind_eq_some_iff.1 hls
      obtain ⟨more, hmore, hls⟩ := Option.bind_eq_some_iff.1 hls
      cases hls
      refine forall_mem_cons.2 ⟨?_, ih more hmore⟩
      unfold Expr.asParameter? at hfirst
      split at hfirst
      · cases hfirst
        rfl
      · cases hfirst
  unfold Expr.lambdaParameters at hl
  simp only at hl
  generalize hls : List.mapM Expr.asParameter? _ = found at hl
  cases found with
  | none => exact absurd hl not_mem_nil
  | some ls => exact hnames _ ls hls l hl

/-- Changing an element behind a front keeps the front. -/
theorem prefix_modify {as bs : List α} (h : as <+: bs) {i : Nat} (hi : as.length ≤ i)
    (f : α → α) : as <+: bs.modify i f := by
  obtain ⟨cs, rfl⟩ := h
  obtain ⟨j, rfl⟩ := Nat.exists_eq_add_of_le hi
  rw [List.modify, modifyTailIdx_add]
  exact prefix_append _ _

/-- The place of a local is behind those that are kept. -/
class Behind (b i : Nat) : Prop where
  le : b ≤ i

namespace Parse.Tracks

variable {I : List Expr → ParseState → Prop} {b i : Nat} [hI : Ledger I b] {given : Expr → Prop}
  [Holder α] {p : Parse α} {f : Nat → Parse α}
include hI

theorem count (hf : ∀ n, [Behind b n] → Tracks I given (f n)) :
    Tracks I given (localCount >>= f) where
  run {s _ _ _} hs hgiven hrun :=
    have : Behind b s.locals.size := ⟨Ledger.base_le hs⟩
    (hf s.locals.size).run hs hgiven hrun

instance of_count [hf : ∀ n, Tracks I given (f n)] : Tracks I given (localCount >>= f) :=
  count fun n _ => hf n

/-- Locals are changed behind the first ones, and get no initializers but given ones. -/
theorem of_modify {f : Array LocalDecl → Array LocalDecl}
    (hfront : ∀ ls, ls.toList.take b <+: (f ls).toList)
    (hlocals : ∀ ls, ∀ l ∈ f ls, l ∈ ls ∨ ∀ init ∈ l.init, given init) :
    Tracks I given (modify fun s => { s with locals := f s.locals }) where
  run {s s' pool a} hs hgiven hrun := by
    cases hrun
    refine ⟨pool, List.Subset.refl _, Ledger.changed hs (hfront _) fun l hl init hinit => ?_, nofun⟩
    rcases hlocals _ l hl with hl | hl
    · exact .inr ⟨l, hl, hinit⟩
    · exact .inl (hgiven init (hl init hinit))

theorem of_recordLocals {ls : List LocalDecl} (hls : ∀ l ∈ ls, l.init = none) :
    Tracks I given (recordLocals ls) := by
  refine of_modify (f := (· ++ ls)) (fun old => (List.take_prefix b old.toList).trans (by simp))
    fun old l hl => ?_
  have hl : l ∈ old ∨ l ∈ ls := by simpa [← Array.mem_toList_iff] using hl
  refine hl.imp_right fun hl init hinit => ?_
  rw [hls l hl] at hinit
  cases hinit

/-- A local is recorded behind those that are kept. -/
theorem newLocal {l : LocalDecl} [hl : Among (held l) given]
    (hf : ∀ i, [Behind b i] → Tracks I given (f i)) : Tracks I given (recordLocal l >>= f) where
  run {s s' pool a} hs hgiven hrun := by
    have : Behind b s.locals.size := ⟨Ledger.base_le hs⟩
    refine (hf s.locals.size).run (Ledger.changed hs ?_ ?_) hgiven hrun
    · rw [Array.toList_push]
      exact (List.take_prefix _ _).trans (prefix_append _ _)
    · intro l' hl' init hinit
      rcases Array.mem_push.1 hl' with hl' | rfl
      · exact .inr ⟨l', hl', hinit⟩
      · exact .inl (hgiven init (hl.sub init ⟨init, hinit, rfl⟩))

instance of_updateLocal [hi : Behind b i] {f : LocalDecl → LocalDecl}
    [hf : ∀ l, Among (held (f l)) given] : Tracks I given (updateLocal i f) := by
  refine of_modify (f := (·.modify i f)) (fun ls => ?_) fun ls l hl => ?_
  · rw [Array.toList_modify]
    exact prefix_modify (List.take_prefix _ _) ((length_take_le _ _).trans hi.le) f
  · obtain ⟨k, hk, rfl⟩ := Array.mem_iff_getElem.1 hl
    rw [Array.getElem_modify]
    split
    · exact .inr fun init hinit => (hf _).sub init ⟨init, hinit, rfl⟩
    · exact .inl (Array.getElem_mem _)

instance of_recordParameters (declared : Nat) (head : Expr) :
    Tracks I given (recordParameters declared head) := by
  have hlocals : Tracks I given (recordLocals head.lambdaParameters) :=
    of_recordLocals fun _ hl => Expr.init_of_mem_lambdaParameters hl
  unfold recordParameters
  infer_instance

instance of_recordCollection {declared : Nat} {source : List Expr} [hdeclared : Behind b declared]
    [Among (held source) given] : Tracks I given (recordCollection declared source) := by
  have hcollection : Tracks I given (collectionOf source) := by
    unfold collectionOf
    split
    · infer_instance
    · exact .of_pure (h := .some (h := .of_head (h := ‹_›)))
    · exact make (.group · _) fun _ => inferInstance
  unfold recordCollection
  refine .count fun count => ?_
  split
  · have : Behind b (count - 1) := ⟨by have := hdeclared.le; omega⟩
    infer_instance
  · infer_instance

/-- Tokens of a hole are read in the pool of the body around it. -/
instance of_withTokens {tokens : List Token} [hp : Tracks I given p] :
    Tracks I given (withTokens tokens p) where
  run {s s' pool a} hs hgiven hrun := by
    obtain ⟨s₀, w, hget, hrun⟩ := bind_eq_ok hrun
    cases hget
    obtain ⟨_, w, hset, hrun⟩ := bind_eq_ok hrun
    cases hset
    obtain ⟨a', w, ha, hrun⟩ := bind_eq_ok hrun
    obtain ⟨_, w', hmodify, hrun⟩ := bind_eq_ok hrun
    cases hmodify
    cases hrun
    have hinner : I pool { s with
        rest := (ParseState.ofTokens tokens).rest, eof := (ParseState.ofTokens tokens).eof,
        last := none } :=
      Ledger.of_eq hs rfl rfl
    obtain ⟨pool', hsubset, hw, hheld⟩ := hp.run hinner hgiven ha
    exact ⟨pool', hsubset, Ledger.of_eq hw rfl rfl, hheld⟩

end Parse.Tracks

-- ===== bodies

/-- The readers of bodies keep the record. -/
structure BodiesTrack (I : List Expr → ParseState → Prop) (n : Nat) : Prop where
  items : ∀ given stops, Tracks I given (itemsWithin n stops)
  item : ∀ given, Tracks I given (itemWithin n)
  block : ∀ given, Tracks I given (blockWithin n)
  group : ∀ given opener closer what, Tracks I given (groupWithin n opener closer what)
  eachOf : ∀ given, Tracks I given (foreachWithin n)
  localOf : ∀ given e, Tracks I given (localWithin n e)
  head : ∀ given, Tracks I given (headWithin n)
  holes : ∀ given holes, Tracks I given (holesWithin n holes)
  creation : ∀ given start, Tracks I given (creationWithin n start)
  initializer : ∀ given, Tracks I given (initializerWithin n)
  argumentList : ∀ given closer, Tracks I given (argumentListWithin n closer)
  arguments : ∀ given closer, Tracks I given (argumentsWithinBrackets n closer)
  argument : ∀ given closer, Tracks I given (argumentWithin n closer)
  chain : ∀ given e start, [Among (held e) given] → Tracks I given (chainWithin n e start)

theorem bodiesTrack {I : List Expr → ParseState → Prop} {b : Nat} [Ledger I b] :
    ∀ n, BodiesTrack I n
  | 0 => by
    constructor
    case holes =>
      intro given holes
      cases holes
      · exact .of_pure
      · exact .of_exhausted
    all_goals intros; exact .of_exhausted
  | n + 1 => by
    have ⟨_, _, _, _, _, _, _, _, _, _, _, _, _, _⟩ := bodiesTrack (I := I) n
    constructor
    case items => intros; unfold itemsWithin; infer_instance
    case item => intros; unfold itemWithin; infer_instance
    case block => intros; unfold blockWithin; infer_instance
    case group => intros; unfold groupWithin; infer_instance
    case eachOf =>
      intros
      unfold foreachWithin
      refine .plain fun start => .plain fun _ => .plain fun isOpen => ?_
      split
      · infer_instance
      · exact .count fun _ => inferInstance
    case localOf =>
      intros
      unfold localWithin
      refine .plain fun name => ?_
      split
      · exact .plain fun _ => .newLocal fun _ => inferInstance
      · infer_instance
    case head =>
      intros
      unfold headWithin
      refine .plain fun start => .plain fun tok => ?_
      split
      all_goals try infer_instance
      split <;> infer_instance
    case holes =>
      intro given holes
      cases holes with
      | nil => exact .of_pure
      | cons hole holes =>
        rw [holesWithin]
        refine .bind inferInstance fun items => ?_
        split
        · infer_instance
        · infer_instance
        · next e es _ => exact .make (.group · (e :: es)) fun _ => inferInstance
    case creation => intros; unfold creationWithin; infer_instance
    case initializer => intros; unfold initializerWithin; infer_instance
    case argumentList => intros; unfold argumentListWithin; infer_instance
    case arguments => intros; unfold argumentsWithinBrackets; infer_instance
    case argument => intros; unfold argumentWithin; infer_instance
    case chain =>
      intro given e start he
      unfold chainWithin
      refine .plain fun link => ?_
      split
      · next conditional =>
        refine .plain fun _ => .plain fun name => .plain fun typeArgs => ?_
        exact .makeFrom (.member · e name.text typeArgs conditional) fun _ => inferInstance
      · exact .bind inferInstance fun args => .makeFrom (.call · e args) fun _ => inferInstance
      · exact .bind inferInstance fun args => .makeFrom (.element · e args) fun _ => inferInstance
      · infer_instance
      · infer_instance

-- ===== parameters

section

variable {I : List Expr → ParseState → Prop} {b : Nat} [hI : Ledger I b] {given : Expr → Prop}
include hI

instance tracks_items (stops : List Kind) : Tracks I given (items stops) := by
  have := fun n => (bodiesTrack (I := I) n).items given stops
  unfold items
  infer_instance

theorem tracks_parametersWithin (closer : Kind) (n : Nat) :
    Tracks I given (parametersWithin closer n) := by
  induction n generalizing given with
  | zero => exact .of_exhausted
  | succ n ih =>
    unfold parametersWithin
    infer_instance

instance tracks_parameterList (closer : Kind) : Tracks I given (parameterList closer) := by
  have hwithin : ∀ n, Tracks I given (parametersWithin closer n) := tracks_parametersWithin closer
  unfold parameterList parameters
  infer_instance

end

end SourceBundle
