/-
The members that a type has or inherits.

The members of a name are looked up in a table of the members of all
types, which was filled type by type. What the table holds of one name
of one type is told from the parts of the type alone (`membersCalled`).
A member is looked for in the type and its bases, and the first of them
that has any is the nearest (`members_nearest`).
-/
import SourceBundle.Proofs.Binding.Ancestry
import Mathlib.Data.Nat.Find

namespace SourceBundle

open List

-- ===== members of a name

/-- Adds the members of a name that a part of a type has: those that are written, and if there are
none so far the property that a parameter of a record stands for. -/
def DeclaredType.addCalled (name : String) (refs : List MemberRef) (t : DeclaredType) :
    List MemberRef :=
  let refs := refs ++ (t.membersWhere MemberKind.isNamed).filter (·.decl.name = name)
  if refs.isEmpty && t.decl.keyword.isRecord then
    ((t.decl.params.find? (·.name = name)).map t.recordProperty).toList
  else refs

/-- The members of a name that a type itself has, over all its parts. -/
def Declarations.membersCalled (ds : Declarations) (owner name : String) : List MemberRef :=
  (ds.named owner).foldl (DeclaredType.addCalled name) []

/-- A member belongs to a type of a name and has a name. -/
def MemberRef.isCalled (owner name : String) (r : MemberRef) : Bool :=
  r.owner = owner && r.decl.name = name

namespace DeclaredType

variable {owner name : String} {t : DeclaredType}

theorem filter_addRecordProperties_of_ne (hne : t.qualifiedName ≠ owner) (refs : List MemberRef)
    (ps : List Param) : (t.addRecordProperties refs ps).filter (MemberRef.isCalled owner name)
      = refs.filter (MemberRef.isCalled owner name) := by
  induction ps generalizing refs with
  | nil => rfl
  | cons p ps ih =>
    unfold addRecordProperties
    split
    · exact ih refs
    · rw [ih, filter_append]
      simp [MemberRef.isCalled, MemberRef.owner, recordProperty, hne]

theorem isCalled_recordProperty {p : Param} :
    MemberRef.isCalled t.qualifiedName name (t.recordProperty p) = true ↔ p.name = name := by
  simp only [MemberRef.isCalled, MemberRef.owner, recordProperty, decide_true, Bool.true_and]
  exact decide_eq_true_iff

theorem filter_addRecordProperties (refs : List MemberRef) (ps : List Param) :
    (t.addRecordProperties refs ps).filter (MemberRef.isCalled t.qualifiedName name)
      = if (refs.filter (MemberRef.isCalled t.qualifiedName name)).isEmpty then
          ((ps.find? (·.name = name)).map t.recordProperty).toList
        else refs.filter (MemberRef.isCalled t.qualifiedName name) := by
  induction ps generalizing refs with
  | nil =>
    unfold addRecordProperties
    split
    · next h => simpa using h
    · rfl
  | cons p ps ih =>
    have hany : (refs.any fun r => r.owner = t.qualifiedName && r.decl.name = p.name) = true
        ↔ ¬(refs.filter (MemberRef.isCalled t.qualifiedName p.name)).isEmpty := by
      simp [MemberRef.isCalled]
    unfold addRecordProperties
    by_cases hp : p.name = name
    · rw [find?_cons_of_pos (by simpa using hp)]
      subst hp
      split
      · next h => rw [ih, if_neg (hany.1 h), if_neg (hany.1 h)]
      · next h =>
        have hempty := Decidable.not_not.1 fun hne => h (hany.2 hne)
        rw [ih, if_pos hempty, filter_append, isEmpty_iff.1 hempty,
          filter_cons_of_pos (isCalled_recordProperty.2 rfl)]
        rfl
    · rw [find?_cons_of_neg (by simpa using hp)]
      split
      · exact ih refs
      · rw [ih, filter_append, filter_cons_of_neg fun h => hp (isCalled_recordProperty.1 h),
          filter_nil, append_nil]

theorem filter_addNamedMembers (refs : List MemberRef) :
    (addNamedMembers refs t).filter (MemberRef.isCalled owner name)
      = if t.qualifiedName = owner then
          addCalled name (refs.filter (MemberRef.isCalled owner name)) t
        else refs.filter (MemberRef.isCalled owner name) := by
  have hwritten : (t.membersWhere MemberKind.isNamed).filter (MemberRef.isCalled owner name)
      = if t.qualifiedName = owner then
          (t.membersWhere MemberKind.isNamed).filter (·.decl.name = name) else [] := by
    split
    · next heq =>
      refine filter_congr fun r hr => ?_
      simp [MemberRef.isCalled, MemberRef.owner, (writtenIn_of_mem_membersWhere hr).type_eq, heq]
    · next hne =>
      refine filter_eq_nil_iff.2 fun r hr => ?_
      simp [MemberRef.isCalled, MemberRef.owner, (writtenIn_of_mem_membersWhere hr).type_eq, hne]
  unfold addNamedMembers
  simp only
  split
  · next hrecord =>
    split
    · next heq =>
      subst heq
      rw [filter_addRecordProperties, filter_append, hwritten, if_pos rfl]
      simp [addCalled, hrecord]
    · next hne =>
      rw [filter_addRecordProperties_of_ne hne, filter_append, hwritten, if_neg hne, append_nil]
  · next hrecord =>
    rw [filter_append, hwritten]
    split
    · simp [addCalled, hrecord]
    · exact append_nil _

end DeclaredType

/-- The table holds, of each name of each type, the members that the type has. -/
theorem MemberTable.ofType_ofTypes (ds : Declarations) (owner name : String) :
    (ofTypes ds.types).ofType owner name = ds.membersCalled owner name := by
  have hfold : ∀ (types : List DeclaredType) (refs : List MemberRef),
      (types.foldl DeclaredType.addNamedMembers refs).filter (MemberRef.isCalled owner name)
        = (types.filter (·.qualifiedName = owner)).foldl (DeclaredType.addCalled name)
            (refs.filter (MemberRef.isCalled owner name)) := by
    intro types
    induction types with
    | nil => exact fun _ => rfl
    | cons t types ih =>
      intro refs
      rw [foldl_cons, ih, DeclaredType.filter_addNamedMembers]
      split
      · next heq => rw [filter_cons_of_pos (by simpa using heq), foldl_cons]
      · next hne => rw [filter_cons_of_neg (by simpa using hne)]
  exact hfold ds.types []

namespace Index

variable {ix : Index}

/-- The members found in some types are those of the first that has any. -/
theorem answers_findMembersIn (name : String) (types : List DeclaredType) :
    Answers (fun found => (∀ t ∈ types, ix.members.ofType t.qualifiedName name = []) ∧ found.1 = []
        ∨ ∃ before t after, types = before ++ t :: after
          ∧ (∀ o ∈ before, ix.members.ofType o.qualifiedName name = [])
          ∧ ix.members.ofType t.qualifiedName name ≠ []
          ∧ found.1 = ix.members.ofType t.qualifiedName name)
      (ix.findMembersIn name types) := by
  induction types with
  | nil => exact .of_pure (.inl ⟨forall_mem_nil _, rfl⟩)
  | cons t types ih =>
    unfold findMembersIn
    split
    · next hnone =>
      refine .after _ fun _ => ih.bind fun found hfound => .of_pure ?_
      rcases hfound with ⟨hall, hfound⟩ | ⟨before, o, after, rfl, hbefore, hsome, hfound⟩
      · exact .inl ⟨forall_mem_cons.2 ⟨hnone, hall⟩, hfound⟩
      · exact .inr ⟨t :: before, o, after, rfl, forall_mem_cons.2 ⟨hnone, hbefore⟩, hsome, hfound⟩
    · next hsome =>
      exact .of_pure (.inr ⟨[], t, types, rfl, forall_mem_nil _, hsome, rfl⟩)

end Index

/-- The members of a name that are found for a type are all those of one of the types that bases
lead to, and none at fewer steps has any. None are found exactly if there are none. -/
theorem Workspace.members_nearest (w : Workspace) {t : DeclaredType} (ht : t ∈ w.index.types)
    (name : String) (memo : BaseMemo) :
    w.index.Visits [t] [] (w.index.lineage t)
      ∧ ((w.index.findMembers t name memo).1.1 = [] ↔
        ∀ k owner, w.index.Ascends t.qualifiedName k owner → w.index.membersCalled owner name = [])
      ∧ ((w.index.findMembers t name memo).1.1 ≠ [] →
        ∃ k owner, w.index.Ascends t.qualifiedName k owner
          ∧ (w.index.findMembers t name memo).1.1 = w.index.membersCalled owner name
          ∧ ∀ j < k, ∀ nearer, w.index.Ascends t.qualifiedName j nearer →
            w.index.membersCalled nearer name = []) := by
  classical
  have hlineage := Declarations.finds_lineage w.index_sound.placed ht
  have htable : ∀ owner, w.index.members.ofType owner name = w.index.membersCalled owner name :=
    fun owner => MemberTable.ofType_ofTypes w.declarations owner name
  have hanswer := w.index.answers_findMembersIn name (w.index.lineage t) memo
  refine ⟨Declarations.visits_lineage ht, ?_⟩
  rcases hanswer with ⟨hall, hfound⟩ | ⟨before, s, after, hsplit, hbefore, hsome, hfound⟩
  · refine ⟨⟨fun _ k owner hk => ?_, fun _ => hfound⟩, fun hne => absurd hfound hne⟩
    obtain ⟨o, ho, rfl⟩ := (hlineage.all k owner hk).resolve_left not_mem_nil
    rw [← htable]
    exact hall o ho
  · have hs : s ∈ w.index.lineage t := hsplit ▸ mem_append_right _ mem_cons_self
    have hascends := hlineage.ascends s hs
    rw [Index.findMembers, hfound]
    refine ⟨⟨fun hnone => absurd hnone hsome, fun hall => ?_⟩, fun _ => ?_⟩
    · obtain ⟨k, hk⟩ := hascends
      rw [htable]
      exact hall k _ hk
    · -- at the least number of steps to the type found, none at fewer can come before it
      refine ⟨Nat.find hascends, s.qualifiedName, Nat.find_spec hascends, htable _,
        fun j hj nearer hnearer => ?_⟩
      obtain ⟨o, ho, rfl⟩ := (hlineage.all j nearer hnearer).resolve_left not_mem_nil
      rw [← htable]
      have hnearest := hlineage.nearest
      rw [hsplit] at ho hnearest
      rcases mem_append.1 ho with ho | ho
      · exact hbefore o ho
      · exfalso
        rcases mem_cons.1 ho with rfl | ho
        · exact Nat.find_min hascends hj hnearer
        · obtain ⟨i, hi, hs⟩ := (pairwise_cons.1 (pairwise_append.1 hnearest).2.1).1 o ho j hnearer
          exact Nat.find_min hascends (Nat.lt_of_le_of_lt hi hj) hs

/-- The nearest member is that of the base next to the type, not that of the base behind it. -/
theorem Workspace.members_nearest_ladder :
    ∃ t ∈ ladder.index.types,
      (ladder.index.findMembers t "F" []).1.1.map (·.symbol.name) = ["A.M.F()"]
        ∧ ∃ k owner, ladder.index.Ascends t.qualifiedName k owner
          ∧ (ladder.index.findMembers t "F" []).1.1 = ladder.index.membersCalled owner "F"
          ∧ ∀ j < k, ∀ nearer, ladder.index.Ascends t.qualifiedName j nearer →
            ladder.index.membersCalled nearer "F" = [] := by
  have hfound : (ladder.index.types[5]?.any fun t =>
      (ladder.index.findMembers t "F" []).1.1.map (·.symbol.name) == ["A.M.F()"]) = true := by
    decide +kernel
  obtain ⟨t, ht, hfound⟩ := (Option.any_eq_true _ _).1 hfound
  have hfound := beq_iff_eq.1 hfound
  refine ⟨t, mem_of_getElem? ht, hfound, ?_⟩
  refine (members_nearest ladder (mem_of_getElem? ht) "F" []).2.2 fun hnil => ?_
  rw [hnil] at hfound
  cases hfound

end SourceBundle
