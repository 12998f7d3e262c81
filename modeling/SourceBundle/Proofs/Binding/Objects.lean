/-
What converts to `object`. A type fits it unless it is an array: type
parameters and `null` fit whatever their number of array suffixes, and
of the others those that have none. So arrays, and they alone, keep a
call from an overload that has only parameters of type `object`, and
from an extension method of `object` (`object_takes_iff`).
-/
import SourceBundle.Binding.Conversion

namespace SourceBundle

open List

variable {ds : Declarations} {ix : Index} {t : BoundType} {object : TypeRef}

/-- The type `object` as it is written, nullable or not. -/
structure TypeRef.IsObject (object : TypeRef) : Prop where
  name : object.name = "object"
  rank : object.rank = 0
  tuple : object.tuple = false

instance (object : TypeRef) : Decidable object.IsObject :=
  decidable_of_iff (object.name = "object" ∧ object.rank = 0 ∧ object.tuple = false)
    ⟨fun ⟨name, rank, tuple⟩ => ⟨name, rank, tuple⟩, fun ⟨name, rank, tuple⟩ => ⟨name, rank, tuple⟩⟩

namespace BoundType

/-- A type that is no array. -/
def IsSingle (t : BoundType) : Prop :=
  t.isTypeParam = true ∨ t.name = "null" ∨ t.rank = 0

instance (t : BoundType) : Decidable t.IsSingle :=
  inferInstanceAs (Decidable (_ ∨ _))

/-- How a type fits `object`. -/
def objectFit (t : BoundType) : Option Fit :=
  if t.IsSingle then
    if !t.isTypeParam && t.source.isNone && t.name = "object" then some .identical
    else some .convertible
  else none

theorem objectFit_mem_iff (t : BoundType) :
    t.objectFit ∈ [some .convertible, some .identical] ↔ t.IsSingle := by
  unfold objectFit
  split
  next h => split <;> simp [h]
  next h => simp [h]

theorem isSome_objectFit_iff (t : BoundType) : t.objectFit.isSome ↔ t.IsSingle := by
  unfold objectFit
  split
  next h => split <;> simp [h]
  next h => simp [h]

end BoundType

theorem fitNull_object {param : BoundType} (h : param.name = "object") :
    fitNull param = some .convertible := by
  rw [fitNull, h]
  rfl

theorem isAny_object {param : BoundType} (h : param.name = "object") : param.isAny = true := by
  rw [BoundType.isAny, h]
  rfl

theorem fitPlatform_object {param : BoundType} (h : param.name = "object") :
    fitPlatform t param = if t.name = "object" then some .identical else some .convertible := by
  rw [fitPlatform, h, isAny_object h, Bool.or_true, if_pos rfl]

theorem fitMixed_object {param : BoundType} (h : param.name = "object") :
    fitMixed t param = some .convertible := by
  rw [fitMixed, isAny_object h, if_pos rfl]

namespace Declarations

/-- `object` is bound as itself everywhere, and how a type fits it is seen from the type alone. -/
theorem fit_object (h : object.IsObject) (site : Option DeclaredType) (typeParams : List String)
    (t : BoundType) : ds.fit t (ds.boundType site typeParams object) = pure t.objectFit := by
  obtain ⟨name, args, qualifier, rank, nullable, tuple, span⟩ := object
  obtain ⟨rfl, rfl, rfl⟩ := h
  show ds.fit t { name := "object", nullable } = _
  by_cases hparam : t.isTypeParam = true
  · simp [fit, BoundType.objectFit, BoundType.IsSingle, hparam]
  by_cases hnull : t.name = "null"
  · simp [fit, BoundType.objectFit, BoundType.IsSingle, hparam, hnull, fitNull_object]
  by_cases hrank : t.rank = 0
  · cases hsource : t.source with
    | none =>
      simp [fit, BoundType.objectFit, BoundType.IsSingle, hparam, hnull, hrank, hsource,
        fitPlatform_object]
    | some s =>
      simp [fit, BoundType.objectFit, BoundType.IsSingle, hparam, hnull, hrank, hsource,
        fitMixed_object]
  · simp [fit, BoundType.objectFit, BoundType.IsSingle, hparam, hnull, hrank]

theorem isObject_of_paramAt {params : List Param} {i : Nat} {p : Param}
    (h : ∀ p ∈ params, p.type.IsObject) (hp : paramAt params i = some p) : p.type.IsObject := by
  unfold paramAt at hp
  split at hp
  · exact h p (mem_of_getElem? hp)
  · exact h p (mem_of_getLast? (Option.eq_some_of_filter_eq_some hp))

theorem rank_boundType (site : Option DeclaredType) (typeParams : List String) (type : TypeRef) :
    (ds.boundType site typeParams type).rank = type.rank := by
  cases type
  rfl

theorem fitParam_object (r : MemberRef) {p : Param} (h : p.type.IsObject) (t : BoundType) :
    ds.fitParam r p t = pure t.objectFit := by
  unfold fitParam
  simp [fit_object h, rank_boundType, h.rank]

/-- Arguments fit parameters of type `object` if none of those that go to one is an array. -/
theorem fitArgs_object (ds : Declarations) (r : MemberRef) {params : List Param}
    (h : ∀ p ∈ params, p.type.IsObject) (place : Nat) (args : List (Option BoundType)) :
    ∃ score, ds.fitArgs r params place args = pure score ∧ (score.isSome ↔
      ∀ i a, args[i]? = some (some a) → (paramAt params (place + i)).isSome → a.IsSingle) := by
  induction args generalizing place with
  | nil => exact ⟨some 0, rfl, by simp⟩
  | cons arg args ih =>
    obtain ⟨score, hscore, hrest⟩ := ih (place + 1)
    have hcons : (∀ i a, (arg :: args)[i]? = some (some a) → (paramAt params (place + i)).isSome →
        a.IsSingle) ↔ (∀ a, arg = some a → (paramAt params place).isSome → a.IsSingle)
          ∧ score.isSome := by
      rw [hrest]
      constructor
      · intro hall
        refine ⟨fun a ha => hall 0 a (congrArg some ha), fun i a ha hp => hall (i + 1) a ha ?_⟩
        rwa [← Nat.add_assoc, Nat.add_right_comm]
      · rintro ⟨hhead, hall⟩ (- | i) a ha hp
        · exact hhead a (Option.some.inj ha) hp
        · refine hall i a ha ?_
          rwa [Nat.add_right_comm, Nat.add_assoc]
    rw [hcons]
    unfold fitArgs
    match arg, hparam : paramAt params place with
    | none, _ => exact ⟨score, hscore, by simp⟩
    | some a, none => exact ⟨score, hscore, by simp⟩
    | some a, some p =>
      have hsingle := a.isSome_objectFit_iff
      dsimp only
      rw [fitParam_object r (isObject_of_paramAt h hparam), pure_bind, hscore]
      cases hobject : a.objectFit with
      | none => exact ⟨none, rfl, by simp [← hsingle, hobject]⟩
      | some f => exact ⟨score.map (f.score + ·), rfl, by simp [← hsingle, hobject]⟩

end Declarations

namespace Index

theorem takesReceiver_object {r : MemberRef} {p : Param} {ps : List Param}
    (hparams : r.decl.params = p :: ps) (h : p.type.IsObject) (receiver : BoundType) :
    ix.takesReceiver r receiver = pure receiver.objectFit.isSome := by
  rw [takesReceiver, hparams]
  dsimp only
  rw [Declarations.fit_object h]
  rfl

/-- An extension method of `object` stays if the receiver is no array. -/
theorem mem_extensionsFor_object {r : MemberRef} {p : Param} {ps : List Param}
    (hparams : r.decl.params = p :: ps) (h : p.type.IsObject) (receiver : BoundType)
    (refs : List MemberRef) (memo : BaseMemo) :
    r ∈ (ix.extensionsFor receiver refs memo).1 ↔ r ∈ refs ∧ receiver.IsSingle := by
  induction refs generalizing memo with
  | nil => exact ⟨nofun, nofun⟩
  | cons s refs ih =>
    show r ∈ (if (ix.takesReceiver s receiver memo).1 then
      s :: (ix.extensionsFor receiver refs (ix.takesReceiver s receiver memo).2).1
      else (ix.extensionsFor receiver refs (ix.takesReceiver s receiver memo).2).1) ↔ _
    by_cases hs : r = s
    · subst hs
      rw [takesReceiver_object hparams h]
      show r ∈ (if receiver.objectFit.isSome then _ else _) ↔ _
      split
      next hfit => simp [← receiver.isSome_objectFit_iff, hfit]
      next hfit => simp [← receiver.isSome_objectFit_iff, hfit, ih]
    · split
      · rw [mem_cons, ih, mem_cons, or_iff_right hs, or_iff_right hs]
      · rw [ih, mem_cons, or_iff_right hs]

/-- A type fits `object`, by a conversion or as the same type, unless it is an array. So an overload
that has only parameters of type `object` is left out for an array that goes to one of them and for
nothing else, and an extension method of `object` takes every receiver but arrays. -/
theorem object_takes_iff (ix : Index) (memo : BaseMemo) :
    (∀ t site typeParams object, TypeRef.IsObject object →
      ((ix.fit t (ix.boundType site typeParams object) memo).1
        ∈ [some .convertible, some .identical] ↔ t.IsSingle))
    ∧ (∀ (r : MemberRef) params args, (∀ p ∈ params, p.type.IsObject) →
      ((ix.fitArgs r params 0 args memo).1.isSome ↔ ∀ i a, args[i]? = some (some a) →
        (Declarations.paramAt params i).isSome → a.IsSingle))
    ∧ ∀ name (r : MemberRef) p ps receiver, r ∈ ix.members.extensions name →
      r.decl.params = p :: ps → p.type.IsObject →
      (r ∈ (ix.extensionMethods name (some receiver) memo).1 ↔ receiver.IsSingle) := by
  refine ⟨fun t site typeParams object h => ?_, fun r params args h => ?_, ?_⟩
  · rw [Declarations.fit_object h]
    exact t.objectFit_mem_iff
  · obtain ⟨score, hscore, hiff⟩ := ix.toDeclarations.fitArgs_object r h 0 args
    rw [hscore]
    simp only [Nat.zero_add] at hiff
    exact hiff
  · intro name r p ps receiver hr hparams h
    exact (mem_extensionsFor_object hparams h receiver _ memo).trans (and_iff_right hr)

end Index

/-- An extension method of `object`. -/
def Workspace.extendedObject : Workspace :=
  Id.run (ofSources {}
    [("A.cs", "static class E \x7b static void M(this object o) \x7b \x7d \x7d")])

/-- A number is a receiver of it. -/
theorem Index.object_takes_number :
    let ix := Workspace.extendedObject.index
    let t := BoundType.platform "int"
    (ix.fit t (ix.boundType none [] { name := "object" }) []).1
        ∈ [some Fit.convertible, some .identical]
      ∧ ∃ r ∈ ix.members.extensions "M",
        (ix.fitArgs r r.decl.params 0 [some t, none] []).1.isSome
        ∧ r ∈ (ix.extensionMethods "M" (some t) []).1 := by
  intro ix t
  obtain ⟨r, hr, p, hparams, hp⟩ : ∃ r ∈ ix.members.extensions "M",
      ∃ p, r.decl.params = [p] ∧ p.type.IsObject := by
    have hfound : ((ix.members.extensions "M").any fun r =>
        r.decl.params.length = 1 && r.decl.params.all (·.type.IsObject)) = true := by
      decide +kernel
    obtain ⟨r, hr, hparams⟩ := any_eq_true.1 hfound
    obtain ⟨hlength, hobject⟩ := Bool.and_eq_true_iff.1 hparams
    obtain ⟨p, hp⟩ := length_eq_one_iff.1 (of_decide_eq_true hlength)
    rw [hp, all_cons, Bool.and_eq_true_iff] at hobject
    exact ⟨r, hr, p, hp, of_decide_eq_true hobject.1⟩
  have ht : t.IsSingle := .inr (.inr rfl)
  obtain ⟨hfit, hargs, hreceiver⟩ := object_takes_iff ix []
  refine ⟨(hfit t none [] _ (by decide)).2 ht, r, hr, (hargs r _ _ ?_).2 ?_,
    (hreceiver "M" r p [] t hr hparams hp).2 ht⟩
  · rw [hparams]
    exact forall_mem_singleton.2 hp
  · rintro (- | - | i) a ha -
    · cases ha
      exact ht
    · cases ha
    · cases ha

/-- An array is none. -/
theorem Index.object_takes_no_array :
    let ix := Workspace.extendedObject.index
    let t := (BoundType.platform "int").arrayOf
    (ix.fit t (ix.boundType none [] { name := "object" }) []).1 = none
      ∧ (ix.members.extensions "M").length = 1
      ∧ (ix.members.extensions "M").all (fun r =>
        (ix.fitArgs r r.decl.params 0 [some t] []).1.isNone)
      ∧ (ix.extensionMethods "M" (some t) []).1.isEmpty := by
  decide +kernel

end SourceBundle
