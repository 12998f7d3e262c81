/-
Whatever way a type is looked up, what is found is a declared type. A
bound type is `Known` if the declarations that it and its arguments
stand for are all declared, and each way to make a bound type from
others or from what is written gives a known one.
-/
import SourceBundle.Proofs.Binding.Declared

namespace SourceBundle

open List

-- ===== answers

section

variable {α β : Type} {P : α → Prop}

theorem forall_mem_orElse {x y : Option α} (hx : ∀ a ∈ x, P a) (hy : ∀ a ∈ y, P a) :
    ∀ a ∈ (x <|> y), P a := by
  cases x with
  | none => exact hy
  | some a => exact hx

theorem forall_mem_some {a : α} (ha : P a) : ∀ b ∈ some a, P b := by
  rintro _ ⟨⟩
  exact ha

theorem forall_mem_findSome? {l : List β} {f : β → Option α} (hf : ∀ b ∈ l, ∀ a ∈ f b, P a) :
    ∀ a ∈ l.findSome? f, P a := by
  intro a ha
  obtain ⟨b, hb, hba⟩ := exists_of_findSome?_eq_some ha
  exact hf b hb a hba

theorem forall_mem_bind {x : Option β} {f : β → Option α} (hf : ∀ b ∈ x, ∀ a ∈ f b, P a) :
    ∀ a ∈ x.bind f, P a := by
  intro a ha
  obtain ⟨b, hb, hba⟩ := Option.bind_eq_some_iff.1 ha
  exact hf b hb a hba

end

-- ===== names

namespace Declarations

variable {ds : Declarations}

/-- Types of a name are declared. -/
theorem mem_of_mem_named {name : String} {t : DeclaredType} (ht : t ∈ ds.named name) :
    t ∈ ds.types :=
  (mem_filter.1 ht).1

/-- The type of a full name is declared. -/
theorem mem_of_typeNamed (ds : Declarations) (name : String) (arity : Option Nat) :
    ∀ t ∈ ds.typeNamed name arity, t ∈ ds.types := by
  refine forall_mem_orElse (forall_mem_bind ?_) ?_
  · intro n _ t ht
    exact mem_of_mem_named (mem_of_find?_eq_some ht)
  · intro t ht
    exact mem_of_mem_named (mem_of_head? ht)

/-- So is the type at the end of a path of nested ones. -/
theorem mem_of_nestedAlong {arity : Option Nat} {t : DeclaredType} (ht : t ∈ ds.types)
    (parts : List String) : ∀ r ∈ ds.nestedAlong arity t parts, r ∈ ds.types := by
  induction parts generalizing t with
  | nil => exact forall_mem_some ht
  | cons part parts ih =>
    cases parts with
    | nil => exact mem_of_typeNamed ds _ arity
    | cons next parts =>
      refine forall_mem_bind fun r hr => ?_
      exact ih (mem_of_typeNamed ds _ none r hr)

/-- All types that a lookup finds are declared. -/
def Finds (ds : Declarations) (look : TypeLookup) : Prop :=
  ∀ t ∈ look.found, t ∈ ds.types

/-- A lookup that ends in a declared type, or none. -/
theorem finds_ofOption {x : Option DeclaredType} (hx : ∀ t ∈ x, t ∈ ds.types) :
    ds.Finds (.ofOption x) := by
  intro t ht
  exact hx t (Option.mem_toList.1 ht)

/-- A lookup without a result. -/
theorem finds_nil (ds : Declarations) : ds.Finds (.types []) :=
  nofun

/-- A lookup with one result. -/
theorem finds_singleton {t : DeclaredType} (ht : t ∈ ds.types) : ds.Finds (.types [t]) := by
  intro r hr
  rw [mem_singleton.1 hr]
  exact ht

/-- The first type found is declared. -/
theorem Finds.head? {look : TypeLookup} (hlook : ds.Finds look) :
    ∀ t ∈ look.found.head?, t ∈ ds.types :=
  fun t ht => hlook t (mem_of_head? ht)

/-- A dotted name is found where simple names are. -/
theorem finds_qualifiedFrom {simple : String → Option Nat → TypeLookup}
    (hsimple : ∀ name arity, ds.Finds (simple name arity)) (levels : List ImportLevel)
    (parts : List String) (arity : Option Nat) :
    ds.Finds (ds.qualifiedFrom levels simple parts arity) := by
  unfold qualifiedFrom
  split
  · exact finds_nil ds
  · exact hsimple _ arity
  · refine finds_ofOption (forall_mem_orElse ?_ (forall_mem_orElse ?_ ?_))
    · exact forall_mem_findSome? fun level _ => mem_of_typeNamed ds _ arity
    · refine forall_mem_findSome? fun level _ => forall_mem_findSome? fun u _ => ?_
      split
      · exact mem_of_typeNamed ds _ arity
      · exact nofun
    · refine forall_mem_bind fun t ht => ?_
      exact mem_of_nestedAlong ((hsimple _ none).head? t ht) _

/-- A simple name, looked up by itself. -/
theorem finds_simpleAtRoot (ds : Declarations) (name : String) (arity : Option Nat) :
    ds.Finds (ds.simpleAtRoot name arity) :=
  finds_ofOption (mem_of_typeNamed ds name arity)

/-- The types of imported namespaces are declared. -/
theorem mem_of_importedTypes {level : ImportLevel} {name : String} {arity : Option Nat}
    {t : DeclaredType} (ht : t ∈ ds.importedTypes level name arity) : t ∈ ds.types := by
  obtain ⟨u, -, hu⟩ := mem_filterMap.1 (Text.mem_of_mem_distinctBy ht)
  exact mem_of_typeNamed ds _ arity t hu

/-- A simple name, looked up from the inner level to the outer. -/
theorem finds_simpleFrom (ds : Declarations) (levels : List ImportLevel) :
    ∀ (name : String) (arity : Option Nat), ds.Finds (ds.simpleFrom levels name arity) := by
  induction levels with
  | nil => exact fun _ _ => finds_nil ds
  | cons level outer ih =>
    intro name arity
    unfold simpleFrom
    simp only
    split
    · next t hfound =>
      refine finds_singleton (forall_mem_orElse ?_ ?_ t hfound)
      · exact mem_of_typeNamed ds _ arity
      · -- the target of an alias
        refine forall_mem_findSome? fun u _ => ?_
        split
        · refine Finds.head? ?_
          split
          · exact finds_qualifiedFrom (finds_simpleAtRoot ds) _ _ _
          · exact finds_qualifiedFrom ih _ _ _
        · exact nofun
    · split
      · exact ih name arity
      · exact fun t ht => mem_of_importedTypes ht

/-- A simple name, looked up in the types around it. -/
theorem finds_simpleWithin (name : String) (arity : Option Nat) (chain : List DeclaredType) :
    ∀ look ∈ ds.simpleWithin name arity chain, ds.Finds look := by
  induction chain with
  | nil => exact nofun
  | cons t outer ih =>
    intro look hlook
    unfold simpleWithin at hlook
    split at hlook
    · cases hlook
      exact finds_nil ds
    · split at hlook
      · next found hfound =>
        cases hlook
        exact finds_singleton (mem_of_typeNamed ds _ arity found hfound)
      · exact ih look hlook

/-- What any simple name stands for is declared. -/
theorem finds_lookupSimple (ds : Declarations) (typeParams : List String)
    (chain : List DeclaredType) (levels : List ImportLevel) (name : String) (arity : Option Nat) :
    ds.Finds (ds.lookupSimple typeParams chain levels name arity) := by
  unfold lookupSimple
  split
  · exact finds_nil ds
  · cases hwithin : ds.simpleWithin name arity chain with
    | none => exact finds_simpleFrom ds levels name arity
    | some look => exact finds_simpleWithin name arity chain look hwithin

/-- What any dotted name stands for is declared. -/
theorem finds_lookupQualified (ds : Declarations) (typeParams : List String)
    (chain : List DeclaredType) (levels : List ImportLevel) (parts : List String)
    (arity : Option Nat) :
    ds.Finds (ds.lookupQualified typeParams chain levels parts arity) :=
  finds_qualifiedFrom (finds_lookupSimple ds typeParams chain levels) levels parts arity

/-- The types of static imports are declared. -/
theorem mem_of_staticImports {levels : List ImportLevel} {t : DeclaredType}
    (ht : t ∈ ds.staticImports levels) : t ∈ ds.types := by
  induction levels with
  | nil => cases ht
  | cons level outer ih =>
    rcases mem_append.1 ht with ht | ht
    · obtain ⟨u, -, hu⟩ := mem_filterMap.1 ht
      exact (finds_lookupQualified ds _ _ _ _ _).head? t hu
    · exact ih ht

end Declarations

-- ===== bound types

/-- The declarations that a bound type and its arguments stand for are declared. -/
inductive BoundType.Known (ds : Declarations) : BoundType → Prop where
  | mk {t : BoundType} (source : ∀ s ∈ t.source, s ∈ ds.types)
      (args : ∀ a ∈ t.args, BoundType.Known ds a) : BoundType.Known ds t

namespace BoundType

variable {ds : Declarations} {t : BoundType}

theorem Known.source (h : t.Known ds) : ∀ s ∈ t.source, s ∈ ds.types := by
  cases h with
  | mk source _ => exact source

theorem Known.args (h : t.Known ds) : ∀ a ∈ t.args, a.Known ds := by
  cases h with
  | mk _ args => exact args

/-- A platform type is known by its arguments. -/
theorem known_platform {name : String} {args : List BoundType} (hargs : ∀ a ∈ args, a.Known ds) :
    (platform name args).Known ds :=
  .mk nofun hargs

/-- A type parameter has no declaration. -/
theorem known_param (name : String) : (param name).Known ds :=
  .mk nofun nofun

theorem known_simple (name : String) : (platform name).Known ds :=
  known_platform nofun

/-- A platform type of one argument. -/
theorem known_unary {name : String} {a : BoundType} (ha : a.Known ds) :
    (platform name [a]).Known ds := by
  refine known_platform fun b hb => ?_
  rw [mem_singleton.1 hb]
  exact ha

/-- A declared type, with its own parameters. -/
theorem known_ofSelf {s : DeclaredType} (hs : s ∈ ds.types) : (ofSelf s).Known ds := by
  constructor
  · intro _ h
    cases h
    exact hs
  · intro a ha
    obtain ⟨name, -, rfl⟩ := mem_map.1 ha
    exact known_param name

/-- Arrays and nullables of a known type are known. -/
theorem Known.reshape (h : t.Known ds) (rank : Nat) (nullable : Bool) :
    ({ t with rank, nullable } : BoundType).Known ds :=
  .mk h.source h.args

theorem Known.withRank (h : t.Known ds) (rank : Nat) : (t.withRank rank).Known ds :=
  h.reshape rank false

/-- The element of a known type is known. -/
theorem Known.element (h : t.Known ds) : ∀ e ∈ t.element, e.Known ds := by
  intro e he
  unfold BoundType.element at he
  split at he
  · cases he
    exact h.withRank _
  split at he
  · cases he
  split at he
  · cases he
    exact known_simple _
  split at he
  · next a hargs =>
    split at he
    · cases he
      exact h.args _ (hargs ▸ mem_singleton_self _)
    · cases he
  · split at he
    · cases he
      exact known_platform h.args
    · cases he
  · cases he

-- ----- parameters

/-- What a parameter is replaced by is known. -/
theorem known_argument? {params : List String} {given : List BoundType}
    (hgiven : ∀ a ∈ given, a.Known ds) (name : String) (rank : Nat) :
    ∀ a ∈ argument? params given name rank, a.Known ds := by
  intro a ha
  obtain ⟨arg, harg, ha⟩ := Option.bind_eq_some_iff.1 ha
  have hknown := hgiven arg (mem_of_getElem? harg)
  cases ha
  split
  · exact hknown
  · exact hknown.withRank _

theorem replaceParams_eq (params : List String) (given : List BoundType) (t : BoundType) :
    t.replaceParams params given
      = if t.isTypeParam && params.contains t.name then
          (argument? params given t.name t.rank).getD t
        else { t with args := replaceParamsAll params given t.args } := by
  cases t
  rfl

theorem replaceParamsAll_eq_map (params : List String) (given : List BoundType)
    (ts : List BoundType) :
    replaceParamsAll params given ts = ts.map (replaceParams params given) := by
  induction ts with
  | nil => rfl
  | cons t ts ih => exact congrArg (_ :: ·) ih

/-- Replacing parameters by known types gives a known type. -/
theorem Known.replaceParams (h : t.Known ds) (params : List String) {given : List BoundType}
    (hgiven : ∀ a ∈ given, a.Known ds) : (t.replaceParams params given).Known ds := by
  induction h with
  | @mk t source args ih =>
    rw [replaceParams_eq]
    split
    · cases hfound : argument? params given t.name t.rank with
      | none => exact .mk source args
      | some a => exact known_argument? hgiven _ _ a hfound
    · refine .mk source fun a ha => ?_
      obtain ⟨b, hb, rfl⟩ := mem_map.1 (replaceParamsAll_eq_map params given t.args ▸ ha)
      exact ih b hb

/-- So does the view of a type through a receiver. -/
theorem Known.seenThrough (h : t.Known ds) (declared : DeclaredType) {receiver : Option BoundType}
    (hreceiver : ∀ r ∈ receiver, r.Known ds) : (t.seenThrough declared receiver).Known ds := by
  cases receiver with
  | none => exact h
  | some r =>
    simp only [BoundType.seenThrough]
    split
    · exact h.replaceParams _ (hreceiver r rfl).args
    · exact h

-- ----- platform

/-- The elements of a known tuple are known. -/
theorem Known.tupleElement (h : t.Known ds) {digits : String} {r : Option BoundType}
    (hr : t.tupleElement digits = .ok r) : ∀ e ∈ r, e.Known ds := by
  unfold BoundType.tupleElement at hr
  simp only at hr
  split at hr
  · cases hr
  split at hr
  · cases hr
  · cases hr
    exact nofun
  · cases hr
    exact fun e he => h.args e (mem_of_getElem? he)

/-- So are those it has a name for. -/
theorem Known.tupleMember (h : t.Known ds) {simple name : String} {r : Option BoundType}
    (hr : platformMember.tupleMember t simple name = .ok r) : ∀ e ∈ r, e.Known ds := by
  unfold platformMember.tupleMember at hr
  split at hr
  · split at hr
    · exact h.tupleElement hr
    · cases hr
      exact nofun
  · cases hr
    exact nofun

/-- The members of platform types have known types. -/
theorem Known.platformMember (h : t.Known ds) {name : String} {r : Option BoundType}
    (hr : t.platformMember name = .ok r) : ∀ e ∈ r, e.Known ds := by
  have hint : ∀ e ∈ some (platform "int"), e.Known ds := forall_mem_some (known_simple _)
  unfold BoundType.platformMember at hr
  simp only at hr
  split at hr
  · cases hr
    split
    · exact hint
    · exact nofun
  split at hr
  · cases hr
    exact hint
  split at hr
  · cases hr
    exact hint
  split at hr
  · next key value hargs =>
    have hkey : key.Known ds := h.args key (by rw [hargs]; exact mem_cons_self)
    have hvalue : value.Known ds :=
      h.args value (by rw [hargs]; exact mem_cons_of_mem _ (mem_singleton_self _))
    split at hr
    · cases hr
      exact forall_mem_some hkey
    split at hr
    · cases hr
      exact forall_mem_some hvalue
    split at hr
    · cases hr
      exact forall_mem_some (known_unary hkey)
    split at hr
    · cases hr
      exact forall_mem_some (known_unary hvalue)
    · exact h.tupleMember hr
  · exact h.tupleMember hr

/-- So have the calls on collections. -/
theorem Known.collectionCall (h : t.Known ds) (name : String) (hasArgs : Bool) :
    ∀ r ∈ t.collectionCall name hasArgs, r.Known ds := by
  intro r hr
  unfold BoundType.collectionCall at hr
  split at hr
  · cases hr
    exact h
  split at hr
  · cases hr
    exact known_unary h
  split at hr
  · cases hr
    exact known_unary h
  split at hr
  · cases hr
    exact known_unary h
  split at hr
  · cases hr
    exact h.withRank _
  · cases hr

end BoundType

-- ===== written types

mutual

/-- What holds of a written type if it holds of its arguments holds of all. -/
theorem TypeRef.inductionArgs {motive : TypeRef → Prop}
    (step : ∀ ref : TypeRef, (∀ a ∈ ref.args, motive a) → motive ref) :
    (ref : TypeRef) → motive ref
  | { args, .. } => step _ (TypeRef.inductionArgsAll step args)
termination_by structural ref => ref

theorem TypeRef.inductionArgsAll {motive : TypeRef → Prop}
    (step : ∀ ref : TypeRef, (∀ a ∈ ref.args, motive a) → motive ref) :
    (refs : List TypeRef) → ∀ ref ∈ refs, motive ref
  | [], _, href => nomatch href
  | first :: more, ref, href => by
    rcases mem_cons.1 href with hfirst | hmore
    · exact hfirst ▸ TypeRef.inductionArgs step first
    · exact TypeRef.inductionArgsAll step more ref hmore
termination_by structural refs => refs

end

namespace Declarations

variable {ds : Declarations}

/-- Written types are bound one by one. -/
theorem boundTypes_eq_map (ds : Declarations) (t : Option DeclaredType) (typeParams : List String)
    (refs : List TypeRef) :
    ds.boundTypes t typeParams refs = refs.map (ds.boundType t typeParams) := by
  induction refs with
  | nil => rfl
  | cons ref refs ih => exact congrArg (_ :: ·) ih

/-- A written type is bound to a known one. -/
theorem known_boundType (ds : Declarations) (t : Option DeclaredType) (typeParams : List String)
    (ref : TypeRef) : (ds.boundType t typeParams ref).Known ds := by
  induction ref using TypeRef.inductionArgs with
  | step ref ih =>
    have hargs : ∀ a ∈ ds.boundTypes t typeParams ref.args, a.Known ds := by
      intro a ha
      rw [boundTypes_eq_map] at ha
      obtain ⟨arg, harg, rfl⟩ := mem_map.1 ha
      exact ih arg harg
    cases ref with
    | mk name args qualifier rank nullable tuple span =>
      unfold boundType
      refine BoundType.Known.reshape ?_ rank nullable
      split
      · exact BoundType.known_platform hargs
      split
      · exact BoundType.known_simple name
      have hfinds := finds_lookupQualified ds typeParams
        (((if qualifier.isNone then t else none).map (·.chain)).getD [])
        (((if qualifier.isNone then t else none).map (·.levels)).getD rootLevels)
        (TypeRef.mk name args qualifier rank nullable tuple span).parts (some args.length)
      simp only
      split
      · exact BoundType.known_param name
      · next found _ hfound =>
        exact .mk (forall_mem_some (hfinds found (by rw [hfound]; exact mem_cons_self))) hargs
      · exact BoundType.known_platform hargs

/-- Each of the bound types is known. -/
theorem known_boundTypes (ds : Declarations) (t : Option DeclaredType) (typeParams : List String)
    (refs : List TypeRef) : ∀ a ∈ ds.boundTypes t typeParams refs, a.Known ds := by
  intro a ha
  rw [boundTypes_eq_map] at ha
  obtain ⟨ref, -, rfl⟩ := mem_map.1 ha
  exact known_boundType ds t typeParams ref

/-- The bases of a type are known. -/
theorem known_writtenBases {name : String} {b : BoundType} (hb : b ∈ ds.writtenBases name) :
    b.Known ds := by
  obtain ⟨part, -, hb⟩ := mem_flatMap.1 hb
  obtain ⟨ref, -, rfl⟩ := mem_map.1 hb
  exact known_boundType ds _ _ ref

/-- What is iterated over has a known element. -/
theorem known_elementOf {t : BoundType} (ht : t.Known ds) : ∀ e ∈ ds.elementOf t, e.Known ds := by
  unfold elementOf
  split
  · next e helement => exact forall_mem_some (ht.element e helement)
  · exact nofun
  · refine forall_mem_findSome? fun b hb => ?_
    exact (known_writtenBases (mem_filter.1 hb).1).element

end Declarations

end SourceBundle
