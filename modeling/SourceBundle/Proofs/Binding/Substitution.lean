/-
Generic types seen through a receiver. Where a declared type is applied
to arguments, its parameters are gone from what its members are declared
with, at every depth: each is replaced by its argument, and all else
stays as it stands (`seenThrough_replaces`).
-/
import SourceBundle.Proofs.Binding.Lookup

namespace SourceBundle

open List

namespace BoundType

variable {params : List String} {given : List BoundType} {t u : BoundType} {path : List Nat}

/-- The part of a type that a path of argument places leads to. -/
def part? : BoundType → List Nat → Option BoundType
  | t, [] => some t
  | t, i :: path => t.args[i]?.bind (part? · path)

/-- A type parameter of one of the names. -/
def IsParam (params : List String) (t : BoundType) : Prop :=
  t.isTypeParam = true ∧ t.name ∈ params

/-- No part of the type is a type parameter of one of the names. -/
def Free (params : List String) (t : BoundType) : Prop :=
  ∀ path, ∀ u ∈ t.part? path, ¬u.IsParam params

/-- The part does not lie within a type parameter of one of the names. -/
def Outermost (params : List String) (t : BoundType) (path : List Nat) : Prop :=
  ∀ front, front <+: path → front ≠ path → ∀ u ∈ t.part? front, ¬u.IsParam params

/-- An argument in the place of a type parameter with some array suffixes. Behind a suffix it is no
longer nullable. -/
def suffixed (t : BoundType) (rank : Nat) : BoundType :=
  { t with rank := t.rank + rank, nullable := t.nullable && rank = 0 }

-- ===== one step

theorem replaceParams_of_not_isParam (h : ¬t.IsParam params) :
    t.replaceParams params given = { t with args := t.args.map (replaceParams params given) } := by
  rw [replaceParams_eq, replaceParamsAll_eq_map, if_neg]
  simpa [IsParam] using h

theorem replaceParams_of_isParam (h : t.IsParam params) (hgiven : params.length ≤ given.length) :
    ∃ a, given[params.idxOf t.name]? = some a
      ∧ t.replaceParams params given = a.suffixed t.rank := by
  have hplace : params.idxOf t.name < given.length :=
    Nat.lt_of_lt_of_le (idxOf_lt_length_of_mem h.2) hgiven
  have ha := getElem?_eq_getElem hplace
  refine ⟨_, ha, ?_⟩
  rw [replaceParams_eq, if_pos (by simpa [IsParam] using h), argument?, ha]
  generalize given[params.idxOf t.name] = a
  cases a
  by_cases hrank : t.rank = 0 <;> simp [suffixed, withRank, hrank]

-- ===== what is gone

theorem Free.args (h : t.Free params) {a : BoundType} (ha : a ∈ t.args) : a.Free params := by
  intro path u hu
  obtain ⟨i, hi⟩ := mem_iff_getElem?.1 ha
  exact h (i :: path) u (Option.bind_eq_some_iff.2 ⟨a, hi, hu⟩)

theorem Free.intro (h : ¬t.IsParam params) (hargs : ∀ a ∈ t.args, a.Free params) : t.Free params
  | [], _, rfl => h
  | _ :: path, u, hu =>
    have ⟨a, ha, hu⟩ := Option.bind_eq_some_iff.1 hu
    hargs a (mem_of_getElem? ha) path u hu

theorem Free.suffixed (h : t.Free params) (rank : Nat) : (t.suffixed rank).Free params :=
  .intro (h [] t rfl) fun _ => h.args

theorem free_replaceParams (hgiven : params.length ≤ given.length)
    (hfree : ∀ a ∈ given, a.Free params) (t : BoundType) :
    (t.replaceParams params given).Free params := by
  intro path
  induction path generalizing t with
  | nil =>
    rintro u ⟨⟩
    by_cases hparam : t.IsParam params
    · obtain ⟨a, ha, heq⟩ := replaceParams_of_isParam hparam hgiven
      exact heq ▸ (hfree a (mem_of_getElem? ha)).suffixed t.rank [] _ rfl
    · rw [replaceParams_of_not_isParam hparam]
      exact hparam
  | cons i path ih =>
    intro u hu
    by_cases hparam : t.IsParam params
    · obtain ⟨a, ha, heq⟩ := replaceParams_of_isParam hparam hgiven
      exact (hfree a (mem_of_getElem? ha)).suffixed t.rank (i :: path) u (heq ▸ hu)
    · rw [replaceParams_of_not_isParam hparam] at hu
      obtain ⟨b, hb, hu⟩ := Option.bind_eq_some_iff.1 hu
      obtain ⟨a, -, rfl⟩ := Option.map_eq_some_iff.1 (getElem?_map .. ▸ hb)
      exact ih a u hu

-- ===== what stays

theorem part?_replaceParams (h : t.part? path = some u) (hout : t.Outermost params path) :
    (t.replaceParams params given).part? path = some (u.replaceParams params given) := by
  induction path generalizing t with
  | nil => exact congrArg (some <| replaceParams params given ·) (Option.some.inj h)
  | cons i path ih =>
    obtain ⟨a, ha, h⟩ := Option.bind_eq_some_iff.1 h
    have hparam : ¬t.IsParam params := hout [] nil_prefix nofun t rfl
    rw [replaceParams_of_not_isParam hparam, part?, getElem?_map, ha]
    refine ih h fun front hfront hne v hv => hout (i :: front) ?_ ?_ v ?_
    · exact cons_prefix_cons.2 ⟨rfl, hfront⟩
    · exact fun heq => hne (cons.inj heq).2
    · exact Option.bind_eq_some_iff.2 ⟨a, ha, hv⟩

mutual

/-- A type without the parameters stays as it is. -/
theorem replaceParams_of_free : ∀ t : BoundType, t.Free params → t.replaceParams params given = t
  | ⟨name, source, args, rank, isTypeParam, nullable⟩, h => by
    rw [replaceParams_of_not_isParam (h [] _ rfl)]
    exact congrArg (BoundType.mk name source · rank isTypeParam nullable)
      (map_replaceParams_of_free args fun a => h.args)

theorem map_replaceParams_of_free : ∀ ts : List BoundType, (∀ t ∈ ts, t.Free params) →
    ts.map (replaceParams params given) = ts
  | [], _ => rfl
  | t :: ts, h => congrArg₂ _ (replaceParams_of_free t (h t mem_cons_self))
    (map_replaceParams_of_free ts fun u hu => h u (mem_cons_of_mem t hu))

end

/-- Without parameters or with arguments for them, a receiver of the type shows its arguments. -/
theorem seenThrough_eq {declared : DeclaredType} {r : BoundType}
    (hsource : r.source.map (·.qualifiedName) = some declared.qualifiedName)
    (hargs : declared.decl.typeParams.length ≤ r.args.length) (t : BoundType) :
    t.seenThrough declared (some r) = t.replaceParams declared.decl.typeParams r.args := by
  cases hempty : r.args with
  | cons a args => simp [seenThrough, hempty, hsource]
  | nil =>
    have hnone : declared.decl.typeParams = [] := by
      rw [hempty] at hargs
      exact eq_nil_of_length_eq_zero (Nat.le_zero.1 hargs)
    have hfree : t.Free declared.decl.typeParams :=
      fun _ u _ hparam => absurd hparam.2 (hnone ▸ not_mem_nil)
    rw [replaceParams_of_free t hfree]
    simp [seenThrough, hempty]

/-- Seen through a receiver with enough arguments, a type has none of the parameters of the declared
type at any depth. Each is replaced by the argument at its place, with its own array suffixes added,
and every other part keeps all but its arguments. Seen through the receiver again it is the same. -/
theorem seenThrough_replaces (declared : DeclaredType) (r t : BoundType)
    (hsource : r.source.map (·.qualifiedName) = some declared.qualifiedName)
    (hargs : declared.decl.typeParams.length ≤ r.args.length)
    (hfree : ∀ a ∈ r.args, a.Free declared.decl.typeParams) :
    (t.seenThrough declared (some r)).Free declared.decl.typeParams
      ∧ (∀ path u, t.part? path = some u → t.Outermost declared.decl.typeParams path →
        if u.isTypeParam = true ∧ u.name ∈ declared.decl.typeParams then
          ∃ a, r.args[declared.decl.typeParams.idxOf u.name]? = some a
            ∧ (t.seenThrough declared (some r)).part? path = some (a.suffixed u.rank)
        else ∃ args, args.length = u.args.length
          ∧ (t.seenThrough declared (some r)).part? path = some { u with args })
      ∧ (t.seenThrough declared (some r)).seenThrough declared (some r)
        = t.seenThrough declared (some r) := by
  simp only [seenThrough_eq hsource hargs]
  have hgone := free_replaceParams hargs hfree t
  refine ⟨hgone, fun path u hu hout => ?_, replaceParams_of_free _ hgone⟩
  rw [part?_replaceParams hu hout]
  split
  next hparam =>
    obtain ⟨a, ha, heq⟩ := replaceParams_of_isParam hparam hargs
    exact ⟨a, ha, congrArg some heq⟩
  next hparam =>
    rw [replaceParams_of_not_isParam hparam]
    exact ⟨_, length_map _, rfl⟩

/-- A declared type with one parameter. -/
def crate : DeclaredType where
  number := 0
  decl := { keyword := .classType, name := "Crate", typeParams := ["T"], span := default
            dotless := by decide }
  qualifiedName := "Crate"
  space := ""
  outer := []
  levels := []
  project := ""
  file := ""

theorem seenThrough_replaces_crate :
    let r : BoundType := { ofSelf crate with args := [platform "List" [platform "int"]] }
    let t := platform "Dictionary" [{ param "T" with rank := 1 }, platform "Set" [param "T"]]
    (t.seenThrough crate (some r)).text = "Dictionary<List<int>[], Set<List<int>>>"
      ∧ (t.seenThrough crate (some r)).Free ["T"] := by
  intro r t
  have hint : (platform "int").Free ["T"] := .intro (by simp [IsParam, platform]) nofun
  have hlist : (platform "List" [platform "int"]).Free ["T"] :=
    .intro (by simp [IsParam, platform]) (forall_mem_singleton.2 hint)
  exact ⟨by decide, (seenThrough_replaces crate r t rfl (by decide)
    (forall_mem_singleton.2 hlist)).1⟩

end BoundType

end SourceBundle
