/-
Which names lead to a root. A root is named by a namespace and a type in
it, and any class, struct or record of that name will do. But entries of
one name make one unit, and it is the unit that is asked for its keyword:
that of the entry listed first. So a name leads to a root exactly if the
first listed entry of the name can be one, and then to the unit that
holds all entries of the name (`roots_located`). Behind an interface or
an enum of the same name a class is not found (`shadowed_not_located`).
-/
import SourceBundle.Proofs.Closure.EnumUnits

namespace SourceBundle

open List

/-- A name that has something before its last dot is the two parts that it is cut into. -/
theorem Text.dotted_splitLast {name : String} (h : (splitLast name).1.isEmpty = false) :
    dotted (splitLast name).1 (splitLast name).2 = name := by
  rw [dotted, h]
  unfold splitLast at h ⊢
  simp only at h ⊢
  have hparts := takeWhile_append_dropWhile (p := (· ≠ '.')) (l := name.toList.reverse)
  cases hrest : name.toList.reverse.dropWhile (· ≠ '.') with
  | nil =>
    rw [hrest] at h
    cases h
  | cons c cs =>
    have hhead := head?_dropWhile_not (· ≠ '.') name.toList.reverse
    rw [hrest] at hhead hparts
    obtain rfl : c = '.' := by simpa using hhead
    refine String.toList_inj.1 ?_
    simpa using (congrArg List.reverse hparts)

-- ===== entries that can be roots

/-- An entry declares a type that can be a root of this name: a namespace and the type's own name
with a dot between them, neither of them empty. -/
def UnitEntry.Roots (e : UnitEntry) (root : String) : Prop :=
  e.place.space ≠ "" ∧ e.decl.name ≠ "" ∧ root = e.place.space ++ "." ++ e.decl.name
    ∧ e.decl.keyword.canBeRoot = true

theorem UnitEntry.roots_iff {e : UnitEntry} {root : String} : e.Roots root ↔
    e.place.space.isEmpty = false ∧ e.decl.name.isEmpty = false ∧ e.name = root
      ∧ e.decl.keyword.canBeRoot = true := by
  simp only [Roots, ← Bool.not_eq_true, String.isEmpty_iff]
  refine and_congr_right fun hspace => and_congr_right fun _ => and_congr_left fun _ => ?_
  rw [UnitEntry.name, Text.dotted, if_neg (by simpa using hspace), eq_comm]

namespace Workspace

variable {w : Workspace} {root : String} {u : TypeUnit}

/-- The kind of a unit is that of its keyword. -/
theorem index_isEnum_eq (hu : u ∈ w.index.units) : u.isEnum = decide (u.keyword = .enumType) := by
  obtain ⟨i, hi⟩ := getElem?_of_mem hu
  obtain ⟨head, hhead, rfl⟩ :=
    Option.map_eq_some_iff.1 ((w.declarations.units_getElem? i).symm.trans hi)
  have hfind : (w.declarations.types.filter (·.isTopLevel)).find?
      (·.qualifiedName = head.qualifiedName) = some head :=
    Text.find?_of_mem_distinctFrom (mem_of_getElem? hhead)
  rw [← head?_filter] at hfind
  rw [Declarations.unitOf_isEnum, TypeUnit.keyword, Declarations.unitOf, head?_map, hfind]
  rfl

theorem kind_of_canBeRoot (hu : u ∈ w.index.units) (hroot : u.keyword.canBeRoot = true) :
    u.kind = .typeLike := by
  have henum := index_isEnum_eq hu
  cases hkind : u.kind with
  | typeLike => rfl
  | enumLike =>
    rw [TypeUnit.isEnum, hkind] at henum
    rw [of_decide_eq_true henum.symm] at hroot
    cases hroot

/-- A name leads to the unit of the name, if it has two parts and the keyword can be that of a
root. -/
theorem located_iff :
    locateRoot w.service root = .ok u ↔ u ∈ w.index.units ∧ u.qualifiedName = root
      ∧ u.space.isEmpty = false ∧ u.name.isEmpty = false ∧ u.keyword.canBeRoot = true := by
  rw [locateRoot_eq_ok_iff]
  constructor
  · rintro ⟨hspace, hname, hfind, -, hkeyword, -⟩
    have hnamed := w.index_regular.named _ _ _ hfind
    obtain ⟨hfirst, hlast⟩ := Text.dotted_inj u.dotless (Text.dotless_splitLast root) hnamed
    rw [hfirst, hlast]
    exact ⟨Index.mem_units_of_unitNamed hfind, hnamed.trans (Text.dotted_splitLast hspace), hspace,
      hname, hkeyword⟩
  · rintro ⟨hu, rfl, hspace, hname, hkeyword⟩
    have hfind := Index.unitNamed_qualifiedName w.index_nodup_units hu
    rw [TypeUnit.qualifiedName, Text.splitLast_dotted hspace u.dotless]
    exact ⟨hspace, hname, hfind, kind_of_canBeRoot hu hkeyword, hkeyword,
      w.index_regular.housed u (.inl ⟨_, _, hfind⟩)⟩

/-- The keyword of a unit is that of the first listed entry of its name. -/
theorem keyword_eq_of_find? {first : UnitEntry} (hu : u ∈ w.index.units)
    (hfirst : w.listedEntries.find? (·.name = u.qualifiedName) = some first) :
    u.keyword = first.decl.keyword := by
  rw [TypeUnit.keyword, w.index_parts_eq hu, head?_map, head?_filter, hfirst]
  rfl

theorem exists_find?_name {e : UnitEntry} (he : e ∈ w.listedEntries) :
    ∃ first, w.listedEntries.find? (·.name = e.name) = some first :=
  Option.isSome_iff_exists.1 (find?_isSome.2 ⟨e, he, decide_eq_true rfl⟩)

/-- A root that is located is the unit of a listed entry that can be a root of the name. Such an
entry is found exactly if the first listed entry of the name can be a root too, in the unit that
holds it. In all other cases the error says that the name is no qualified one or that nothing of the
name can be a root. -/
theorem roots_located (w : Workspace) (root : String) :
    (∀ u, locateRoot w.service root = .ok u →
        u ∈ w.index.units ∧ ∃ e ∈ w.listedEntries, e.Roots root ∧ e.part ∈ u.parts)
      ∧ (∀ e ∈ w.listedEntries, e.Roots root →
          ((∃ u, locateRoot w.service root = .ok u ∧ e.part ∈ u.parts)
            ↔ ∃ first, w.listedEntries.find? (·.name = root) = some first
              ∧ first.decl.keyword.canBeRoot = true))
      ∧ ∀ error, locateRoot w.service root = .error error →
          error = .rootUnqualified root ∨ error = .rootNotFound root := by
  refine ⟨fun u hu => ?_, fun e he hroots => ?_, fun error herror =>
    w.index_regular.locateRoot_eq_error herror⟩
  · obtain ⟨hmem, rfl, hspace, hname, hkeyword⟩ := located_iff.1 hu
    obtain ⟨e, he, hqualified, -⟩ := w.index_isEnum hmem
    obtain ⟨first, hfirst⟩ := exists_find?_name he
    rw [hqualified] at hfirst
    have hlisted := mem_of_find?_eq_some hfirst
    have hsame : first.name = u.qualifiedName := by simpa using find?_some hfirst
    obtain ⟨hplace, hdecl⟩ := Text.dotted_inj first.decl.dotless u.dotless hsame
    refine ⟨hmem, first, hlisted, UnitEntry.roots_iff.2 ⟨?_, ?_, hsame, ?_⟩,
      (w.mem_index_parts_iff hmem).2 ⟨first, hlisted, hsame, rfl⟩⟩
    · rw [hplace, hspace]
    · rw [hdecl, hname]
    · rw [← keyword_eq_of_find? hmem hfirst, hkeyword]
  · obtain ⟨hspace, hname, rfl, -⟩ := UnitEntry.roots_iff.1 hroots
    obtain ⟨first, hfirst⟩ := exists_find?_name he
    obtain ⟨u, hu, hsame⟩ := w.exists_unit_of_listed he
    obtain ⟨hplace, hdecl⟩ := Text.dotted_inj u.dotless e.decl.dotless hsame
    have hkeyword := keyword_eq_of_find? hu (hsame ▸ hfirst)
    constructor
    · rintro ⟨v, hv, -⟩
      obtain ⟨hmem, hsame', -, -, hroot⟩ := located_iff.1 hv
      refine ⟨first, hfirst, ?_⟩
      rw [← keyword_eq_of_find? hmem (hsame' ▸ hfirst), hroot]
    · rintro ⟨first', hfirst', hroot⟩
      cases hfirst.symm.trans hfirst'
      refine ⟨u, located_iff.2 ⟨hu, hsame, ?_, ?_, ?_⟩,
        (w.mem_index_parts_iff hu).2 ⟨e, he, hsame.symm, rfl⟩⟩
      · rw [hplace, hspace]
      · rw [hdecl, hname]
      · rw [hkeyword, hroot]

/-- An interface and a class of one name, which differ in the number of their type parameters. -/
def shadowed : Workspace :=
  Id.run (ofSources {} [("A.cs", "namespace A \x7b interface R<T> \x7b \x7d class R \x7b "
    ++ "static int Solve() => 1; \x7d \x7d")])

/-- The class is listed, but its name leads to no root. -/
theorem shadowed_not_located :
    (∃ e ∈ shadowed.listedEntries, e.Roots "A.R")
      ∧ locateRoot shadowed.service "A.R" = .error (.rootNotFound "A.R") := by
  have hlisted : (shadowed.listedEntries.any fun e => e.place.space == "A" && e.decl.name == "R"
      && e.decl.keyword.canBeRoot) = true := by
    rewrite [shadowed, ofSources_of_sorted {} (by decide +kernel)]
    decide +kernel
  have hlocated : (((locateRoot shadowed.service "A.R").map fun _ => false).tryCatch
      fun error => .ok (error == .rootNotFound "A.R")).toOption = some true := by
    rewrite [shadowed, ofSources_of_sorted {} (by decide +kernel)]
    decide +kernel
  constructor
  · obtain ⟨e, he, htest⟩ := any_eq_true.1 hlisted
    simp only [Bool.and_eq_true, beq_iff_eq] at htest
    obtain ⟨⟨hspace, hname⟩, hroot⟩ := htest
    exact ⟨e, he, by rw [hspace]; decide, by rw [hname]; decide, by rw [hspace, hname]; decide,
      hroot⟩
  · revert hlocated
    cases locateRoot shadowed.service "A.R" with
    | error error => exact fun h => congrArg Except.error (eq_of_beq (Option.some.inj h))
    | ok u => exact fun h => absurd (Option.some.inj h) Bool.false_ne_true

end Workspace

end SourceBundle
