/-
Enums refer to nothing, so a walk collects nothing from a unit that is
an enum. That loses no reference if the unit is nothing but enums.

The first entry of a name says whether its unit is an enum, and only
entries that may stand beside all listed ones of their name are listed.
But what may stand side by side is a matter of type parameters and of
parts, not of sorts. So the units are of one sort each exactly if no two
listed entries of one name differ in it (`Unmixed`), and then a walk
collects from each unit that has a body. Where an enum and a generic
class share a name, the class is passed over with the enum, and what
its body refers to is lost (`mixed_bundleOf`).
-/
import Mathlib.Data.List.Pairwise
import SourceBundle.Proofs.Binding.Listed
import SourceBundle.Proofs.Bundle.Workspaces

namespace SourceBundle

open List

-- ===== sorts

/-- Two entries of one name that may stand side by side, although only one of them is an enum. -/
def UnitEntry.Mixes (e e' : UnitEntry) : Prop :=
  e.name = e'.name ∧ e.decl.isEnum ≠ e'.decl.isEnum ∧ e.Joins e'

theorem UnitEntry.Joins.symm {e e' : UnitEntry} (h : e.Joins e') : e'.Joins e := by
  rcases h with harity | ⟨hpart, hpart', hproject⟩
  · exact .inl harity.symm
  · exact .inr ⟨hpart', hpart, hproject.symm⟩

theorem Declarations.unitOf_isEnum (order : Nat) (first : DeclaredType)
    (parts : List DeclaredType) : (unitOf order first parts).isEnum = first.decl.isEnum := by
  cases henum : first.decl.isEnum <;> simp [TypeUnit.isEnum, unitOf, henum]

namespace Workspace

/-- The entries that are listed. -/
def listedEntries (w : Workspace) : List UnitEntry :=
  (w.index.types.filter (·.isTopLevel)).map (·.entry)

/-- No two listed entries of one name are of different sorts. -/
def Unmixed (w : Workspace) : Prop :=
  ∀ e ∈ w.listedEntries, ∀ e' ∈ w.listedEntries, ¬e.Mixes e'

variable (w : Workspace)

theorem listedEntries_sublist : w.listedEntries.Sublist w.entries := by
  obtain ⟨vs, hentries, h⟩ := w.exists_accounts
  rw [listedEntries, ← hentries]
  show ((w.declarations.types.filter (·.isTopLevel)).map (·.entry)).Sublist _
  rw [h.tops_eq]
  exact filter_sublist.map _

/-- The parts of a unit are the listed entries of its name. -/
theorem index_parts_eq {u : TypeUnit} (hu : u ∈ w.index.units) :
    u.parts = (w.listedEntries.filter (·.name = u.qualifiedName)).map (·.part) := by
  obtain ⟨vs, -, h⟩ := w.exists_accounts
  refine (h.parts_eq w.declarations_wellPlaced hu).trans ?_
  rw [← h.tops_eq]
  rfl

/-- A listed entry says whether a unit is an enum. -/
theorem index_isEnum {u : TypeUnit} (hu : u ∈ w.index.units) :
    ∃ e ∈ w.listedEntries, e.name = u.qualifiedName ∧ u.isEnum = e.decl.isEnum := by
  have hplaced := w.declarations_wellPlaced
  obtain ⟨i, hi⟩ := getElem?_of_mem hu
  obtain ⟨head, hhead, rfl⟩ :=
    Option.map_eq_some_iff.1 ((w.declarations.units_getElem? i).symm.trans hi)
  obtain ⟨hmem, htop⟩ := Declarations.mem_of_mem_unitHeads (mem_of_getElem? hhead)
  refine ⟨head.entry, mem_map_of_mem (mem_filter.2 ⟨hmem, htop⟩), ?_,
    Declarations.unitOf_isEnum _ _ _⟩
  rw [Declarations.unitOf_qualifiedName hplaced hmem htop]
  exact Declarations.name_entry hplaced hmem htop

/-- Each listed entry is a part of some unit. -/
theorem exists_unit_of_listed {e : UnitEntry} (he : e ∈ w.listedEntries) :
    ∃ u ∈ w.index.units, u.qualifiedName = e.name := by
  obtain ⟨t, ht, rfl⟩ := mem_map.1 he
  obtain ⟨hmem, htop⟩ := mem_filter.1 ht
  obtain ⟨u, hu, hname, -⟩ :=
    Declarations.exists_unit w.declarations_wellPlaced hmem (List.isEmpty_iff.1 htop)
  exact ⟨u, hu, hname.trans (Declarations.name_entry w.declarations_wellPlaced hmem htop).symm⟩

theorem mem_index_parts_iff {u : TypeUnit} (hu : u ∈ w.index.units) {part : UnitPart} :
    part ∈ u.parts ↔ ∃ e ∈ w.listedEntries, e.name = u.qualifiedName ∧ e.part = part := by
  rw [w.index_parts_eq hu, mem_map]
  simp only [mem_filter, decide_eq_true_eq, and_assoc]

/-- Different listed entries of one name may stand side by side. -/
theorem joins_of_listed {e e' : UnitEntry} (he : e ∈ w.listedEntries) (he' : e' ∈ w.listedEntries)
    (hname : e.name = e'.name) (hne : e ≠ e') : e.Joins e' := by
  obtain ⟨vs, -, h⟩ := w.exists_accounts
  have hpairs : w.listedEntries.Pairwise fun e e' => e.name = e'.name → e.Joins e' := by
    have hlisted : w.listedEntries = listed vs := h.tops_eq
    rw [hlisted]
    exact h.pairwise_joins w.declarations_wellPlaced
  have hsymm : Std.Symm fun e e' : UnitEntry => e.name = e'.name → e.Joins e' :=
    ⟨fun _ _ hjoins hsame => (hjoins hsame.symm).symm⟩
  exact hpairs.forall he he' hne hname

/-- The units are of one sort each exactly if no listed entries mix. -/
theorem parts_isEnum_iff_unmixed :
    (∀ u ∈ w.index.units, ∀ part ∈ u.parts, part.decl.isEnum = u.isEnum) ↔ w.Unmixed := by
  constructor
  · rintro hpure e he e' he' ⟨hname, hsort, -⟩
    obtain ⟨u, hu, hunit⟩ := w.exists_unit_of_listed he
    have hpart := hpure u hu _ ((w.mem_index_parts_iff hu).2 ⟨e, he, hunit.symm, rfl⟩)
    have hpart' := hpure u hu _
      ((w.mem_index_parts_iff hu).2 ⟨e', he', hname.symm.trans hunit.symm, rfl⟩)
    exact hsort (hpart.trans hpart'.symm)
  · intro hunmixed u hu part hpart
    obtain ⟨e, he, hname, rfl⟩ := (w.mem_index_parts_iff hu).1 hpart
    obtain ⟨first, hfirst, hfirstName, henum⟩ := w.index_isEnum hu
    rw [henum]
    by_contra hsort
    have hne : e ≠ first := fun hsame => hsort (hsame ▸ rfl)
    have hsame : e.name = first.name := hname.trans hfirstName.symm
    exact hunmixed e he first hfirst ⟨hsame, hsort, w.joins_of_listed he hfirst hsame hne⟩

-- ===== walks

variable {w} {root : String} {b : Bundle}

/-- What is bundled are units of the workspace. -/
theorem mem_index_units_of_explained {c : Context} {st : BindState} {u : TypeUnit}
    (hroot : locateRoot w.service root = .ok b.root) (hex : b.Explained w.service c st)
    (hu : u ∈ b.units) : u ∈ w.index.units := by
  refine w.mem_units_of_hasUnit (m := Id) ?_
  rcases Relation.ReflTransGen.cases_tail ((hex.mem_units_iff u).1 hu) with rfl | ⟨v, -, hleads⟩
  · exact .inl ⟨_, _, (locateRoot_eq_ok hroot).1⟩
  · obtain ⟨-, found, -, hfollows⟩ := hleads
    exact hfollows.hasUnit

theorem mem_index_units_of_bundleOf (hbundle : w.bundleOf root = .ok (.ok b)) {u : TypeUnit}
    (hu : u ∈ b.units) : u ∈ w.index.units := by
  obtain ⟨hroot, hex⟩ := bundleOf_explained hbundle
  exact mem_index_units_of_explained hroot hex hu

/-- A unit of a bundle with a part that is no enum is collected from, if no listed entries mix. -/
theorem Unmixed.collected (hunmixed : w.Unmixed) (hbundle : w.bundleOf root = .ok (.ok b))
    {u : TypeUnit} (hu : u ∈ b.units) {part : UnitPart} (hpart : part ∈ u.parts)
    (hsort : part.decl.isEnum = false) :
    ∃ found, (w.account b).lookup u.qualifiedName = some found := by
  have hpure := w.parts_isEnum_iff_unmixed.2 hunmixed u (mem_index_units_of_bundleOf hbundle hu)
  exact (bundleOf_explained hbundle).2.collected u hu ((hpure part hpart).symm.trans hsort)

/-- The units are of one sort each exactly if no listed entries mix, which is so if no entries do;
and then no bundle passes over the body of a unit. -/
theorem enumUnits_unmixed (w : Workspace) :
    ((∀ u ∈ w.index.units, ∀ part ∈ u.parts, part.decl.isEnum = u.isEnum) ↔ w.Unmixed)
      ∧ (w.Unmixed → ∀ root b, w.bundleOf root = .ok (.ok b) → ∀ u ∈ b.units, ∀ part ∈ u.parts,
          part.decl.isEnum = false → ∃ found, (w.account b).lookup u.qualifiedName = some found)
      ∧ ((∀ e ∈ w.entries, ∀ e' ∈ w.entries, ¬e.Mixes e') → w.Unmixed) := by
  refine ⟨w.parts_isEnum_iff_unmixed, ?_, ?_⟩
  · intro hunmixed root b hbundle u hu part hpart hsort
    exact hunmixed.collected hbundle hu hpart hsort
  · intro hentries e he e' he'
    have hsubset := w.listedEntries_sublist.subset
    exact hentries e (hsubset he) e' (hsubset he')

/-- An enum and a generic class of one name; the body of the class refers to another namespace. -/
def mixedSources : List (String × String) :=
  [("A.cs", "namespace A \x7b class R \x7b static int Solve() => E<int>.F(); \x7d "
      ++ "enum E \x7b X \x7d class E<T> \x7b static int F() => B.G.H(); \x7d \x7d"),
   ("B.cs", "namespace B \x7b class G \x7b static int H() => 1; \x7d \x7d")]

def mixed : Workspace :=
  Id.run (ofSources {} mixedSources)

theorem mixed_bundles :
    mixed.bundles "A.R" (fun b => b.diagnostics.isEmpty && b.names == ["A.R", "A.E"]
      && b.units.any fun u => u.isEnum && u.parts.any fun part => !part.decl.isEnum) = true := by
  rewrite [mixed, ofSources_of_sorted {} (by decide +kernel)]
  decide +kernel

/-- The class is passed over with the enum, and `B.G` is not in the bundle. -/
theorem mixed_bundleOf :
    ∃ b, mixed.bundleOf "A.R" = .ok (.ok b) ∧ b.diagnostics = [] ∧ b.names = ["A.R", "A.E"]
      ∧ ∃ u ∈ b.units, u.isEnum = true ∧ ∃ part ∈ u.parts, part.decl.isEnum = false := by
  obtain ⟨b, hb, htest⟩ := exists_of_bundles mixed_bundles
  simp only [Bool.and_eq_true, beq_iff_eq, List.isEmpty_iff, any_eq_true,
    Bool.not_eq_true'] at htest
  obtain ⟨⟨hclean, hnames⟩, hmixed⟩ := htest
  exact ⟨b, hb, hclean, hnames, hmixed⟩

end Workspace

end SourceBundle
