/-
What the declarations of a workspace name can be written out, if no word
of its documents is reserved: the namespace that a declaration stands in
and the directives it sees. A place of which both hold is legible. Going
into a namespace leads to a legible place again, and declarations made
at legible places are legible, from a single type to a whole workspace
(`Workspace.Legible.declarations`).
-/
import SourceBundle.Proofs.Binding.Listed
import SourceBundle.Proofs.Parse.Reserved

namespace SourceBundle

open List Text

-- ===== places

/-- The namespace has a name that can be written out, if it is not the global one, and so can the
directives around. -/
structure Place.Legible (p : Place) : Prop where
  space : p.space.isEmpty = true ∨ IsSpaceName p.space
  usings : ∀ level ∈ p.levels, ∀ d ∈ level.usings, d.MadeOf IsPlainName

theorem isSpaceName_dotted {outer part : String} (houter : outer.isEmpty = true ∨ IsSpaceName outer)
    (hpart : IsPlainName part) : IsSpaceName (dotted outer part) := by
  have hname : splitAt '.' part = [part] := splitAt_name hpart.1
  unfold dotted IsSpaceName
  split
  · rw [hname]
    exact forall_mem_singleton.2 hpart
  next hne =>
    rw [splitAt_dot, hname]
    exact forall_mem_append.2 ⟨houter.resolve_left hne, forall_mem_singleton.2 hpart⟩

namespace Place.Legible

variable {p : Place}

theorem within (h : p.Legible) {part : String} (hpart : IsPlainName part)
    {usings : List UsingDirective} (husings : ∀ d ∈ usings, d.MadeOf IsPlainName) :
    (p.within part usings).Legible where
  space := .inr (isSpaceName_dotted h.space hpart)
  usings := forall_mem_cons.2 ⟨husings, h.usings⟩

theorem withinAll (h : p.Legible) {parts : List String} (hparts : ∀ x ∈ parts, IsPlainName x)
    {usings : List UsingDirective} (husings : ∀ d ∈ usings, d.MadeOf IsPlainName) :
    (p.withinAll usings parts).Legible := by
  induction parts generalizing p with
  | nil => exact h
  | cons part more ih =>
    obtain ⟨hpart, hmore⟩ := forall_mem_cons.1 hparts
    cases more with
    | nil => exact h.within hpart husings
    | cons next rest => exact ih (h.within hpart nofun) hmore

theorem inside (h : p.Legible) {n : NamespaceDecl} (hn : n.MadeOf IsPlainName) :
    (p.inside n).Legible := by
  obtain ⟨hname, husings, -⟩ := hn
  exact h.withinAll hname husings

theorem importsSeen (h : p.Legible) : ∀ i ∈ importsSeen p.levels, i.Legible := by
  intro i hi
  obtain ⟨d, hd, rfl⟩ := mem_map.1 (mem_filter.1 hi).1
  obtain ⟨level, hlevel, hd⟩ := mem_flatMap.1 hd
  exact (h.usings level (mem_reverse.1 hlevel) d hd).legible

end Place.Legible

-- ===== declarations

namespace Declarations

/-- The types stand at legible places, and the directives seen from a namespace can be written
out. -/
structure Legible (ds : Declarations) : Prop where
  places : ∀ t ∈ ds.types, t.entry.place.Legible
  imports : ∀ seen ∈ ds.spaceImports, seen.2.Legible

namespace Legible

variable {ds : Declarations} {p : Place}

theorem addUnit (h : ds.Legible) (hp : p.Legible) (d : TypeDecl) : (ds.addUnit p d).Legible := by
  obtain ⟨block, warnings, heq, hplaces⟩ := ds.exists_addUnit_eq p d
  rw [heq]
  refine ⟨forall_mem_append.2 ⟨h.places, fun t ht => ?_⟩, h.imports⟩
  rw [hplaces t ht t mem_cons_self]
  exact hp

theorem addImports (h : ds.Legible) (hp : p.Legible) : (ds.addImports p).Legible := by
  refine ⟨h.places, forall_mem_append.2 ⟨h.imports, fun seen hseen => ?_⟩⟩
  obtain ⟨i, hi, rfl⟩ := mem_map.1 hseen
  exact hp.importsSeen i hi

end Legible

end Declarations

-- ===== workspaces

namespace Workspace

/-- The documents have no reserved words for names. -/
def Legible (w : Workspace) : Prop :=
  ∀ doc ∈ w.documents, doc.source.MadeOf IsPlainName

variable {w : Workspace}

theorem implicitUsing_madeOf {space : String} (h : space ∈ implicitNamespaces) :
    (implicitUsing space).MadeOf IsPlainName := by
  have hall : ∀ space ∈ implicitNamespaces, IsSpaceName space := by decide +kernel
  exact ⟨.named rfl (hall space h) nofun nofun, nofun⟩

theorem Legible.globalUsings (h : w.Legible) (project : String) :
    ∀ d ∈ w.globalUsings project, d.MadeOf IsPlainName := by
  refine forall_mem_append.2 ⟨fun d hd => ?_, fun d hd => ?_⟩
  · obtain ⟨_, -, hd⟩ := mem_flatMap.1 hd
    obtain ⟨space, hspace, rfl⟩ := mem_map.1 hd
    exact implicitUsing_madeOf hspace
  · obtain ⟨doc, hdoc, hd⟩ := mem_flatMap.1 hd
    exact (h doc (mem_filter.1 hdoc).1).usings d (mem_filter.1 hd).1

theorem Legible.globalImports (h : w.Legible) : ∀ i ∈ w.globalImports, i.Legible := by
  intro i hi
  obtain ⟨d, hd, rfl⟩ := mem_map.1 (mem_distinct_iff.1 hi)
  obtain ⟨project, -, hd⟩ := mem_flatMap.1 hd
  exact (h.globalUsings project d hd).legible

theorem Legible.place (h : w.Legible) {doc : Document} (hdoc : doc ∈ w.documents) :
    (doc.place (w.globalUsings doc.project.name)).Legible := by
  refine ⟨.inl rfl, forall_mem_singleton.2 (forall_mem_append.2 ⟨?_, h.globalUsings _⟩)⟩
  exact fun d hd => (h doc hdoc).usings d (mem_filter.1 hd).1

theorem Legible.stands (h : w.Legible) {p : Place} {n : NamespaceDecl} (hn : w.Stands p n) :
    p.Legible ∧ n.MadeOf IsPlainName := by
  induction hn with
  | outer hdoc hn => exact ⟨h.place hdoc, (h _ hdoc).namespaces _ hn⟩
  | inner _ ho ih =>
    obtain ⟨hp, hn⟩ := ih
    obtain ⟨-, -, hinner⟩ := id hn
    exact ⟨hp.inside hn, hinner _ ho⟩

theorem Legible.reads (h : w.Legible) {p : Place} (hp : w.Reads p) : p.Legible := by
  cases hp with
  | file hdoc => exact h.place hdoc
  | space hn => exact (h.stands hn).1.inside (h.stands hn).2

/-- The declarations of a workspace without reserved words are legible. -/
theorem Legible.declarations (h : w.Legible) : w.declarations.Legible :=
  (Declarations.Composes.invariant Declarations.Legible).declarations_of_steps
    (fun hp _ d hds => hds.addUnit (h.reads hp) d) (fun hp _ hds => hds.addImports (h.reads hp))
    (fun _ _ hds => ⟨hds.places, hds.imports⟩) ⟨nofun, nofun⟩

end Workspace

end SourceBundle
