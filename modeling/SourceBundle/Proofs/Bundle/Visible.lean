/-
The usings of bundled namespaces that a declaration of a unit sees, and
which of them the text of a bundle has.

A declaration sees the directives of the namespaces around it, those of
its file, and the global ones of its project. Three of these routes end
in the imports of its unit, and a plain directive among them that names
a namespace with bundled units is a using of the unit's block. The
global directives are on none of them: they are hoisted to the top of
the file, and from there a namespace that the sources declare is left
out. So a global directive that names such a namespace leaves no trace.
The text has the using exactly if there is another ground for it
(`Workspace.Needs`), or a unit of the global namespace has one, whose
usings stand at the top of the file.
-/
import SourceBundle.Proofs.Binding.Projects
import SourceBundle.Proofs.Bundle.Writable

namespace SourceBundle

open List Text

-- ===== directives

/-- A namespace declaration is around a type declaration, with the directives from there outwards:
those of the namespaces between the two, innermost first, and its own. -/
inductive NamespaceDecl.Around : NamespaceDecl → TypeDecl → List UsingDirective → Prop
  | here {n : NamespaceDecl} {d : TypeDecl} : d ∈ n.types → Around n d n.usings
  | inside {n inner : NamespaceDecl} {d : TypeDecl} {usings : List UsingDirective} :
      inner ∈ n.namespaces → Around inner d usings → Around n d (usings ++ n.usings)

/-- The directives that a declaration of a document sees: those of the namespaces around it, those
of the file, and the global ones of the project. -/
inductive Document.Shows (doc : Document) (globals : List UsingDirective) :
    TypeDecl → List UsingDirective → Prop
  | top {d : TypeDecl} : d ∈ doc.source.types →
      Shows doc globals d (doc.source.usings.filter (!·.isGlobal) ++ globals)
  | inside {d : TypeDecl} {n : NamespaceDecl} {usings : List UsingDirective} :
      n ∈ doc.source.namespaces → n.Around d usings →
      Shows doc globals d (usings ++ (doc.source.usings.filter (!·.isGlobal) ++ globals))

/-- The directives of the levels around a place, innermost first. -/
def Place.usings (p : Place) : List UsingDirective :=
  p.levels.flatMap (·.usings)

/-- The directives that a declared type sees. -/
def DeclaredType.usings (t : DeclaredType) : List UsingDirective :=
  t.levels.flatMap (·.usings)

theorem Place.usings_withinAll {parts : List String} (hparts : parts ≠ []) (p : Place)
    (usings : List UsingDirective) :
    (p.withinAll usings parts).usings = usings ++ p.usings := by
  induction parts generalizing p with
  | nil => exact absurd rfl hparts
  | cons part parts ih =>
    cases parts with
    | nil => rfl
    | cons next parts => exact ih (cons_ne_nil next parts) (p.within part [])

theorem Place.usings_inside (p : Place) (n : NamespaceDecl) :
    (p.inside n).usings = n.usings ++ p.usings :=
  p.usings_withinAll (splitAt_ne_nil _ _) _

/-- The namespace of a place is that of its innermost level, which is not the file. -/
theorem Place.space_mem_inside {p : Place} (hp : p.levels ≠ []) (n : NamespaceDecl) :
    (p.inside n).levels ≠ [] ∧ (p.inside n).space ∈ (p.inside n).levels.dropLast.map (·.space) := by
  have hall : ∀ (parts : List String), parts ≠ [] → ∀ p : Place, p.levels ≠ [] →
      (p.withinAll n.usings parts).levels ≠ []
        ∧ (p.withinAll n.usings parts).space
          ∈ (p.withinAll n.usings parts).levels.dropLast.map (·.space) := by
    intro parts
    induction parts with
    | nil => exact fun hparts => absurd rfl hparts
    | cons part parts ih =>
      intro _ p hp
      cases parts with
      | nil =>
        refine ⟨cons_ne_nil _ _, ?_⟩
        rw [Place.withinAll, Place.within, dropLast_cons_of_ne_nil hp]
        exact mem_cons_self
      | cons next parts => exact ih (cons_ne_nil next parts) _ (cons_ne_nil _ _)
  exact hall _ (splitAt_ne_nil _ _) p hp

/-- What an entry of a namespace sees are the directives around it, and then those that are seen
from the place of the namespace. -/
theorem NamespaceDecl.exists_around (n : NamespaceDecl) : ∀ (p : Place), ∀ e ∈ n.entries p,
    ∃ usings, n.Around e.decl usings ∧ e.place.usings = usings ++ p.usings := by
  induction n using NamespaceDecl.inductionInside with
  | step n ih =>
    intro p e he
    rw [entries_eq] at he
    rcases mem_append.1 he with he | he
    · obtain ⟨d, hd, rfl⟩ := mem_map.1 he
      exact ⟨n.usings, .here hd, p.usings_inside n⟩
    · obtain ⟨inner, hinner, he⟩ := exists_of_mem_entriesInside he
      obtain ⟨usings, haround, hseen⟩ := ih inner hinner _ e he
      refine ⟨usings ++ n.usings, .inside hinner haround, ?_⟩
      rw [hseen, p.usings_inside n, append_assoc]

theorem Document.shows_of_mem_entries (doc : Document) (globals : List UsingDirective)
    {e : UnitEntry} (he : e ∈ doc.entries globals) :
    doc.Shows globals e.decl e.place.usings := by
  have hfile : (doc.place globals).usings = doc.source.usings.filter (!·.isGlobal) ++ globals :=
    append_nil _
  rcases mem_append.1 he with he | he
  · obtain ⟨d, hd, rfl⟩ := mem_map.1 he
    exact hfile ▸ .top hd
  · obtain ⟨n, hn, he⟩ := NamespaceDecl.exists_of_mem_entriesInside he
    obtain ⟨usings, haround, hseen⟩ := n.exists_around _ e he
    rw [hseen, hfile]
    exact .inside hn haround

-- ===== namespaces

namespace Declarations

/-- From some declarations to others all declared namespaces stay, and all that is seen from them.
Those of some entries are declared, and what the entries see is seen from there. -/
structure Covers (ds : Declarations) (es : List UnitEntry) (ds' : Declarations) : Prop where
  spaces_subset : ds.spaces ⊆ ds'.spaces
  imports_subset : ds.spaceImports ⊆ ds'.spaceImports
  spaces : ∀ e ∈ es, e.place.space = "" ∨ e.place.space ∈ ds'.spaces
  imports : ∀ e ∈ es, ∀ i ∈ importsSeen e.place.levels, (e.place.space, i) ∈ ds'.spaceImports

theorem Covers.trans {ds ds' ds'' : Declarations} {es fs : List UnitEntry} (h : ds.Covers es ds')
    (h' : ds'.Covers fs ds'') : ds.Covers (es ++ fs) ds'' where
  spaces_subset := List.Subset.trans h.spaces_subset h'.spaces_subset
  imports_subset := List.Subset.trans h.imports_subset h'.imports_subset
  spaces := forall_mem_append.2
    ⟨fun e he => (h.spaces e he).imp_right (h'.spaces_subset ·), h'.spaces⟩
  imports := forall_mem_append.2
    ⟨fun e he i hi => h'.imports_subset (h.imports e he i hi), h'.imports⟩

/-- The namespaces, and what is seen from them, stay as they are. -/
structure KeepsSpaces (ds ds' : Declarations) : Prop where
  spaces : ds'.spaces = ds.spaces
  imports : ds'.spaceImports = ds.spaceImports

theorem keepsSpaces_addUnits (p : Place) (types : List TypeDecl) (ds : Declarations) :
    ds.KeepsSpaces (types.foldl (addUnit p) ds) := by
  refine types.foldlRecOn (motive := ds.KeepsSpaces) _ ⟨rfl, rfl⟩ fun ds' hds' d _ => ?_
  obtain ⟨block, warnings, heq, -⟩ := ds'.exists_addUnit_eq p d
  rw [heq]
  exact ⟨hds'.spaces, hds'.imports⟩

/-- The types at a place are covered once its namespace is declared, with what is seen there. -/
theorem covers_addUnits {p : Place} {ds ds' : Declarations} (types : List TypeDecl)
    (hspaces : ds.spaces ⊆ ds'.spaces) (himports : ds.spaceImports ⊆ ds'.spaceImports)
    (hspace : p.space = "" ∨ p.space ∈ ds'.spaces)
    (hseen : types ≠ [] → ∀ i ∈ importsSeen p.levels, (p.space, i) ∈ ds'.spaceImports) :
    ds.Covers (types.map (UnitEntry.mk p)) (types.foldl (addUnit p) ds') := by
  have hkeeps := keepsSpaces_addUnits p types ds'
  rw [← hkeeps.spaces] at hspaces hspace
  rw [← hkeeps.imports] at himports hseen
  exact ⟨hspaces, himports, forall_mem_map.2 fun _ _ => hspace,
    forall_mem_map.2 fun _ hd => hseen (ne_nil_of_mem hd)⟩

theorem mem_addImports {p : Place} (ds : Declarations) {i : Import}
    (hi : i ∈ importsSeen p.levels) :
    (p.space, i) ∈ (ds.addImports p).spaceImports :=
  mem_append_right _ (mem_map_of_mem hi)

end Declarations

theorem DeclaredType.outermost_of_isTopLevel {t : DeclaredType} (h : t.isTopLevel = true) :
    t.outermost = t := by
  rw [outermost, isEmpty_iff.1 h]
  rfl

namespace Workspace

theorem Stands.levels_ne_nil {w : Workspace} {p : Place} {n : NamespaceDecl} (h : w.Stands p n) :
    p.levels ≠ [] := by
  induction h with
  | outer => exact cons_ne_nil _ _
  | inner _ _ ih => exact (Place.space_mem_inside ih _).1

open Declarations in
theorem declarations_covers (w : Workspace) :
    Declarations.Covers {} w.entries w.declarations := by
  have hcovers : Composes Covers :=
    ⟨fun _ => ⟨Subset.refl _, Subset.refl _, nofun, nofun⟩, .trans⟩
  refine hcovers.declarations (w := w) (fun {p n} hn ds => ?_) fun doc _ p hp ds => ?_
  · refine covers_addUnits _ ?_ (subset_append_left _ _) (.inr ?_)
      fun _ _ => mem_addImports (ds.addSpaces _)
    · exact fun _ hmem => mem_distinct_iff.2 (mem_append_left _ hmem)
    · refine mem_distinct_iff.2 (mem_append_right _ (mem_reverse.2 ?_))
      exact (Place.space_mem_inside hn.levels_ne_nil n).2
  · subst hp
    split
    next hnone =>
      -- a file that declares no type outside its namespaces gives the global one nothing
      exact covers_addUnits _ (Subset.refl _) (Subset.refl _) (.inl rfl)
        fun hsome => absurd (isEmpty_iff.1 hnone) hsome
    next =>
      exact covers_addUnits _ (Subset.refl _) (subset_append_left _ _) (.inl rfl)
        fun _ _ => mem_addImports ds

/-- The namespace of a unit is the global one or a declared one. -/
theorem space_declared (w : Workspace) {u : TypeUnit} (hu : u ∈ w.index.units) :
    u.space = "" ∨ u.space ∈ w.index.spaces := by
  obtain ⟨order, head, parts, rfl, hhead, hparts⟩ := Declarations.exists_parts hu
  obtain ⟨hmem, htop⟩ := hparts head hhead
  obtain ⟨doc, hdoc, hentry⟩ := exists_declaresIn hmem
  rw [DeclaredType.outermost_of_isTopLevel htop] at hentry
  exact w.declarations_covers.spaces head.entry (mem_flatMap.2 ⟨doc, hdoc, hentry⟩)

end Workspace

-- ===== units

namespace Workspace

/-- A type is declared by one of the declarations that make up a unit. -/
def Declares (w : Workspace) (u : TypeUnit) (t : DeclaredType) : Prop :=
  t ∈ w.index.types ∧ t.isTopLevel = true ∧ t.qualifiedName = u.qualifiedName

/-- A directive is seen from a declaration of a unit. -/
def Sees (w : Workspace) (u : TypeUnit) (d : UsingDirective) : Prop :=
  ∃ t, w.Declares u t ∧ d ∈ t.usings

variable {w : Workspace} {u : TypeUnit}

theorem shows_of_declares {t : DeclaredType} (ht : w.Declares u t) : ∃ doc, w.DeclaresIn doc t
    ∧ doc.Shows (w.globalUsings doc.project.name) t.decl t.usings := by
  obtain ⟨hmem, htop, -⟩ := ht
  obtain ⟨doc, hdoc, hentry⟩ := exists_declaresIn hmem
  refine ⟨doc, ⟨hdoc, hentry⟩, ?_⟩
  rw [DeclaredType.outermost_of_isTopLevel htop] at hentry
  exact doc.shows_of_mem_entries _ hentry

/-- A unit is made of the declarations of its name. -/
theorem exists_declared_parts (hu : u ∈ w.index.units) :
    ∃ order head parts, u = Declarations.unitOf order head parts
      ∧ ∀ t, t ∈ parts ↔ w.Declares u t := by
  obtain ⟨place, hplace⟩ := getElem?_of_mem hu
  obtain ⟨head, hhead, rfl⟩ :=
    Option.map_eq_some_iff.1 ((w.declarations.units_getElem? place).symm.trans hplace)
  obtain ⟨hmem, htop⟩ := Declarations.mem_of_mem_unitHeads (mem_of_getElem? hhead)
  refine ⟨place, head, _, rfl, fun t => ?_⟩
  rw [Declares, Declarations.unitOf_qualifiedName w.declarations_wellPlaced hmem htop,
    mem_filter, mem_filter, and_assoc, decide_eq_true_eq]
  rfl

theorem mem_importsSeen_iff {levels : List ImportLevel} {i : Import} : i ∈ importsSeen levels
    ↔ i.isGlobal = false ∧ ∃ d ∈ levels.flatMap (·.usings), Import.ofDirective d = i := by
  simp only [importsSeen, mem_filter, mem_map, mem_flatMap, mem_reverse,
    Bool.not_eq_true']
  exact and_comm

/-- The imports of a unit are the directives that its declarations see, without the global
ones. -/
theorem mem_imports_iff (hu : u ∈ w.index.units) {i : Import} :
    i ∈ u.imports ↔ i.isGlobal = false ∧ ∃ d, w.Sees u d ∧ Import.ofDirective d = i := by
  obtain ⟨order, head, parts, hunit, hparts⟩ := exists_declared_parts hu
  have himports : i ∈ u.imports ↔ ∃ t ∈ parts, i ∈ importsSeen t.levels := by
    rw [hunit, Declarations.unitOf, mem_distinct_iff, mem_flatMap]
  rw [himports]
  constructor
  · intro hseen
    obtain ⟨t, ht, hi⟩ := hseen
    obtain ⟨hglobal, d, hd, hname⟩ := mem_importsSeen_iff.1 hi
    exact ⟨hglobal, d, ⟨t, (hparts t).1 ht, hd⟩, hname⟩
  · intro hseen
    obtain ⟨hglobal, d, ⟨t, ht, hd⟩, hname⟩ := hseen
    exact ⟨t, (hparts t).2 ht, mem_importsSeen_iff.2 ⟨hglobal, d, hd, hname⟩⟩

end Workspace

-- ===== lines

theorem usingLine_inj {space space' : String} (h : usingLine space = usingLine space') :
    space = space' := by
  simpa [usingLine, String.ext_iff, String.toList_append] using h

/-- An alias and a static using are written with a blank inside. -/
theorem Import.exists_blank_of_not_isPlain {i : Import} (hplain : i.isPlain = false) :
    ∃ text : String, ' ' ∈ text.toList ∧ i.render = usingLine text := by
  unfold Import.render
  cases halias : i.aliasName with
  | some a =>
    refine ⟨a ++ " = " ++ i.name, ?_, ?_⟩
    · simp [String.toList_append]
    · simp only [usingLine, String.append_assoc]
  | none =>
    have hstatic : i.isStatic = true := by
      simpa [Import.isPlain, halias] using hplain
    refine ⟨"static " ++ i.name, ?_, ?_⟩
    · simp [String.toList_append]
    · rw [if_pos hstatic, usingLine, ← String.append_assoc]
      rfl

theorem Import.render_of_isPlain {i : Import} (hplain : i.isPlain = true) :
    i.render = usingLine i.name := by
  rw [Import.isPlain, Bool.and_eq_true, Option.isNone_iff_eq_none, Bool.not_eq_true'] at hplain
  rw [Import.render, hplain.1, hplain.2]
  rfl

theorem Import.render_eq_usingLine_iff {i : Import} {space : String}
    (hspace : ' ' ∉ space.toList) :
    i.render = usingLine space ↔ i.isPlain = true ∧ i.name = space := by
  cases hplain : i.isPlain with
  | false =>
    obtain ⟨text, hblank, hrender⟩ := exists_blank_of_not_isPlain hplain
    rw [hrender]
    refine ⟨fun h => ?_, fun h => nomatch h.1⟩
    exact absurd (usingLine_inj h ▸ hblank) hspace
  | true =>
    rw [render_of_isPlain hplain]
    exact ⟨fun h => ⟨rfl, usingLine_inj h⟩, fun h => congrArg usingLine h.2⟩

namespace Bundle

/-- The text has a using of a namespace for a unit: at the top of the file or in the unit's
block. -/
def Opens {m : Type → Type} (b : Bundle) (s : Service m) (c : Context) (u : TypeUnit)
    (space : String) : Prop :=
  usingLine space ∈ b.fileUsings s c
    ∨ u.space ≠ "" ∧ "    " ++ usingLine space ∈ b.blockUsings u

instance {m : Type → Type} (b : Bundle) (s : Service m) (c : Context) (u : TypeUnit)
    (space : String) : Decidable (b.Opens s c u space) :=
  inferInstanceAs (Decidable (_ ∨ _))

variable {m : Type → Type} {s : Service m} {c : Context} {b : Bundle} {u : TypeUnit}
  {space : String}

theorem mem_blockSpaces_iff : space ∈ b.blockSpaces u
    ↔ space ∈ (b.spaces.lookup u.qualifiedName).getD []
      ∨ space ∈ b.namespaces ∧ space ≠ u.space
        ∧ ∃ i ∈ u.imports, i.isPlain = true ∧ i.name = space := by
  rw [blockSpaces, mem_distinct_iff, mem_append]
  refine or_congr_right ?_
  simp only [mem_map, mem_filter, Bool.and_eq_true, decide_eq_true_eq,
    contains_iff_mem]
  constructor
  · rintro ⟨i, ⟨hi, ⟨hplain, hbundled⟩, hforeign⟩, rfl⟩
    exact ⟨hbundled, hforeign, i, hi, hplain, rfl⟩
  · rintro ⟨hbundled, hforeign, i, hi, hplain, rfl⟩
    exact ⟨i, ⟨hi, ⟨hplain, hbundled⟩, hforeign⟩, rfl⟩

/-- Among the lines that a unit brings, those of namespaces are the usings of the block's
namespaces. -/
theorem usingLine_mem_iff (hspace : ' ' ∉ space.toList) :
    usingLine space ∈ (b.blockSpaces u).map usingLine ++ u.ownImports
      ↔ space ∈ b.blockSpaces u := by
  constructor
  · intro hline
    rcases mem_append.1 hline with hline | hline
    · obtain ⟨space', hmem, hsame⟩ := mem_map.1 hline
      exact usingLine_inj hsame ▸ hmem
    · obtain ⟨i, hi, hrender⟩ := mem_map.1 hline
      have hplain := ((Import.render_eq_usingLine_iff hspace).1 hrender).1
      simp [hplain] at hi
  · exact fun hmem => mem_append_left _ (mem_map_of_mem hmem)

theorem usingLine_mem_blockUsings_iff (hspace : ' ' ∉ space.toList) :
    "    " ++ usingLine space ∈ b.blockUsings u ↔ space ∈ b.blockSpaces u := by
  rw [blockUsings, mem_distinct_iff, mem_map, ← usingLine_mem_iff hspace]
  constructor
  · rintro ⟨line, hline, hsame⟩
    have hlines : line = usingLine space := by
      simpa [String.ext_iff, String.toList_append] using hsame
    exact hlines ▸ hline
  · exact fun hline => ⟨_, hline, rfl⟩

/-- A declared namespace is not hoisted, so a using of it at the top of the file is one that every
file has, or that of a unit without a block. -/
theorem usingLine_mem_fileUsings_iff (hspace : ' ' ∉ space.toList)
    (hdeclared : s.declaresSpace space = true) : usingLine space ∈ b.fileUsings s c
      ↔ space ∈ c.defaultUsings ∨ ∃ top ∈ b.units, top.space = "" ∧ space ∈ b.blockSpaces top := by
  rw [fileUsings, mem_distinct_iff, mem_append, mem_append]
  constructor
  · rintro ((hline | hline) | hline)
    · obtain ⟨space', hmem, hsame⟩ := mem_map.1 hline
      exact .inl (usingLine_inj hsame ▸ hmem)
    · split at hline
      · obtain ⟨i, hi, hrender⟩ := mem_map.1 hline
        obtain ⟨hplain, rfl⟩ := (Import.render_eq_usingLine_iff hspace).1 hrender
        obtain ⟨seen, hseen, rfl⟩ := mem_map.1 (mem_distinct_iff.1 hi)
        have hhoisted : s.isHoisted seen = true := (mem_filter.1 hseen).2
        have hplain' : seen.isPlain = true := hplain
        rw [Service.isHoisted, if_pos hplain'] at hhoisted
        simp [hdeclared] at hhoisted
      · cases hline
    · obtain ⟨top, htop, hline⟩ := mem_flatMap.1 hline
      obtain ⟨htop, hempty⟩ := mem_filter.1 htop
      exact .inr ⟨top, htop, String.isEmpty_iff.1 hempty, (usingLine_mem_iff hspace).1 hline⟩
  · rintro (hdefault | ⟨top, htop, hempty, hmem⟩)
    · exact .inl (.inl (mem_map_of_mem hdefault))
    · refine .inr (mem_flatMap.2 ⟨top, ?_, (usingLine_mem_iff hspace).2 hmem⟩)
      exact mem_filter.2 ⟨htop, String.isEmpty_iff.2 hempty⟩

end Bundle

-- ===== bundles

namespace Workspace

/-- There is a ground for a using of a namespace in the block of a unit: the unit refers to it, or
one of its declarations sees a plain directive of that name that is not global. -/
def Needs (w : Workspace) (b : Bundle) (u : TypeUnit) (space : String) : Prop :=
  space ∈ (b.spaces.lookup u.qualifiedName).getD []
    ∨ ∃ d, w.Sees u d ∧ d.isGlobal = false ∧ (Import.ofDirective d).isPlain = true
      ∧ (Import.ofDirective d).name = space

variable {w : Workspace} {c : Context} {b : Bundle} {u : TypeUnit} {st : BindState}
  {space : String}

theorem mem_blockSpaces_iff_needs (hu : u ∈ w.index.units) (hbundled : space ∈ b.namespaces)
    (hforeign : space ≠ u.space) : space ∈ b.blockSpaces u ↔ w.Needs b u space := by
  rw [Bundle.mem_blockSpaces_iff, Needs]
  refine or_congr_right ?_
  constructor
  · rintro ⟨-, -, i, hi, hplain, hname⟩
    obtain ⟨hglobal, d, hd, rfl⟩ := (mem_imports_iff hu).1 hi
    exact ⟨d, hd, hglobal, hplain, hname⟩
  · rintro ⟨d, hd, hglobal, hplain, hname⟩
    exact ⟨hbundled, hforeign, _, (mem_imports_iff hu).2 ⟨hglobal, d, hd, rfl⟩, hplain, hname⟩

/-- The text of a bundle has the usings of bundled namespaces that the declarations of a unit
see. -/
structure KeepsUsings (w : Workspace) (b : Bundle) (options : Context) (u : TypeUnit) : Prop where
  /-- What a declaration sees stands around it, in its file, or is global in its project. -/
  seen : ∀ t, w.Declares u t → ∃ doc, w.DeclaresIn doc t
    ∧ doc.Shows (w.globalUsings doc.project.name) t.decl t.usings
  /-- Of a directive that is not global, and writes the name in full, there is the using. -/
  kept : ∀ d, w.Sees u d → d.isGlobal = false → (Import.ofDirective d).isPlain = true →
    (Import.ofDirective d).name ∈ b.namespaces → (Import.ofDirective d).name ≠ u.space →
      b.Opens w.service options u (Import.ofDirective d).name
  /-- A global directive is none of the grounds for a using. -/
  opens_iff : ∀ space ∈ b.namespaces, space ≠ u.space → space ≠ "" → ' ' ∉ space.toList →
    (b.Opens w.service options u space ↔ space ∈ options.defaultUsings
      ∨ w.Needs b u space ∨ ∃ top ∈ b.units, top.space = "" ∧ w.Needs b top space)

/-- Whatever is bundled in a workspace, the usings of bundled namespaces that the declarations of
its units see are kept, but for the global ones, which count for nothing. -/
theorem usings_kept (w : Workspace) (c : Context) {root : String} {st st' : BindState} {b : Bundle}
    (h : (bundle w.service c root).Gives st (.ok b) st') (options : Context) :
    ∀ u ∈ b.units, w.KeepsUsings b options u := by
  obtain ⟨_, -, hb⟩ | ⟨_, hb, hroot, hex⟩ := bundle_explained w.index_regular.distinct h
  · cases hb
  cases hb
  have hunit : ∀ {u}, u ∈ b.units → u ∈ w.index.units := mem_index_units_of_explained hroot hex
  intro u hu
  constructor
  case seen => exact fun t ht => shows_of_declares ht
  case kept =>
    intro d hd hglobal hplain hbundled hforeign
    have hmem : (Import.ofDirective d).name ∈ b.blockSpaces u :=
      (mem_blockSpaces_iff_needs (hunit hu) hbundled hforeign).2
        (.inr ⟨d, hd, hglobal, hplain, rfl⟩)
    by_cases hspace : u.space = ""
    · exact .inl (Bundle.using_mem_fileUsings hu (String.isEmpty_iff.2 hspace) hmem)
    · refine .inr ⟨hspace, mem_distinct_iff.2 (mem_map_of_mem (mem_append_left _ ?_))⟩
      exact mem_map_of_mem hmem
  case opens_iff =>
    intro space hbundled hforeign hnamed hblank
    have hdeclared : w.service.declaresSpace space = true := by
      obtain ⟨v, hv, rfl⟩ := Bundle.mem_namespaces_iff.1 hbundled
      exact contains_iff_mem.2 ((w.space_declared (hunit hv)).resolve_left hnamed)
    have hneeds := mem_blockSpaces_iff_needs (hunit hu) hbundled hforeign
    have htops : (∃ top ∈ b.units, top.space = "" ∧ space ∈ b.blockSpaces top)
        ↔ ∃ top ∈ b.units, top.space = "" ∧ w.Needs b top space := by
      refine exists_congr fun top => and_congr_right fun htop => and_congr_right fun hempty => ?_
      exact mem_blockSpaces_iff_needs (hunit htop) hbundled (hempty ▸ hnamed)
    rw [Bundle.Opens, Bundle.usingLine_mem_fileUsings_iff hblank hdeclared,
      Bundle.usingLine_mem_blockUsings_iff hblank, htops, hneeds]
    -- a unit without a block is one of the units whose usings stand at the top
    constructor
    · rintro ((hdefault | htop) | ⟨-, hown⟩)
      · exact .inl hdefault
      · exact .inr (.inr htop)
      · exact .inr (.inl hown)
    · rintro (hdefault | hown | htop)
      · exact .inl (.inl hdefault)
      · by_cases hspace : u.space = ""
        · exact .inl (.inr ⟨u, hu, hspace, hown⟩)
        · exact .inr ⟨hspace, hown⟩
      · exact .inl (.inr htop)

/-- The root names a type of `B` and refers to nothing in it; what it does refer to does. -/
def typeOnlySources (directive : String) : List (String × String) :=
  [("A.cs", directive ++ " namespace A \x7b class R \x7b "
      ++ "static int Solve() \x7b T t = null; return C.X.F(); \x7d \x7d \x7d"),
   ("B.cs", "namespace B \x7b class T \x7b public static int G() => 1; \x7d \x7d"),
   ("C.cs", "namespace C \x7b class X \x7b public static int F() => B.T.G(); \x7d \x7d")]

def typeOnly (directive : String) : Workspace :=
  Id.run (ofSources {} (typeOnlySources directive))

/-- Whether the declarations of a name see a plain directive of a namespace, global or not, and a
bundle has a unit of that name, outside the namespace, and one inside. -/
def seesFor (w : Workspace) (name space : String) (isGlobal : Bool) (test : TypeUnit → Bool)
    (b : Bundle) : Bool :=
  w.index.types.any (fun t => t.isTopLevel && t.qualifiedName = name && t.usings.any fun d =>
      d.isGlobal = isGlobal && (Import.ofDirective d).isPlain
        && (Import.ofDirective d).name = space)
    && b.namespaces.contains space
    && b.units.any fun u => u.qualifiedName = name && u.space ≠ space && test u

theorem exists_of_seesFor {w : Workspace} {name space : String} {isGlobal : Bool}
    {test : TypeUnit → Bool} {b : Bundle} (h : w.seesFor name space isGlobal test b = true) :
    ∃ u ∈ b.units, u.qualifiedName = name ∧ test u = true ∧ ∃ d, w.Sees u d
      ∧ d.isGlobal = isGlobal ∧ (Import.ofDirective d).isPlain = true
      ∧ (Import.ofDirective d).name = space ∧ space ∈ b.namespaces ∧ space ≠ u.space := by
  simp only [seesFor, Bool.and_eq_true, any_eq_true, decide_eq_true_eq,
    contains_iff_mem] at h
  obtain ⟨⟨⟨t, ht, ⟨htop, hdeclared⟩, d, hd, ⟨hglobal, hplain⟩, hspace⟩, hbundled⟩, u, hu,
    ⟨hname, hforeign⟩, htest⟩ := h
  exact ⟨u, hu, hname, htest, d, ⟨t, ⟨ht, htop, hdeclared.trans hname.symm⟩, hd⟩, hglobal, hplain,
    hspace, hbundled, hforeign.symm⟩

theorem typeOnly_bundles : (typeOnly "using B;").bundles "A.R" (fun b =>
    b.spaces == [("A.R", ["C"]), ("C.X", ["B"]), ("B.T", [])]
      && (typeOnly "using B;").seesFor "A.R" "B" false (fun _ => true) b) = true := by
  rewrite [typeOnly, ofSources_of_sorted {} (by decide +kernel)]
  decide +kernel

/-- The using is kept though nothing of the namespace was noted for the unit. -/
theorem usings_kept_typeOnly :
    ∃ b st, (bundle (typeOnly "using B;").service (typeOnly "using B;").context "A.R").Gives {}
        (.ok b) st
      ∧ b.spaces = [("A.R", ["C"]), ("C.X", ["B"]), ("B.T", [])]
      ∧ ∃ u ∈ b.units, u.qualifiedName = "A.R" ∧ (typeOnly "using B;").KeepsUsings b {} u
        ∧ b.Opens (typeOnly "using B;").service {} u "B" := by
  obtain ⟨b, hb, htest⟩ := exists_of_bundles typeOnly_bundles
  obtain ⟨hspaces, hsees⟩ := Bool.and_eq_true_iff.1 htest
  obtain ⟨st, hgives⟩ := Session.exists_gives_of_start hb
  obtain ⟨u, hu, hname, -, d, hd, hglobal, hplain, hspace, hbundled, hforeign⟩ :=
    exists_of_seesFor hsees
  have hkeeps := usings_kept (typeOnly "using B;") _ hgives {} u hu
  refine ⟨b, st, hgives, beq_iff_eq.1 hspaces, u, hu, hname, hkeeps, ?_⟩
  rw [← hspace] at hbundled hforeign ⊢
  exact hkeeps.kept d hd hglobal hplain hbundled hforeign

theorem typeOnly_bundles_global : (typeOnly "global using B;").bundles "A.R" (fun b =>
    (typeOnly "global using B;").seesFor "A.R" "B" true (fun u =>
      !decide (b.Opens (typeOnly "global using B;").service {} u "B")) b) = true := by
  rewrite [typeOnly, ofSources_of_sorted {} (by decide +kernel)]
  decide +kernel

/-- Of a global directive there is no using, at the top of the file or in the block. -/
theorem typeOnly_global_not_opens :
    ∃ b st, (bundle (typeOnly "global using B;").service (typeOnly "global using B;").context
        "A.R").Gives {} (.ok b) st
      ∧ ∃ u ∈ b.units, ∃ d, (typeOnly "global using B;").Sees u d
        ∧ (Import.ofDirective d).isPlain = true ∧ (Import.ofDirective d).name ∈ b.namespaces
        ∧ (Import.ofDirective d).name ≠ u.space
        ∧ ¬b.Opens (typeOnly "global using B;").service {} u (Import.ofDirective d).name := by
  obtain ⟨b, hb, hsees⟩ := exists_of_bundles typeOnly_bundles_global
  obtain ⟨st, hgives⟩ := Session.exists_gives_of_start hb
  obtain ⟨u, hu, -, hnone, d, hd, -, hplain, hspace, hbundled, hforeign⟩ := exists_of_seesFor hsees
  rw [← hspace] at hnone hbundled hforeign
  exact ⟨b, st, hgives, u, hu, d, hd, hplain, hbundled, hforeign, by simpa using hnone⟩

end Workspace

end SourceBundle
