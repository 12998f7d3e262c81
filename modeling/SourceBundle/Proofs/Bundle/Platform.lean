/-
No using that a declaration sees is lost from the text of a bundle, if
it names nothing that the sources declare: a plain one stands at the top
of the file, once, and an alias or a static using stands in the block of
the unit, or at the top for a unit of the global namespace
(`platform_usings_kept`).

Two tables have to agree. The imports of a unit are the directives seen
from its declarations, and the imports of a namespace those seen from its
blocks. The latter are gathered block by block, so that every entry finds
its own among them (`Declarations.Covers`). Global directives are in
neither table, but in one of their own, which is filled from the files:
a directive that is written as global inside a namespace is in none of
the three (`global_inside_lost`).
-/
import SourceBundle.Proofs.Bundle.Visible

namespace SourceBundle

open List Text

-- ===== declared namespaces

/-- A namespace declaration inside a namespace declares another: one that its dotted name leads
through or ends at, or one that is declared inside it. -/
inductive NamespaceDecl.NamesSpace : NamespaceDecl → (outer space : String) → Prop
  | own {n : NamespaceDecl} {outer space : String} :
      space ∈ ((splitAt '.' n.name).scanl dotted outer).tail → NamesSpace n outer space
  | inside {n inner : NamespaceDecl} {outer space : String} : inner ∈ n.namespaces →
      NamesSpace inner ((splitAt '.' n.name).foldl dotted outer) space → NamesSpace n outer space

/-- The sources declare a namespace, or one inside it. -/
def Workspace.NamesSpace (w : Workspace) (space : String) : Prop :=
  ∃ doc ∈ w.documents, ∃ n ∈ doc.source.namespaces, n.NamesSpace "" space

namespace Place

/-- The namespaces around a place, from the inside out, without the global one. -/
def spacesAround (p : Place) : List String :=
  p.levels.dropLast.map (·.space)

theorem spacesAround_within {p : Place} (hp : p.levels ≠ []) (part : String)
    (usings : List UsingDirective) :
    (p.within part usings).spacesAround = dotted p.space part :: p.spacesAround := by
  rw [spacesAround, within, dropLast_cons_of_ne_nil hp]
  rfl

theorem space_withinAll (p : Place) (usings : List UsingDirective) (parts : List String) :
    (p.withinAll usings parts).space = parts.foldl dotted p.space := by
  induction parts generalizing p with
  | nil => rfl
  | cons part parts ih =>
    cases parts with
    | nil => rfl
    | cons next parts => exact ih (p.within part [])

/-- The namespaces around a place inside a dotted one are those around the outer place, and those
that the dotted name leads through. -/
theorem mem_spacesAround_withinAll_iff {p : Place} (hp : p.levels ≠ [])
    (usings : List UsingDirective) (parts : List String) {space : String} :
    space ∈ (p.withinAll usings parts).spacesAround
      ↔ space ∈ p.spacesAround ∨ space ∈ (parts.scanl dotted p.space).tail := by
  induction parts generalizing p with
  | nil => simp [withinAll]
  | cons part parts ih =>
    cases parts with
    | nil => simp [withinAll, spacesAround_within hp, or_comm]
    | cons next parts =>
      have hnext := ih (p := p.within part []) (cons_ne_nil _ _)
      rw [spacesAround_within hp] at hnext
      simpa [withinAll, within, or_assoc, or_left_comm] using hnext

end Place

namespace Declarations

variable {p : Place}

theorem mem_spaces_addSpaceList_iff {spaces : List NamespaceDecl}
    (hspaces : ∀ n ∈ spaces, ∀ ds : Declarations, p.spacesAround ⊆ ds.spaces → ∀ space,
      space ∈ (ds.addSpace p n).spaces ↔ space ∈ ds.spaces ∨ n.NamesSpace p.space space)
    {ds : Declarations} (hds : p.spacesAround ⊆ ds.spaces) (space : String) :
    space ∈ (ds.addSpaceList p spaces).spaces
      ↔ space ∈ ds.spaces ∨ ∃ n ∈ spaces, n.NamesSpace p.space space := by
  induction spaces generalizing ds with
  | nil => simp [addSpaceList]
  | cons n spaces ih =>
    have hfirst := hspaces n mem_cons_self ds hds
    have hrest := ih (fun o ho => hspaces o (mem_cons_of_mem _ ho))
      (fun around haround => (hfirst around).2 (.inl (hds haround)))
    rw [addSpaceList, hrest, hfirst, exists_mem_cons_iff, or_assoc]

theorem mem_spaces_addUnits_iff {types : List TypeDecl} {ds : Declarations} {space : String} :
    space ∈ (types.foldl (addUnit p) ((ds.addSpaces p).addImports p)).spaces
      ↔ space ∈ ds.spaces ∨ space ∈ p.spacesAround := by
  rw [(keepsSpaces_addUnits _ _ _).spaces]
  exact mem_distinct_iff.trans (mem_append.trans (or_congr_right mem_reverse))

/-- What a namespace declaration adds are the namespaces it declares. -/
theorem mem_spaces_addSpace_iff (n : NamespaceDecl) : ∀ (p : Place), p.levels ≠ [] →
    ∀ ds : Declarations, p.spacesAround ⊆ ds.spaces → ∀ space,
      space ∈ (ds.addSpace p n).spaces ↔ space ∈ ds.spaces ∨ n.NamesSpace p.space space := by
  induction n using NamespaceDecl.inductionInside with
  | step n ih =>
    -- the namespaces around the inner place are listed before anything inside it is added
    intro p hp ds hds space
    have hlevels := (Place.space_mem_inside hp n).1
    rw [addSpace_eq, mem_spaces_addSpaceList_iff (fun o ho => ih o ho _ hlevels)
      (fun _ h => mem_spaces_addUnits_iff.2 (.inr h)), mem_spaces_addUnits_iff, Place.inside,
      Place.mem_spacesAround_withinAll_iff hp, Place.space_withinAll]
    constructor
    · rintro ((h | h | h) | ⟨o, ho, h⟩)
      · exact .inl h
      · exact .inl (hds h)
      · exact .inr (.own h)
      · exact .inr (.inside ho h)
    · rintro (h | h | ⟨ho, h⟩)
      · exact .inl (.inl h)
      · exact .inl (.inr (.inr h))
      · exact .inr ⟨_, ho, h⟩

theorem mem_spaces_addDocument_iff {globals : List UsingDirective} {ds : Declarations}
    {doc : Document} {space : String} : space ∈ (ds.addDocument globals doc).spaces
      ↔ space ∈ ds.spaces ∨ ∃ n ∈ doc.source.namespaces, n.NamesSpace "" space := by
  have hlevels : (doc.place globals).levels ≠ [] := cons_ne_nil _ _
  have haround : ∀ ds : Declarations, (doc.place globals).spacesAround ⊆ ds.spaces :=
    fun _ => nil_subset _
  unfold addDocument
  simp only
  refine (mem_spaces_addSpaceList_iff (fun n _ => mem_spaces_addSpace_iff n _ hlevels)
    (haround _) space).trans (or_congr_left ?_)
  rw [(keepsSpaces_addUnits _ _ _).spaces]
  split <;> rfl

end Declarations

/-- The namespaces of an index are those that the sources declare, and those around them. -/
theorem Workspace.mem_spaces_iff {w : Workspace} {space : String} :
    space ∈ w.index.spaces ↔ w.NamesSpace space := by
  have hrun : ∀ (docs : List Document) (ds : Declarations),
      space ∈ (docs.foldl (fun ds d => ds.addDocument (w.globalUsings d.project.name) d) ds).spaces
        ↔ space ∈ ds.spaces ∨ ∃ doc ∈ docs, ∃ n ∈ doc.source.namespaces, n.NamesSpace "" space := by
    intro docs
    induction docs with
    | nil => simp
    | cons doc docs ih =>
      intro ds
      rw [foldl_cons, ih, Declarations.mem_spaces_addDocument_iff, exists_mem_cons_iff,
        or_assoc]
  exact (hrun w.documents {}).trans (or_iff_right not_mem_nil)

instance (w : Workspace) (space : String) : Decidable (w.NamesSpace space) :=
  decidable_of_iff _ Workspace.mem_spaces_iff

-- ===== gathered imports

namespace Workspace

variable {w : Workspace} {u : TypeUnit} {d : UsingDirective}

/-- What is seen from a declaration of a unit, and is not global, is an import of its namespace. -/
theorem mem_importsOf (hd : w.Sees u d) (hglobal : d.isGlobal = false) :
    Import.ofDirective d ∈ w.index.importsOf u.space := by
  obtain ⟨t, ⟨hmem, htop, hname⟩, hd⟩ := hd
  obtain ⟨doc, hdoc, hentry⟩ := exists_declaresIn hmem
  rw [DeclaredType.outermost_of_isTopLevel htop] at hentry
  have hspace : t.space = u.space :=
    (Text.dotted_inj t.decl.dotless u.dotless
      ((Declarations.name_entry w.declarations_wellPlaced hmem htop).trans hname)).1
  have hseen : Import.ofDirective d ∈ importsSeen t.levels :=
    mem_importsSeen_iff.2 ⟨hglobal, d, hd, rfl⟩
  have hgathered := w.declarations_covers.imports t.entry
    (mem_flatMap.2 ⟨doc, hdoc, hentry⟩) _ hseen
  refine mem_distinct_iff.2 (mem_map.2 ⟨_, mem_filter.2 ⟨hgathered, ?_⟩, rfl⟩)
  exact decide_eq_true hspace

/-- What is global in a project is a global import. -/
theorem mem_globalImports {project : String} (hd : d ∈ w.globalUsings project) :
    Import.ofDirective d ∈ w.index.globalImports := by
  have hproject : project ∈ w.projectNames := by
    refine mem_distinct_iff.2 (mem_append.2 ?_)
    rcases mem_append.1 hd with hd | hd
    · obtain ⟨p, hp, -⟩ := mem_flatMap.1 hd
      obtain ⟨hp, htest⟩ := mem_filter.1 hp
      rw [Bool.and_eq_true, decide_eq_true_eq] at htest
      exact .inl (mem_map.2 ⟨p, hp, htest.1⟩)
    · obtain ⟨doc, hdoc, -⟩ := mem_flatMap.1 hd
      obtain ⟨hdoc, htest⟩ := mem_filter.1 hdoc
      exact .inr (mem_map.2 ⟨doc, hdoc, of_decide_eq_true htest⟩)
  exact mem_distinct_iff.2 (mem_map_of_mem (mem_flatMap.2 ⟨project, hproject, hd⟩))

end Workspace

-- ===== the text

namespace Bundle

variable {m : Type → Type} {s : Service m} {c : Context} {b : Bundle} {i : Import}

/-- A directive that is seen from a bundled namespace or holds everywhere is at the top of the
file, if it is one of those that go there. -/
theorem render_mem_fileUsings (hhoist : c.hoist = true) (hhoisted : s.isHoisted i = true)
    (hi : i ∈ b.namespaces.flatMap s.importsOf ++ s.globalImports) :
    i.render ∈ b.fileUsings s c := by
  have hmem : { i with isGlobal := false } ∈ b.hoistedImports s :=
    mem_distinct_iff.2 (mem_map.2 ⟨i, mem_filter.2 ⟨hi, hhoisted⟩, rfl⟩)
  refine mem_distinct_iff.2 (mem_append_left _ (mem_append_right _ ?_))
  rw [if_pos hhoist]
  exact mem_map.2 ⟨_, hmem, rfl⟩

variable {u : TypeUnit} {line : String}

/-- The aliases and static usings of a unit of the global namespace are at the top of the file. -/
theorem own_mem_fileUsings (hu : u ∈ b.units) (hspace : u.space = "")
    (hline : line ∈ u.ownImports) : line ∈ b.fileUsings s c := by
  refine mem_distinct_iff.2 (mem_append_right _ (mem_flatMap.2 ⟨u, ?_, ?_⟩))
  · exact mem_filter.2 ⟨hu, String.isEmpty_iff.2 hspace⟩
  · exact mem_append_right _ hline

theorem own_mem_blockUsings (hline : line ∈ u.ownImports) : "    " ++ line ∈ b.blockUsings u :=
  mem_distinct_iff.2 (mem_map_of_mem (mem_append_right _ hline))

/-- The usings of a unit's block stand in it, one after another. -/
theorem blockUsings_infix_block (b : Bundle) (hspace : u.space ≠ "") :
    b.blockUsings u <:+: b.block u := by
  have hnamed : ¬ u.space.isEmpty = true := fun hempty => hspace (String.isEmpty_iff.1 hempty)
  rw [block, if_neg hnamed]
  refine List.IsInfix.trans ?_ (infix_append _ _ _)
  change b.blockUsings u <:+: if (b.blockUsings u).isEmpty then [] else b.blockUsings u ++ [""]
  split
  next hnone => rw [isEmpty_iff.1 hnone]
  next => exact (prefix_append _ _).isInfix

end Bundle

namespace Workspace

/-- The text of a bundle has the directives that the declarations of a unit see, if they name
nothing that the sources declare. -/
structure KeepsPlatform (w : Workspace) (b : Bundle) (options : Context) (u : TypeUnit) : Prop where
  /-- What a declaration sees stands around it, in its file, or is global in its project. -/
  seen : ∀ t, w.Declares u t → ∃ doc, w.DeclaresIn doc t
    ∧ doc.Shows (w.globalUsings doc.project.name) t.decl t.usings
  /-- A plain directive stands at the top of the file, once. If it is written as global, it has to
  be global in some project. -/
  plain : ∀ d, w.Sees u d → (d.isGlobal = true → ∃ project, d ∈ w.globalUsings project) →
    (Import.ofDirective d).isPlain = true → ¬w.NamesSpace (Import.ofDirective d).name →
      (b.fileUsings w.service options).count (usingLine (Import.ofDirective d).name) = 1
  /-- Any other, if not global, stands once in the unit's block, or at the top if it has none. -/
  own : ∀ d, w.Sees u d → d.isGlobal = false → (Import.ofDirective d).isPlain = false →
    if u.space = "" then (b.fileUsings w.service options).count (Import.ofDirective d).render = 1
    else (b.blockUsings u).count ("    " ++ (Import.ofDirective d).render) = 1
      ∧ b.blockUsings u <:+: b.block u

/-- Whatever is bundled in a workspace, a text with hoisting keeps the usings that the declarations
of its units see and that name nothing of the sources. -/
theorem platform_usings_kept (w : Workspace) (c : Context) {root : String} {st st' : BindState}
    {b : Bundle} (h : (bundle w.service c root).Gives st (.ok b) st') (options : Context)
    (hhoist : options.hoist = true) : ∀ u ∈ b.units, w.KeepsPlatform b options u := by
  obtain ⟨_, -, hb⟩ | ⟨_, hb, hroot, hex⟩ := bundle_explained w.index_regular.distinct h
  · cases hb
  cases hb
  intro u hu
  constructor
  case seen => exact fun t ht => shows_of_declares ht
  case plain =>
    intro d hd hproject hplain hforeign
    have hdeclared : w.service.declaresSpace (Import.ofDirective d).name = false :=
      Bool.eq_false_iff.2 fun h => hforeign (mem_spaces_iff.1 (contains_iff_mem.1 h))
    have hhoisted : w.service.isHoisted (Import.ofDirective d) = true := by
      rw [Service.isHoisted, if_pos hplain, hdeclared]
      rfl
    rw [← Import.render_of_isPlain hplain]
    refine count_eq_one_of_mem (nodup_distinct _)
      (Bundle.render_mem_fileUsings hhoist hhoisted (mem_append.2 ?_))
    -- the directive is in the table of the namespace, or in that of the projects
    cases hglobal : d.isGlobal with
    | false =>
      refine .inl (mem_flatMap.2 ⟨u.space, ?_, mem_importsOf hd hglobal⟩)
      exact Bundle.mem_namespaces_iff.2 ⟨u, hu, rfl⟩
    | true =>
      obtain ⟨project, hd⟩ := hproject hglobal
      exact .inr (mem_globalImports hd)
  case own =>
    intro d hd hglobal hplain
    have hmem : (Import.ofDirective d).render ∈ u.ownImports := by
      refine mem_map_of_mem (mem_filter.2 ⟨?_, by rw [hplain]; rfl⟩)
      exact (mem_imports_iff (mem_index_units_of_explained hroot hex hu)).2 ⟨hglobal, d, hd, rfl⟩
    split
    next hspace =>
      exact count_eq_one_of_mem (nodup_distinct _) (Bundle.own_mem_fileUsings hu hspace hmem)
    next hspace =>
      refine ⟨count_eq_one_of_mem (nodup_distinct _) (Bundle.own_mem_blockUsings hmem), ?_⟩
      exact b.blockUsings_infix_block hspace

/-- The root alone, with directives in the block of its namespace. -/
def platformSources (directives : String) : List (String × String) :=
  [("A.cs",
    "namespace A \x7b " ++ directives ++ " class R \x7b static int Solve() => 1; \x7d \x7d")]

def platform (directives : String) : Workspace :=
  Id.run (ofSources {} (platformSources directives))

def plainAndAlias : Workspace :=
  platform "using System.Text; using S = System.String;"

def globalInside : Workspace :=
  platform "global using System.Text;"

/-- Whether the declarations of some bundled unit see a directive that passes a test. -/
def seesSome (w : Workspace) (b : Bundle) (test : TypeUnit → UsingDirective → Bool) : Bool :=
  b.units.any fun u => w.index.types.any fun t =>
    t.isTopLevel && t.qualifiedName = u.qualifiedName && t.usings.any (test u)

theorem exists_of_seesSome {w : Workspace} {b : Bundle} {test : TypeUnit → UsingDirective → Bool}
    (h : w.seesSome b test = true) : ∃ u ∈ b.units, ∃ d, w.Sees u d ∧ test u d = true := by
  simp only [seesSome, Bool.and_eq_true, any_eq_true, decide_eq_true_eq] at h
  obtain ⟨u, hu, t, ht, ⟨htop, hname⟩, d, hd, htest⟩ := h
  exact ⟨u, hu, d, ⟨t, ⟨ht, htop, hname⟩, hd⟩, htest⟩

theorem plainAndAlias_bundles : plainAndAlias.bundles "A.R" (fun b =>
    plainAndAlias.seesSome b (fun _ d =>
        d.isGlobal = false && (Import.ofDirective d).isPlain = true
          && (Import.ofDirective d).name = "System.Text")
      && !decide (plainAndAlias.NamesSpace "System.Text")
      && plainAndAlias.seesSome b (fun u d =>
        d.isGlobal = false && (Import.ofDirective d).isPlain = false
          && (Import.ofDirective d).render = "using S = System.String;" && u.space ≠ ""))
      = true := by
  rewrite [plainAndAlias, platform, ofSources_of_sorted {} (by decide +kernel)]
  decide +kernel

/-- A plain using and an alias in one block: the first goes to the top, the second stays. -/
theorem platform_usings_kept_block :
    ∃ b st, (bundle plainAndAlias.service plainAndAlias.context "A.R").Gives {} (.ok b) st
      ∧ (b.fileUsings plainAndAlias.service {}).count "using System.Text;" = 1
      ∧ ∃ u ∈ b.units, (b.blockUsings u).count "    using S = System.String;" = 1 := by
  obtain ⟨b, hb, htest⟩ := exists_of_bundles plainAndAlias_bundles
  obtain ⟨st, hgives⟩ := Session.exists_gives_of_start hb
  obtain ⟨hseen, halias⟩ := Bool.and_eq_true_iff.1 htest
  obtain ⟨hplain, hforeign⟩ := Bool.and_eq_true_iff.1 hseen
  obtain ⟨u, hu, d, hd, hplain⟩ := exists_of_seesSome hplain
  obtain ⟨v, hv, e, he, halias⟩ := exists_of_seesSome halias
  simp only [Bool.and_eq_true, decide_eq_true_eq] at hplain halias
  obtain ⟨⟨hglobal, hplain⟩, hname⟩ := hplain
  obtain ⟨⟨⟨hglobal', halias⟩, hrender⟩, hspace⟩ := halias
  have hkeeps := platform_usings_kept _ _ hgives {} rfl
  refine ⟨b, st, hgives, ?_, v, hv, ?_⟩
  · have hcount := (hkeeps u hu).plain d hd (fun h => by rw [hglobal] at h; cases h) hplain
    rw [hname] at hcount
    exact hcount (by simpa using hforeign)
  · have hcount := (hkeeps v hv).own e he hglobal' halias
    rw [if_neg hspace, hrender] at hcount
    exact hcount.1

theorem globalInside_bundles : globalInside.bundles "A.R" (fun b =>
    globalInside.seesSome b (fun _ d => (Import.ofDirective d).isPlain = true
      && !decide (globalInside.NamesSpace (Import.ofDirective d).name)
      && !(b.fileUsings globalInside.service {}).contains
        (usingLine (Import.ofDirective d).name))) = true := by
  rewrite [globalInside, platform, ofSources_of_sorted {} (by decide +kernel)]
  decide +kernel

/-- A directive that is written as global inside a namespace is seen there, and is not at the top
of the file. -/
theorem global_inside_lost :
    ∃ b st, (bundle globalInside.service globalInside.context "A.R").Gives {} (.ok b) st
      ∧ ∃ u ∈ b.units, ∃ d, globalInside.Sees u d ∧ (Import.ofDirective d).isPlain = true
        ∧ ¬globalInside.NamesSpace (Import.ofDirective d).name
        ∧ usingLine (Import.ofDirective d).name ∉ b.fileUsings globalInside.service {} := by
  obtain ⟨b, hb, hsees⟩ := exists_of_bundles globalInside_bundles
  obtain ⟨st, hgives⟩ := Session.exists_gives_of_start hb
  obtain ⟨u, hu, d, hd, hlost⟩ := exists_of_seesSome hsees
  simp only [Bool.and_eq_true, decide_eq_true_eq, Bool.not_eq_true', decide_eq_false_iff_not,
    contains_eq_mem] at hlost
  exact ⟨b, st, hgives, u, hu, d, hd, hlost.1.1, hlost.1.2, hlost.2⟩

end Workspace

end SourceBundle
