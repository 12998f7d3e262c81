/-
Projects kept apart. Parts of a type are joined, and global directives
are shared, by the name of the project that a document belongs to. So
where no two projects of a workspace share a name, a unit has no two
parts of one type from different projects, and what is looked up from a
type does not depend on the global directives of any project but its
own (`Workspace.load_keeps_apart`). A workspace may well have two
projects of one name, in different directories, and then neither holds
(`Workspace.namesakes_joined`).
-/
import SourceBundle.Proofs.Binding.Globals
import SourceBundle.Proofs.Files.Loaded
import SourceBundle.Proofs.Files.Questions

namespace SourceBundle

open List

-- ===== places

namespace Declarations

/-- The types around a type stand at its place. -/
def OnePlace (ds : Declarations) : Prop :=
  ∀ t ∈ ds.types, ∀ o ∈ t.outer, o.entry.place = t.entry.place

theorem OnePlace.addUnit {ds : Declarations} (h : ds.OnePlace) (p : Place) (d : TypeDecl) :
    (ds.addUnit p d).OnePlace := by
  obtain ⟨block, warnings, heq, hplaces⟩ := ds.exists_addUnit_eq p d
  rw [heq]
  refine forall_mem_append.2 ⟨h, fun t ht => ?_⟩
  obtain ⟨hself, houter⟩ := forall_mem_cons.1 (hplaces t ht)
  exact fun o ho => (houter o ho).trans hself.symm

end Declarations

theorem Workspace.declarations_onePlace (w : Workspace) : w.declarations.OnePlace :=
  (Declarations.Composes.invariant Declarations.OnePlace).declarations_of_steps
    (fun _ _ d h => h.addUnit _ d) (fun _ _ h => h) (fun _ _ h => h) nofun

theorem Declarations.OnePlace.project_outermost {ds : Declarations} (h : ds.OnePlace)
    {t : DeclaredType} (ht : t ∈ ds.types) : t.outermost.project = t.project := by
  rw [DeclaredType.outermost, getLastD_eq_getLast?]
  cases houter : t.outer.getLast? with
  | none => rfl
  | some o => exact congrArg Place.project (h t ht o (mem_of_getLast? houter))

theorem Place.project_inside (p : Place) (n : NamespaceDecl) :
    (p.inside n).project = p.project := by
  have hall : ∀ (parts : List String) (p : Place),
      (p.withinAll n.usings parts).project = p.project := by
    intro parts
    induction parts with
    | nil => exact fun _ => rfl
    | cons part parts ih =>
      intro p
      cases parts with
      | nil => rfl
      | cons next parts => exact ih (p.within part [])
  exact hall _ p

/-- The entries of a namespace belong to the project of its place. -/
theorem NamespaceDecl.project_of_mem_entries (n : NamespaceDecl) :
    ∀ p : Place, ∀ e ∈ n.entries p, e.place.project = p.project := by
  induction n using NamespaceDecl.inductionInside with
  | step n ih =>
    intro p
    rw [NamespaceDecl.entries_eq, ← p.project_inside n]
    refine forall_mem_append.2 ⟨forall_mem_map.2 fun _ _ => rfl, fun e he => ?_⟩
    obtain ⟨o, ho, he⟩ := exists_of_mem_entriesInside he
    exact ih o ho (p.inside n) e he

theorem Document.project_of_mem_entries (globals : List UsingDirective) (doc : Document) :
    ∀ e ∈ doc.entries globals, e.place.project = doc.project.name := by
  refine forall_mem_append.2 ⟨forall_mem_map.2 fun _ _ => rfl, fun e he => ?_⟩
  obtain ⟨n, -, he⟩ := NamespaceDecl.exists_of_mem_entriesInside he
  exact n.project_of_mem_entries _ e he

namespace Workspace

/-- A type is declared in a document. -/
def DeclaresIn (w : Workspace) (doc : Document) (t : DeclaredType) : Prop :=
  doc ∈ w.documents ∧ t.outermost.entry ∈ doc.entries (w.globalUsings doc.project.name)

variable {w : Workspace}

theorem exists_declaresIn {t : DeclaredType} (ht : t ∈ w.declarations.types) :
    ∃ doc, w.DeclaresIn doc t := by
  obtain ⟨vs, hentries, h⟩ := w.exists_accounts
  have hsite := mem_map_of_mem (f := fun t => (t.decl, t.outermost.entry)) ht
  rw [h.types_eq] at hsite
  obtain ⟨e, he, hsite⟩ := mem_flatMap.1 hsite
  obtain ⟨d, -, heq⟩ := mem_map.1 hsite
  have hmem : t.outermost.entry ∈ w.entries := by
    rw [← (Prod.mk.inj heq).2, ← hentries]
    obtain ⟨v, hv, rfl⟩ := mem_map.1 he
    exact mem_map_of_mem (mem_filter.1 hv).1
  exact mem_flatMap.1 hmem

theorem DeclaresIn.project_name {doc : Document} {t : DeclaredType} (h : w.DeclaresIn doc t)
    (ht : t ∈ w.declarations.types) : doc.project.name = t.project :=
  (doc.project_of_mem_entries _ _ h.2).symm.trans (w.declarations_onePlace.project_outermost ht)

-- ===== loading

/-- The documents belong to projects of the workspace. -/
def ProjectsListed (w : Workspace) : Prop :=
  ∀ doc ∈ w.documents, doc.project ∈ w.projects

theorem grows_projectsListed : Grows ProjectsListed where
  beside h _ _ := h
  project h _ doc hdoc := mem_append_left _ (h doc hdoc)
  document h hproject _ _ := forall_mem_append.2 ⟨h, forall_mem_singleton.2 hproject⟩

/-- The documents of a loaded workspace belong to its projects. -/
theorem always_load_listed {m : Type → Type} [Monad m] [LawfulMonad m] [MonadLog m] [MonadFiles m]
    (c : Context) (locator : String) :
    Always (fun r => ∀ w, r = .ok w → w.ProjectsListed)
      (load c locator : m (Except LoadError Workspace)) :=
  grows_projectsListed.load (forall_mem_nil _) locator

-- ===== global directives

end Workspace

/-- The project without implicit directives. -/
def Project.silent (p : Project) : Project :=
  { p with implicitUsings := false }

/-- The document without the global directives that it holds. -/
def Document.silent (doc : Document) : Document :=
  { doc with
    project := doc.project.silent
    source := { doc.source with usings := doc.source.usings.filter (!·.isGlobal) } }

namespace Workspace

variable (w : Workspace) (keep : Project → Bool)

/-- The workspace without the global directives of some projects. -/
def withGlobalsOf : Workspace :=
  { w with
    projects := w.projects.map fun p => if keep p then p else p.silent
    documents := w.documents.map fun doc => if keep doc.project then doc else doc.silent }

theorem isGlobal_of_mem_globalUsings (project : String) :
    ∀ u ∈ w.globalUsings project, u.isGlobal = true := by
  refine forall_mem_append.2 ⟨fun u hu => ?_, fun u hu => ?_⟩
  · obtain ⟨_, -, hu⟩ := mem_flatMap.1 hu
    obtain ⟨space, -, rfl⟩ := mem_map.1 hu
    rfl
  · obtain ⟨doc, -, hu⟩ := mem_flatMap.1 hu
    exact (mem_filter.1 hu).2

/-- The same is declared without the global directives of some projects. -/
theorem declarations_withGlobalsOf : (w.withGlobalsOf keep).declarations
    = w.declarations.withGlobals (w.withGlobalsOf keep).globalUsings := by
  generalize hglobals : (w.withGlobalsOf keep).globalUsings = globals
  have hglobal : ∀ project, ∀ u ∈ globals project, u.isGlobal = true :=
    hglobals ▸ (w.withGlobalsOf keep).isGlobal_of_mem_globalUsings
  have hsilent : ∀ (given : List UsingDirective) (ds : Declarations) (doc : Document),
      ds.addDocument given doc.silent = ds.addDocument given doc := by
    intro given ds doc
    have hown : (doc.source.usings.filter (!·.isGlobal)).filter (!·.isGlobal)
        = doc.source.usings.filter (!·.isGlobal) := by
      rw [filter_filter]
      simp
    unfold Declarations.addDocument Document.silent
    dsimp only
    rw [hown]
    rfl
  have hrun : ∀ (docs : List Document) (ds : Declarations),
      (docs.map fun doc => if keep doc.project then doc else doc.silent).foldl
          (fun ds doc => ds.addDocument (globals doc.project.name) doc) (ds.withGlobals globals)
        = (docs.foldl (fun ds doc => ds.addDocument (w.globalUsings doc.project.name) doc)
            ds).withGlobals globals := by
    intro docs
    induction docs with
    | nil => exact fun _ => rfl
    | cons doc docs ih =>
      intro ds
      have hfirst : (ds.withGlobals globals).addDocument
          (globals (if keep doc.project then doc else doc.silent).project.name)
          (if keep doc.project then doc else doc.silent)
          = (ds.addDocument (w.globalUsings doc.project.name) doc).withGlobals globals := by
        rw [Declarations.withGlobals_addDocument ds hglobal (w.isGlobal_of_mem_globalUsings _)]
        split
        · rfl
        · exact hsilent _ _ doc
      rw [map_cons, foldl_cons, foldl_cons, ← ih, hfirst]
  unfold declarations
  rw [hglobals]
  exact hrun w.documents {}

theorem withGlobalsOf_all : w.withGlobalsOf (fun _ => true) = w := by
  simp [withGlobalsOf]

/-- What is seen from a type ends with the global directives of its project. -/
theorem levels_of_mem {t : DeclaredType} (ht : t ∈ w.declarations.types) :
    levelsWith (w.globalUsings t.project) t.levels = t.levels := by
  have hsame := w.declarations_withGlobalsOf fun _ => true
  rw [withGlobalsOf_all] at hsame
  have htypes : w.declarations.types.map (·.withGlobals w.globalUsings) = w.declarations.types :=
    (congrArg Declarations.types hsame).symm
  have hfix : t.withGlobals w.globalUsings = t := by
    obtain ⟨i, hi⟩ := getElem?_of_mem ht
    have hat := congrArg (·[i]?) htypes
    rw [getElem?_map, hi] at hat
    exact Option.some.inj hat
  have hlevels := congrArg DeclaredType.levels hfix
  rwa [DeclaredType.withGlobals_eq] at hlevels

variable {w keep}

theorem filter_map_of_fixed {α : Type} {l : List α} {f : α → α} {q : α → Bool}
    (h : ∀ x ∈ l, f x = x ∨ q (f x) = false ∧ q x = false) : (l.map f).filter q = l.filter q := by
  induction l with
  | nil => rfl
  | cons x l ih =>
    obtain ⟨hx, hl⟩ := forall_mem_cons.1 h
    rcases hx with hx | ⟨hfx, hx⟩
    · rw [map_cons, hx, filter_cons, filter_cons, ih hl]
    · rw [map_cons, filter_cons_of_neg (by simp [hfx]),
        filter_cons_of_neg (by simp [hx]), ih hl]

/-- The global directives of a kept project are the same, if it shares its name with no other. -/
theorem globalUsings_withGlobalsOf (hlisted : w.ProjectsListed) {project : Project}
    (hnames : ∀ p ∈ w.projects, p.name = project.name → p = project)
    (hkeep : keep project = true) :
    (w.withGlobalsOf keep).globalUsings project.name = w.globalUsings project.name := by
  have hproject : ∀ p ∈ w.projects, (if keep p then p else p.silent) = p
      ∨ (if keep p then p else p.silent).name ≠ project.name ∧ p.name ≠ project.name := by
    intro p hp
    by_cases hname : p.name = project.name
    · refine .inl (if_pos ?_)
      rw [hnames p hp hname, hkeep]
    · refine .inr ⟨?_, hname⟩
      split
      · exact hname
      · exact hname
  have hdocument : ∀ doc ∈ w.documents, (if keep doc.project then doc else doc.silent) = doc
      ∨ (if keep doc.project then doc else doc.silent).project.name ≠ project.name
        ∧ doc.project.name ≠ project.name := by
    intro doc hdoc
    by_cases hname : doc.project.name = project.name
    · refine .inl (if_pos ?_)
      rw [hnames _ (hlisted doc hdoc) hname, hkeep]
    · refine .inr ⟨?_, hname⟩
      split
      · exact hname
      · exact hname
  unfold globalUsings withGlobalsOf
  dsimp only
  rw [filter_map_of_fixed fun p hp => (hproject p hp).imp_right fun h => by simp [h.1, h.2],
    filter_map_of_fixed fun doc hdoc => (hdocument doc hdoc).imp_right fun h => by
      simp [h.1, h.2]]

end Workspace

-- ===== lookups

/-- What a name stands for, by the numbers of the types. -/
def TypeLookup.numbers : TypeLookup → Option (List Nat)
  | typeParam => none
  | types found => some (found.map (·.number))

/-- All names are looked up alike from a type here and another one there. -/
structure LooksUpAlike (ds : Declarations) (t : DeclaredType) (ds' : Declarations)
    (t' : DeclaredType) : Prop where
  simple : ∀ typeParams name arity,
    (ds'.lookupSimple typeParams t'.chain t'.levels name arity).numbers
      = (ds.lookupSimple typeParams t.chain t.levels name arity).numbers
  qualified : ∀ typeParams parts arity,
    (ds'.lookupQualified typeParams t'.chain t'.levels parts arity).numbers
      = (ds.lookupQualified typeParams t.chain t.levels parts arity).numbers
  staticImports : (ds'.staticImports t'.levels).map (·.number)
    = (ds.staticImports t.levels).map (·.number)
  space : ∀ name, ds'.spaceNamed name t'.levels = ds.spaceNamed name t.levels

/-- Other global directives for other projects do not count. -/
theorem looksUpAlike_withGlobals (globals : String → List UsingDirective) (ds : Declarations)
    {t : DeclaredType} (hlevels : levelsWith (globals t.project) t.levels = t.levels) :
    LooksUpAlike ds t (ds.withGlobals globals) (t.withGlobals globals) := by
  have hkeeps := DeclaredType.keepsNames_withGlobals globals
  have hsame : (t.withGlobals globals).levels = t.levels := by
    rw [DeclaredType.withGlobals_eq]
    exact hlevels
  have hnumber : ∀ t : DeclaredType, (t.withGlobals globals).number = t.number := by
    intro t
    rw [DeclaredType.withGlobals_eq]
  have hmap : ∀ ts : List DeclaredType,
      (ts.map (·.withGlobals globals)).map (·.number) = ts.map (·.number) := by
    intro ts
    rw [map_map]
    exact map_congr_left fun t _ => hnumber t
  have hnumbers : ∀ look : TypeLookup,
      (look.map (·.withGlobals globals)).numbers = look.numbers := by
    intro look
    cases look with
    | typeParam => rfl
    | types found => exact congrArg some (hmap found)
  constructor
  case simple =>
    intro typeParams name arity
    have hlook :=
      Declarations.lookupSimple_mapTypes hkeeps ds typeParams t.chain t.levels name arity
    rw [t.withGlobals_chain, hsame]
    exact (congrArg _ hlook).trans (hnumbers _)
  case qualified =>
    intro typeParams parts arity
    have hlook :=
      Declarations.lookupQualified_mapTypes hkeeps ds typeParams t.chain t.levels parts arity
    rw [t.withGlobals_chain, hsame]
    exact (congrArg _ hlook).trans (hnumbers _)
  case staticImports =>
    rw [hsame]
    exact (congrArg _ (Declarations.staticImports_mapTypes hkeeps ds t.levels)).trans (hmap _)
  case space =>
    intro name
    rw [hsame]
    rfl

namespace Workspace

variable {w : Workspace}

/-- The parts of a unit are declared types of its name. -/
theorem exists_parts_eq {u : TypeUnit} (hu : u ∈ w.index.units) :
    ∃ name, u.parts = ((w.declarations.types.filter (·.isTopLevel)).filter
      (·.qualifiedName = name)).map (·.entry.part) := by
  obtain ⟨i, hi⟩ := getElem?_of_mem hu
  obtain ⟨head, -, rfl⟩ :=
    Option.map_eq_some_iff.1 ((w.declarations.units_getElem? i).symm.trans hi)
  exact ⟨head.qualifiedName, rfl⟩

/-- Projects are kept apart where they have names of their own. If no two projects of a loaded
workspace share a name, types of one name and number of type parameters are parts of one unit only
if they are partial and declared in documents of one project. And whatever is looked up from a type
is the same in the workspace without the global directives of all projects, or some, but that of
the document that declares it. -/
theorem load_keeps_apart {c : Context} {locator : String} {t t' : FileTree}
    {log log' : List LogLine} (hload : (load c locator : OnTree _).Ends t log (.ok w) t' log')
    (hnames : ∀ p ∈ w.projects, ∀ q ∈ w.projects, p.name = q.name → p = q) :
    (∀ u ∈ w.index.units, ∃ types : List DeclaredType, u.parts = types.map (·.entry.part)
      ∧ (∀ a ∈ types, a ∈ w.index.types ∧ ∃ doc, w.DeclaresIn doc a)
      ∧ types.Pairwise fun a b => a.arity = b.arity → a.isPartial = true ∧ b.isPartial = true
          ∧ ∀ doc doc', w.DeclaresIn doc a → w.DeclaresIn doc' b → doc.project = doc'.project)
    ∧ ∀ a ∈ w.index.types, ∀ doc, w.DeclaresIn doc a → ∀ keep : Project → Bool,
        keep doc.project = true → ∃ b, (w.withGlobalsOf keep).index.types[a.number]? = some b
          ∧ b.decl = a.decl ∧ b.file = a.file
          ∧ LooksUpAlike w.index.toDeclarations a
              (w.withGlobalsOf keep).index.toDeclarations b := by
  have hlisted : w.ProjectsListed := (always_load_listed c locator).of_ends hload w rfl
  constructor
  · intro u hu
    obtain ⟨name, hparts⟩ := exists_parts_eq hu
    obtain ⟨vs, -, haccounts⟩ := w.exists_accounts
    have hmem : ∀ a ∈ (w.declarations.types.filter (·.isTopLevel)).filter
        (·.qualifiedName = name), a ∈ w.declarations.types ∧ a.qualifiedName = name := by
      intro a ha
      obtain ⟨ha, hname⟩ := mem_filter.1 ha
      exact ⟨(mem_filter.1 ha).1, of_decide_eq_true hname⟩
    refine ⟨_, hparts, fun a ha => ⟨(hmem a ha).1, exists_declaresIn (hmem a ha).1⟩, ?_⟩
    refine (haccounts.joins.sublist filter_sublist).imp_of_mem fun ha hb hjoins harity => ?_
    obtain ⟨ha, haname⟩ := hmem _ ha
    obtain ⟨hb, hbname⟩ := hmem _ hb
    rcases hjoins (haname.trans hbname.symm) with hne | ⟨hpart, hpart', hproject⟩
    · exact absurd harity hne
    · refine ⟨hpart, hpart', fun doc doc' hdoc hdoc' => ?_⟩
      refine hnames _ (hlisted doc hdoc.1) _ (hlisted doc' hdoc'.1) ?_
      rw [hdoc.project_name ha, hdoc'.project_name hb]
      exact hproject
  · intro a ha doc hdoc keep hkeep
    have hglobals : (w.withGlobalsOf keep).globalUsings a.project = w.globalUsings a.project := by
      rw [← hdoc.project_name ha]
      exact globalUsings_withGlobalsOf hlisted
        (fun p hp hname => hnames p hp _ (hlisted doc hdoc.1) hname) hkeep
    have hdeclared := w.declarations_withGlobalsOf keep
    refine ⟨a.withGlobals (w.withGlobalsOf keep).globalUsings, ?_, ?_, ?_, ?_⟩
    · show (w.withGlobalsOf keep).declarations.types[a.number]? = _
      rw [hdeclared]
      show (w.declarations.types.map _)[a.number]? = _
      rw [getElem?_map, (w.declarations_wellPlaced a ha).number_eq]
      rfl
    · rw [DeclaredType.withGlobals_eq]
    · rw [DeclaredType.withGlobals_eq]
    · show LooksUpAlike w.declarations a (w.withGlobalsOf keep).declarations _
      rw [hdeclared]
      refine looksUpAlike_withGlobals _ _ ?_
      rw [hglobals]
      exact w.levels_of_mem ha

-- ===== namesakes

/-- Two projects of a solution with parts of one type. The first one is named `P` and has a global
directive, which leads to the type `X.G`. -/
def solutionTree (second : String) : FileTree where
  entries := [(["a"], .directory), (["b"], .directory),
    (["all.sln"], .file (Text.encodeUtf8
      ("Project(\"\") = \"P\", \"a/P.csproj\"\nProject(\"\") = \"" ++ second
        ++ "\", \"b/Q.csproj\""))),
    (["a", "P.csproj"], .file []), (["b", "Q.csproj"], .file []),
    (["a", "A.cs"], .file (Text.encodeUtf8
      ("global using X; namespace A \x7b partial class R \x7b \x7d partial class R \x7b \x7d \x7d "
        ++ "namespace X \x7b class G \x7b \x7d \x7d"))),
    (["b", "B.cs"], .file (Text.encodeUtf8
      "namespace A \x7b partial class R \x7b \x7d class S \x7b \x7d \x7d"))]

/-- The solution is loaded, and the workspace passes a test. -/
def loads (second : String) (test : Workspace → Bool) : Bool :=
  match (load {} "all.sln" : OnTree _).value (solutionTree second) with
  | .ok w => test w
  | .error _ => false

theorem exists_of_loads {second : String} {test : Workspace → Bool}
    (h : loads second test = true) : ∃ w t' log', test w = true
      ∧ (load {} "all.sln" : OnTree _).Ends (solutionTree second) [] (.ok w) t' log' := by
  unfold loads at h
  split at h
  · next w hw => exact ⟨w, _, _, h, OnTree.ends_of_value hw rfl⟩
  · cases h

/-- The files of the parts of each unit. -/
def partFiles (w : Workspace) : List (String × List (Option String)) :=
  w.index.units.map fun u => (u.qualifiedName, u.parts.map (·.file))

/-- The names of the types that a name stands for, looked up from each type in turn. -/
def lookups (w : Workspace) (name : String) : List (String × List String) :=
  w.index.types.map fun t => (t.qualifiedName,
    (w.index.lookupSimple [] t.chain t.levels name none).found.map (·.qualifiedName))

/-- With names of their own the projects are kept apart: the unit `A.R` has the two parts of the
first project, and a lookup from the second one does not need the global directive. -/
theorem load_keeps_apart_solution : ∃ w t' log',
    (load {} "all.sln" : OnTree _).Ends (solutionTree "Q") [] (.ok w) t' log'
    ∧ w.projects.map (·.name) = ["P", "Q"]
    ∧ (∃ u ∈ w.index.units, u.parts.length = 2 ∧ ∃ types : List DeclaredType,
        u.parts = types.map (·.entry.part) ∧ types.Pairwise fun a b => a.arity = b.arity →
          ∀ doc doc', w.DeclaresIn doc a → w.DeclaresIn doc' b → doc.project = doc'.project)
    ∧ ∃ a ∈ w.index.types, a.project = "Q" ∧ ∃ b,
        LooksUpAlike w.index.toDeclarations a
          (w.withGlobalsOf (·.name = "Q")).index.toDeclarations b := by
  have hloads : loads "Q" (fun w => w.projects.map (·.name) == ["P", "Q"]
      && w.index.units.any (·.parts.length = 2) && w.index.types.any (·.project = "Q")) = true := by
    decide +kernel
  obtain ⟨w, t', log', htest, hload⟩ := exists_of_loads hloads
  simp only [Bool.and_eq_true, beq_iff_eq, any_eq_true, decide_eq_true_eq] at htest
  obtain ⟨⟨hprojects, u, hu, hlength⟩, a, ha, hproject⟩ := htest
  have hnodup : (w.projects.map (·.name)).Nodup := by
    rw [hprojects]
    decide
  obtain ⟨hparts, hlooks⟩ := load_keeps_apart hload fun p hp q hq hname =>
    inj_on_of_nodup_map hnodup hp hq hname
  obtain ⟨types, heq, -, hpairs⟩ := hparts u hu
  obtain ⟨doc, hdoc⟩ := exists_declaresIn ha
  have hkeep : decide (doc.project.name = "Q") = true := by
    rw [hdoc.project_name ha, hproject]
    rfl
  obtain ⟨b, -, -, -, halike⟩ := hlooks a ha doc hdoc (·.name = "Q") hkeep
  exact ⟨w, t', log', hload, hprojects,
    ⟨u, hu, hlength, types, heq, hpairs.imp fun h harity => (h harity).2.2⟩,
    a, ha, hproject, b, halike⟩

/-- Two projects of one name: parts of both make up the unit `A.R`, and a lookup from the second
one follows the global directive of the first. -/
theorem namesakes_joined : ∃ w t' log',
    (load {} "all.sln" : OnTree _).Ends (solutionTree "P") [] (.ok w) t' log'
    ∧ w.documents.map (fun doc => (doc.path.text, doc.project.file.map (·.text)))
        = [("a/A.cs", some "a/P.csproj"), ("b/B.cs", some "b/Q.csproj")]
    ∧ ("A.R", [some "a/A.cs", some "a/A.cs", some "b/B.cs"]) ∈ w.partFiles
    ∧ ("A.S", ["X.G"]) ∈ w.lookups "G" := by
  have hloads : loads "P" (fun w =>
      w.documents.map (fun doc => (doc.path.text, doc.project.file.map (·.text)))
        == [("a/A.cs", some "a/P.csproj"), ("b/B.cs", some "b/Q.csproj")]
      && w.partFiles.contains ("A.R", [some "a/A.cs", some "a/A.cs", some "b/B.cs"])
      && (w.lookups "G").contains ("A.S", ["X.G"])) = true := by
    decide +kernel
  obtain ⟨w, t', log', htest, hload⟩ := exists_of_loads hloads
  simp only [Bool.and_eq_true, beq_iff_eq, contains_iff_mem] at htest
  exact ⟨w, t', log', hload, htest.1.1, htest.1.2, htest.2⟩

end Workspace

end SourceBundle
