/-
How the declarations of a workspace hang together.

Declaring goes through the files from the outside in, so each type that
is added finds the type around it already there. `Placed` says of one
type what follows: its number is its place in the list, the type around
it is in the list with it nested there, and the name of a
namespace-level type is read off its declaration. One step appends one
placed type (`wellPlaced_append`), and every way of adding is made of
such steps. From there each type leads out to a namespace-level one,
and this to a unit that holds its declaration.
-/
import Mathlib.Logic.Relation
import SourceBundle.Binding.Language
import SourceBundle.Proofs.Text.Distinct

namespace SourceBundle

open List

/-- A declaration is another or nested in it, at some depth. -/
def TypeDecl.Within : TypeDecl → TypeDecl → Prop :=
  Relation.ReflTransGen fun d e => d ∈ e.nested

-- ===== placed types

/-- A type has its place among some types. -/
structure DeclaredType.Placed (types : List DeclaredType) (t : DeclaredType) : Prop where
  number_eq : types[t.number]? = some t
  outer_cons : ∀ parent outer, t.outer = parent :: outer →
    parent ∈ types ∧ parent.outer = outer ∧ t.decl ∈ parent.decl.nested
  name_eq : t.outer = [] → t.qualifiedName = Text.dotted t.space t.decl.name

/-- Each of some types has its place among them. -/
def WellPlaced (types : List DeclaredType) : Prop :=
  ∀ t ∈ types, t.Placed types

/-- The types around a declaration to be added are those of a type that it is nested in. -/
def FitsUnder (types outer : List DeclaredType) (d : TypeDecl) : Prop :=
  ∀ parent rest, outer = parent :: rest →
    parent ∈ types ∧ parent.outer = rest ∧ d ∈ parent.decl.nested

namespace DeclaredType

theorem Placed.mono {types more : List DeclaredType} {t : DeclaredType} (ht : t.Placed types) :
    t.Placed (types ++ more) where
  number_eq := by
    obtain ⟨hlt, -⟩ := List.getElem?_eq_some_iff.1 ht.number_eq
    rw [getElem?_append_left hlt]
    exact ht.number_eq
  outer_cons parent outer houter := by
    obtain ⟨hmem, hrest⟩ := ht.outer_cons parent outer houter
    exact ⟨mem_append_left _ hmem, hrest⟩
  name_eq := ht.name_eq

end DeclaredType

/-- One more declared type keeps the places. -/
theorem wellPlaced_append {types outer : List DeclaredType} {d : TypeDecl}
    (htypes : WellPlaced types) (hfits : FitsUnder types outer d) (p : Place) :
    WellPlaced (types ++ [p.declare outer types.length d]) := by
  intro t ht
  rcases mem_append.1 ht with ht | ht
  · exact (htypes t ht).mono
  · rw [mem_singleton.1 ht]
    constructor
    · exact getElem?_concat_length
    · intro parent rest houter
      obtain ⟨hmem, hrest⟩ := hfits parent rest houter
      exact ⟨mem_append_left _ hmem, hrest⟩
    · intro houter
      have hnil : outer = [] := houter
      subst hnil
      rfl

-- ===== induction

mutual

/-- What holds of a declaration if it holds of those nested in it holds of all. -/
theorem TypeDecl.inductionNested {motive : TypeDecl → Prop}
    (step : ∀ d : TypeDecl, (∀ e ∈ d.nested, motive e) → motive d) : (d : TypeDecl) → motive d
  | { nested, .. } => step _ (TypeDecl.inductionNestedAll step nested)
termination_by structural d => d

theorem TypeDecl.inductionNestedAll {motive : TypeDecl → Prop}
    (step : ∀ d : TypeDecl, (∀ e ∈ d.nested, motive e) → motive d) :
    (ds : List TypeDecl) → ∀ d ∈ ds, motive d
  | [], _, hd => nomatch hd
  | first :: more, d, hd => by
    rcases mem_cons.1 hd with hfirst | hmore
    · exact hfirst ▸ TypeDecl.inductionNested step first
    · exact TypeDecl.inductionNestedAll step more d hmore
termination_by structural ds => ds

end

mutual

/-- What holds of a namespace if it holds of those inside it holds of all. -/
theorem NamespaceDecl.inductionInside {motive : NamespaceDecl → Prop}
    (step : ∀ n : NamespaceDecl, (∀ o ∈ n.namespaces, motive o) → motive n) :
    (n : NamespaceDecl) → motive n
  | { namespaces, .. } => step _ (NamespaceDecl.inductionInsideAll step namespaces)
termination_by structural n => n

theorem NamespaceDecl.inductionInsideAll {motive : NamespaceDecl → Prop}
    (step : ∀ n : NamespaceDecl, (∀ o ∈ n.namespaces, motive o) → motive n) :
    (ns : List NamespaceDecl) → ∀ n ∈ ns, motive n
  | [], _, hn => nomatch hn
  | first :: more, n, hn => by
    rcases mem_cons.1 hn with hfirst | hmore
    · exact hfirst ▸ NamespaceDecl.inductionInside step first
    · exact NamespaceDecl.inductionInsideAll step more n hmore
termination_by structural ns => ns

end

-- ===== entries

/-- A declaration that stands directly in a namespace, and where it stands. -/
structure UnitEntry where
  place : Place
  decl : TypeDecl

namespace UnitEntry

/-- The name that the entry declares. -/
def name (e : UnitEntry) : String :=
  Text.dotted e.place.space e.decl.name

/-- The entry as a part of a unit. -/
def part (e : UnitEntry) : UnitPart :=
  ⟨e.decl, some e.place.file⟩

end UnitEntry

mutual

/-- The entries of a namespace: its types, and then those of the namespaces inside it. -/
def NamespaceDecl.entries (p : Place) : NamespaceDecl → List UnitEntry
  | n@{ types, namespaces, .. } =>
    types.map (UnitEntry.mk (p.inside n)) ++ entriesInside (p.inside n) namespaces
termination_by structural n => n

/-- The entries of namespaces one after another. -/
def NamespaceDecl.entriesInside (p : Place) : List NamespaceDecl → List UnitEntry
  | [] => []
  | n :: more => n.entries p ++ entriesInside p more
termination_by structural more => more

end

/-- The place of the types of a document that stand in no namespace. -/
def Document.place (globals : List UsingDirective) (doc : Document) : Place :=
  { file := doc.path.text, project := doc.project.name,
    levels := [⟨"", doc.source.usings.filter (!·.isGlobal) ++ globals⟩] }

/-- The entries of a document. -/
def Document.entries (globals : List UsingDirective) (doc : Document) : List UnitEntry :=
  doc.source.types.map (UnitEntry.mk (doc.place globals))
    ++ NamespaceDecl.entriesInside (doc.place globals) doc.source.namespaces

/-- The entries of a workspace, in the order they are written. -/
def Workspace.entries (w : Workspace) : List UnitEntry :=
  w.documents.flatMap fun doc => doc.entries (w.globalUsings doc.project.name)

theorem NamespaceDecl.entries_eq (p : Place) (n : NamespaceDecl) :
    n.entries p
      = n.types.map (UnitEntry.mk (p.inside n)) ++ entriesInside (p.inside n) n.namespaces := by
  cases n
  rfl

theorem NamespaceDecl.exists_of_mem_entriesInside {p : Place} {ns : List NamespaceDecl}
    {en : UnitEntry} (hen : en ∈ entriesInside p ns) : ∃ n ∈ ns, en ∈ n.entries p := by
  induction ns with
  | nil => cases hen
  | cons n ns ih =>
    rcases mem_append.1 hen with hen | hen
    · exact ⟨n, mem_cons_self, hen⟩
    · obtain ⟨n', hn', hen⟩ := ih hen
      exact ⟨n', mem_cons_of_mem _ hn', hen⟩

-- ===== runs

/-- A namespace declaration of a workspace stands at a place. -/
inductive Workspace.Stands (w : Workspace) : Place → NamespaceDecl → Prop
  | outer {doc : Document} {n : NamespaceDecl} : doc ∈ w.documents → n ∈ doc.source.namespaces →
      Stands w (doc.place (w.globalUsings doc.project.name)) n
  | inner {p : Place} {n o : NamespaceDecl} : Stands w p n → o ∈ n.namespaces →
      Stands w (p.inside n) o

/-- Types are read at a place of a workspace: in a file, or in a namespace. -/
inductive Workspace.Reads (w : Workspace) : Place → Prop
  | file {doc : Document} : doc ∈ w.documents →
      Reads w (doc.place (w.globalUsings doc.project.name))
  | space {p : Place} {n : NamespaceDecl} : w.Stands p n → Reads w (p.inside n)

namespace Declarations

theorem addSpace_eq (p : Place) (ds : Declarations) (n : NamespaceDecl) :
    ds.addSpace p n
      = addSpaceList (p.inside n)
          (n.types.foldl (addUnit (p.inside n))
            ((ds.addSpaces (p.inside n)).addImports (p.inside n)))
          n.namespaces := by
  cases n
  rfl

/-- A relation between declarations, the entries that are added to them, and what comes out, holds
of a run if it holds of the two parts of the run. -/
structure Composes (R : Declarations → List UnitEntry → Declarations → Prop) : Prop where
  nil : ∀ ds, R ds [] ds
  append : ∀ {ds ds' ds'' : Declarations} {es fs : List UnitEntry},
    R ds es ds' → R ds' fs ds'' → R ds (es ++ fs) ds''

theorem Composes.invariant (I : Declarations → Prop) : Composes fun ds _ ds' => I ds → I ds' where
  nil _ h := h
  append h h' hds := h' (h hds)

namespace Composes

variable {R : Declarations → List UnitEntry → Declarations → Prop} (hR : Composes R)
include hR

theorem addUnits {p : Place} (hunit : ∀ ds d, R ds [⟨p, d⟩] (ds.addUnit p d))
    (types : List TypeDecl) (ds : Declarations) :
    R ds (types.map (UnitEntry.mk p)) (types.foldl (addUnit p) ds) := by
  induction types generalizing ds with
  | nil => exact hR.nil ds
  | cons d types ih => exact hR.append (hunit ds d) (ih _)

theorem addSpaceList {p : Place} {spaces : List NamespaceDecl}
    (hspaces : ∀ n ∈ spaces, ∀ ds, R ds (n.entries p) (ds.addSpace p n)) (ds : Declarations) :
    R ds (NamespaceDecl.entriesInside p spaces) (ds.addSpaceList p spaces) := by
  induction spaces generalizing ds with
  | nil => exact hR.nil ds
  | cons n spaces ih =>
    obtain ⟨hfirst, hmore⟩ := forall_mem_cons.1 hspaces
    exact hR.append (hfirst ds) (ih hmore _)

variable {w : Workspace}
  (hspace : ∀ {p : Place} {n : NamespaceDecl}, w.Stands p n → ∀ ds : Declarations,
    R ds (n.types.map (UnitEntry.mk (p.inside n)))
      (n.types.foldl (addUnit (p.inside n))
        ((ds.addSpaces (p.inside n)).addImports (p.inside n))))
include hspace

theorem addSpace (n : NamespaceDecl) : ∀ {p : Place}, w.Stands p n →
    ∀ ds, R ds (n.entries p) (ds.addSpace p n) := by
  induction n using NamespaceDecl.inductionInside with
  | step n ih =>
    intro p hn ds
    rw [addSpace_eq, NamespaceDecl.entries_eq]
    exact hR.append (hspace hn ds)
      (hR.addSpaceList (fun o ho => ih o ho (.inner hn ho)) _)

/-- What holds of the types of each file and of each namespace holds of a whole workspace. -/
theorem declarations
    (hfile : ∀ doc ∈ w.documents, ∀ p, p = doc.place (w.globalUsings doc.project.name) →
      ∀ ds : Declarations, R ds (doc.source.types.map (UnitEntry.mk p))
        (doc.source.types.foldl (addUnit p)
          (if doc.source.types.isEmpty then ds else ds.addImports p))) :
    R {} w.entries w.declarations := by
  have hrun : ∀ (docs : List Document), docs ⊆ w.documents → ∀ ds : Declarations,
      R ds (docs.flatMap fun doc => doc.entries (w.globalUsings doc.project.name))
        (docs.foldl (fun ds d => ds.addDocument (w.globalUsings d.project.name) d) ds) := by
    intro docs
    induction docs with
    | nil => exact fun _ ds => hR.nil ds
    | cons doc docs ih =>
      intro hdocs ds
      obtain ⟨hdoc, hmore⟩ := cons_subset.1 hdocs
      have hspaces := hR.addSpaceList fun n hn => hR.addSpace hspace n (.outer hdoc hn)
      exact hR.append (hR.append (hfile doc hdoc _ rfl ds) (hspaces _)) (ih hmore _)
  exact hrun w.documents (Subset.refl _) {}

omit hspace

/-- What holds of each single step holds of a whole workspace. -/
theorem declarations_of_steps
    (hunit : ∀ {p}, w.Reads p → ∀ ds d, R ds [⟨p, d⟩] (ds.addUnit p d))
    (himports : ∀ {p}, w.Reads p → ∀ ds, R ds [] (ds.addImports p))
    (hspaces : ∀ p ds, R ds [] (ds.addSpaces p)) : R {} w.entries w.declarations := by
  refine hR.declarations (fun {p n} hn ds => ?_) fun doc hdoc p hp ds => ?_
  · have hopen := hR.append (hspaces (p.inside n) ds) (himports (.space hn) _)
    exact hR.append hopen (hR.addUnits (hunit (.space hn)) _ _)
  · have hp : w.Reads p := hp ▸ .file hdoc
    have hopen : R ds [] (if doc.source.types.isEmpty then ds else ds.addImports p) := by
      split
      · exact hR.nil ds
      · exact himports hp ds
    exact hR.append hopen (hR.addUnits (hunit hp) _ _)

end Composes

end Declarations

-- ===== adding

namespace Declarations

/-- Adding keeps the places, and all that was there. -/
structure Extends (ds ds' : Declarations) : Prop where
  wellPlaced : WellPlaced ds'.types
  subset : ds.types ⊆ ds'.types

theorem Extends.trans {ds ds' ds'' : Declarations} (h : ds.Extends ds') (h' : ds'.Extends ds'') :
    ds.Extends ds'' :=
  ⟨h'.wellPlaced, fun _ ht => h'.subset (h.subset ht)⟩

theorem addType_eq (p : Place) (outer : List DeclaredType) (ds : Declarations) (d : TypeDecl) :
    ds.addType p outer d
      = addTypes p (p.declare outer ds.types.length d :: outer)
          { ds with types := ds.types ++ [p.declare outer ds.types.length d] } d.nested := by
  cases d
  rfl

/-- Declarations that can each be added can be added one after another. -/
theorem addTypes_extends {p : Place} {outer : List DeclaredType} {more : List TypeDecl}
    (hmore : ∀ d ∈ more, ∀ ds : Declarations, WellPlaced ds.types → FitsUnder ds.types outer d →
      ds.Extends (ds.addType p outer d))
    {ds : Declarations} (hds : WellPlaced ds.types)
    (hfits : ∀ d ∈ more, FitsUnder ds.types outer d) : ds.Extends (ds.addTypes p outer more) := by
  induction more generalizing ds with
  | nil => exact ⟨hds, fun _ ht => ht⟩
  | cons d more ih =>
    have hfirst := hmore d mem_cons_self ds hds (hfits d mem_cons_self)
    refine hfirst.trans
      (ih (fun e he => hmore e (mem_cons_of_mem _ he)) hfirst.wellPlaced ?_)
    intro e he parent rest houter
    obtain ⟨hmem, hrest⟩ := hfits e (mem_cons_of_mem _ he) parent rest houter
    exact ⟨hfirst.subset hmem, hrest⟩

/-- A type is added with those nested in it. -/
theorem addType_extends (p : Place) (d : TypeDecl) :
    ∀ (outer : List DeclaredType) (ds : Declarations), WellPlaced ds.types →
      FitsUnder ds.types outer d → ds.Extends (ds.addType p outer d) := by
  induction d using TypeDecl.inductionNested with
  | step d ih =>
    intro outer ds hds hfits
    rw [addType_eq]
    have hstep :
        ds.Extends { ds with types := ds.types ++ [p.declare outer ds.types.length d] } :=
      ⟨wellPlaced_append hds hfits p, fun _ ht => mem_append_left _ ht⟩
    refine hstep.trans (addTypes_extends (fun e he => ih e he _) hstep.wellPlaced ?_)
    intro e he parent rest houter
    cases houter
    exact ⟨mem_append_right _ (mem_singleton_self _), rfl, he⟩

theorem addUnit_wellPlaced {ds : Declarations} (hds : WellPlaced ds.types) (p : Place)
    (d : TypeDecl) : WellPlaced (ds.addUnit p d).types := by
  unfold addUnit
  simp only
  split
  · exact hds
  · exact (addType_extends p d [] ds hds nofun).wellPlaced

end Declarations

/-- The types of a workspace have their places. -/
theorem Workspace.declarations_wellPlaced (w : Workspace) : WellPlaced w.declarations.types :=
  (Declarations.Composes.invariant fun ds => WellPlaced ds.types).declarations_of_steps
    (fun _ _ d hds => Declarations.addUnit_wellPlaced hds _ d) (fun _ _ hds => hds)
    (fun _ _ hds => hds) nofun

-- ===== inside out

namespace WellPlaced

variable {types : List DeclaredType}

/-- The types around a declared type are declared. -/
theorem mem_of_mem_outer (h : WellPlaced types) {t o : DeclaredType} (ht : t ∈ types)
    (ho : o ∈ t.outer) : o ∈ types := by
  -- from one type to the one around it
  induction houter : t.outer generalizing t with
  | nil =>
    rw [houter] at ho
    cases ho
  | cons parent rest ih =>
    obtain ⟨hparent, hrest, -⟩ := (h t ht).outer_cons parent rest houter
    rw [houter] at ho
    rcases mem_cons.1 ho with rfl | ho
    · exact hparent
    · exact ih hparent (hrest ▸ ho) hrest

theorem mem_of_mem_chain (h : WellPlaced types) {t o : DeclaredType} (ht : t ∈ types)
    (ho : o ∈ t.chain) : o ∈ types := by
  rcases mem_cons.1 ho with rfl | ho
  · exact ht
  · exact h.mem_of_mem_outer ht ho

/-- The outermost type around a declared type is declared in a namespace, and holds its
declaration. -/
theorem outermost_spec (h : WellPlaced types) {t : DeclaredType} (ht : t ∈ types) :
    t.outermost ∈ types ∧ t.outermost.outer = [] ∧ t.decl.Within t.outermost.decl := by
  induction houter : t.outer generalizing t with
  | nil =>
    have hself : t.outermost = t := by
      rw [DeclaredType.outermost, houter]
      rfl
    rw [hself]
    exact ⟨ht, houter, .refl⟩
  | cons parent rest ih =>
    obtain ⟨hparent, hrest, hnested⟩ := (h t ht).outer_cons parent rest houter
    have hsame : t.outermost = parent.outermost := by
      rw [DeclaredType.outermost, DeclaredType.outermost, houter, hrest]
      exact getLastD_cons
    obtain ⟨hmem, htop, hwithin⟩ := ih hparent hrest
    rw [hsame]
    exact ⟨hmem, htop, .head hnested hwithin⟩

end WellPlaced

-- ===== units

namespace Declarations

variable {ds : Declarations}

theorem unitOf_qualifiedName {order : Nat} {first : DeclaredType} {parts : List DeclaredType}
    (h : WellPlaced ds.types) (hfirst : first ∈ ds.types) (htop : first.isTopLevel = true) :
    (unitOf order first parts).qualifiedName = first.qualifiedName :=
  ((h first hfirst).name_eq (isEmpty_iff.1 htop)).symm

/-- The first declaration of each unit. -/
def unitHeads (ds : Declarations) : List DeclaredType :=
  Text.distinctBy DeclaredType.qualifiedName (ds.types.filter (·.isTopLevel))

theorem mem_of_mem_unitHeads {t : DeclaredType} (ht : t ∈ ds.unitHeads) :
    t ∈ ds.types ∧ t.isTopLevel = true :=
  mem_filter.1 (Text.mem_of_mem_distinctBy ht)

/-- The unit at a place has its head at the same place. -/
theorem units_getElem? (ds : Declarations) (i : Nat) :
    ds.units[i]? = ds.unitHeads[i]?.map fun head =>
      unitOf i head ((ds.types.filter (·.isTopLevel)).filter
        (·.qualifiedName = head.qualifiedName)) :=
  getElem?_mapIdx

/-- The units bear the names of their heads. -/
theorem units_map_qualifiedName (h : WellPlaced ds.types) :
    ds.units.map (·.qualifiedName) = ds.unitHeads.map (·.qualifiedName) := by
  apply ext_getElem?
  intro i
  rw [getElem?_map, getElem?_map, units_getElem?]
  cases hhead : ds.unitHeads[i]? with
  | none => rfl
  | some head =>
    obtain ⟨hmem, htop⟩ := mem_of_mem_unitHeads (mem_of_getElem? hhead)
    exact congrArg some (unitOf_qualifiedName h hmem htop)

/-- No two units share a name. -/
theorem nodup_units_qualifiedName (h : WellPlaced ds.types) :
    (ds.units.map (·.qualifiedName)).Nodup := by
  rw [units_map_qualifiedName h]
  exact Text.nodup_map_distinctBy (f := DeclaredType.qualifiedName) _

/-- Each namespace-level type is part of the unit of its name. -/
theorem exists_unit (h : WellPlaced ds.types) {t : DeclaredType} (ht : t ∈ ds.types)
    (htop : t.outer = []) :
    ∃ u ∈ ds.units, u.qualifiedName = t.qualifiedName ∧ ∃ part ∈ u.parts, part.decl = t.decl := by
  have htop' : t ∈ ds.types.filter (·.isTopLevel) :=
    mem_filter.2 ⟨ht, isEmpty_iff.2 htop⟩
  obtain ⟨head, hhead, hname⟩ :=
    Text.exists_mem_distinctBy (f := DeclaredType.qualifiedName) htop'
  obtain ⟨hmem, hheadTop⟩ := mem_of_mem_unitHeads hhead
  obtain ⟨i, hi⟩ := getElem?_of_mem hhead
  have hunit := units_getElem? ds i
  rw [show ds.unitHeads[i]? = some head from hi] at hunit
  refine ⟨_, mem_of_getElem? hunit, (unitOf_qualifiedName h hmem hheadTop).trans hname,
    ⟨t.decl, some t.file⟩, ?_, rfl⟩
  have hpart : t ∈ (ds.types.filter (·.isTopLevel)).filter
      (·.qualifiedName = head.qualifiedName) :=
    mem_filter.2 ⟨htop', decide_eq_true hname.symm⟩
  exact mem_map_of_mem (f := fun t => (⟨t.decl, some t.file⟩ : UnitPart)) hpart

end Declarations

-- ===== index

/-- A unit is found by its name. -/
theorem Index.unitNamed_qualifiedName {ix : Index}
    (hnodup : (ix.units.map (·.qualifiedName)).Nodup) {u : TypeUnit} (hu : u ∈ ix.units) :
    ix.unitNamed u.qualifiedName = some u := by
  cases hfind : ix.unitNamed u.qualifiedName with
  | none =>
    have hmiss := find?_eq_none.1 hfind u hu
    exact absurd (decide_eq_true rfl) hmiss
  | some v =>
    have hname : v.qualifiedName = u.qualifiedName := by
      simpa using find?_some hfind
    rw [inj_on_of_nodup_map hnodup (mem_units_of_unitNamed hfind) hu hname]

namespace Workspace

variable (w : Workspace)

theorem index_types_wellPlaced : WellPlaced w.index.types :=
  w.declarations_wellPlaced

theorem index_nodup_units : (w.index.units.map (·.qualifiedName)).Nodup :=
  Declarations.nodup_units_qualifiedName w.declarations_wellPlaced

/-- A symbol's unit is the one of the outermost type around its container. -/
theorem index_declaringUnit_eq {t : DeclaredType} (ht : t ∈ w.index.types) {s : Symbol}
    (hs : s.container = some t.number) :
    w.index.declaringUnit s = w.index.unitNamed t.outermost.qualifiedName := by
  rw [Index.declaringUnit, hs]
  show (w.index.types[t.number]?).bind _ = _
  rw [(w.index_types_wellPlaced t ht).number_eq]
  rfl

/-- The unit that a symbol's container belongs to is found under its own name, and one of its
declarations holds the container. -/
theorem index_declaringUnit {t : DeclaredType} (ht : t ∈ w.index.types) {s : Symbol}
    (hs : s.container = some t.number) :
    ∃ u, w.index.declaringUnit s = some u ∧ w.index.unitNamed u.qualifiedName = some u
      ∧ ∃ part ∈ u.parts, t.decl.Within part.decl := by
  have hplaced := w.index_types_wellPlaced
  obtain ⟨houtermost, htop, hwithin⟩ := hplaced.outermost_spec ht
  obtain ⟨u, hu, hname, part, hpart, hdecl⟩ := Declarations.exists_unit hplaced houtermost htop
  have hfound : w.index.unitNamed u.qualifiedName = some u :=
    Index.unitNamed_qualifiedName w.index_nodup_units hu
  refine ⟨u, ?_, hfound, part, hpart, hdecl ▸ hwithin⟩
  rw [w.index_declaringUnit_eq ht hs, ← hname]
  exact hfound

end Workspace

end SourceBundle
