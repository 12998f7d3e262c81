/-
Global directives and what is read of them.

A name is looked up by the names of the declared types and by the using
directives at the place of the lookup alone: the directives at the
places of the types that are found, or passed by, do not count. So a
function that leaves the names and declarations of the types as they are
goes through every lookup (`lookupQualified_mapTypes`).

Other global directives for the projects are such a function
(`withGlobals`): they change what is seen from a type, and nothing else.
Declaring goes through it as well, since no directive has a say in what
is declared (`withGlobals_addDocument`).
-/
import SourceBundle.Proofs.Binding.Listed

namespace SourceBundle

open List

-- ===== lookups

/-- The function leaves the names and the declarations of types as they are. -/
structure KeepsNames (f : DeclaredType → DeclaredType) : Prop where
  qualifiedName : ∀ t, (f t).qualifiedName = t.qualifiedName
  decl : ∀ t, (f t).decl = t.decl

/-- The lookup with something else in the place of each type. -/
def TypeLookup.map (f : DeclaredType → DeclaredType) : TypeLookup → TypeLookup
  | typeParam => .typeParam
  | types found => .types (found.map f)

@[simp] theorem TypeLookup.found_map (f : DeclaredType → DeclaredType) (look : TypeLookup) :
    (look.map f).found = look.found.map f := by
  cases look with
  | typeParam => rfl
  | types found => rfl

@[simp] theorem TypeLookup.ofOption_map (f : DeclaredType → DeclaredType)
    (t : Option DeclaredType) : ofOption (t.map f) = (ofOption t).map f := by
  cases t with
  | none => rfl
  | some t => rfl

namespace Declarations

/-- The declarations with something else in the place of each type. -/
def mapTypes (f : DeclaredType → DeclaredType) (ds : Declarations) : Declarations :=
  { ds with types := ds.types.map f }

variable {f : DeclaredType → DeclaredType} (hf : KeepsNames f) (ds : Declarations)

include hf

theorem named_mapTypes (name : String) :
    (ds.mapTypes f).named name = (ds.named name).map f := by
  show (ds.types.map f).filter _ = (ds.types.filter _).map f
  rw [filter_map]
  refine congrArg (List.map f) (filter_congr fun t _ => ?_)
  rw [Function.comp_apply, hf.qualifiedName]

theorem typeNamed_mapTypes (name : String) (arity : Option Nat) :
    (ds.mapTypes f).typeNamed name arity = (ds.typeNamed name arity).map f := by
  have hfind : ∀ n, ((ds.named name).map f).find? (·.arity = n)
      = ((ds.named name).find? (·.arity = n)).map f := by
    intro n
    rw [find?_map]
    refine congrArg (Option.map f) (congrArg (List.find? · _) (funext fun t => ?_))
    rw [Function.comp_apply, DeclaredType.arity, DeclaredType.arity, hf.decl]
  unfold typeNamed
  dsimp only
  rw [named_mapTypes hf, head?_map]
  cases arity with
  | none => rfl
  | some n =>
    rw [Option.bind_some, Option.bind_some, hfind]
    cases (ds.named name).find? (·.arity = n) with
    | none => rfl
    | some t => rfl

theorem nestedType_mapTypes (t : DeclaredType) (name : String) (arity : Option Nat) :
    (ds.mapTypes f).nestedType (f t) name arity = (ds.nestedType t name arity).map f := by
  unfold nestedType
  rw [hf.qualifiedName, typeNamed_mapTypes hf]

theorem nestedAlong_mapTypes (arity : Option Nat) (t : DeclaredType) (parts : List String) :
    (ds.mapTypes f).nestedAlong arity (f t) parts = (ds.nestedAlong arity t parts).map f := by
  induction parts generalizing t with
  | nil => rfl
  | cons part parts ih =>
    cases parts with
    | nil => exact nestedType_mapTypes hf ds t part arity
    | cons next parts =>
      unfold nestedAlong
      rw [nestedType_mapTypes hf]
      cases ds.nestedType t part none with
      | none => rfl
      | some inner => exact ih inner

theorem typeInSpaces_mapTypes (levels : List ImportLevel) (parts : List String)
    (arity : Option Nat) :
    (ds.mapTypes f).typeInSpaces levels parts arity
      = (ds.typeInSpaces levels parts arity).map f := by
  unfold typeInSpaces
  rw [map_findSome?]
  exact congrArg (List.findSome? · levels) (funext fun level => typeNamed_mapTypes hf ds _ arity)

omit hf in
/-- The directives of a kind lead to the first type that one of them leads to. -/
theorem findSome?_mapTypes {target target' : UsingDirective → Option DeclaredType}
    (htarget : ∀ u, target' u = (target u).map f) (kind : UsingDirective → Bool)
    (usings : List UsingDirective) :
    (usings.findSome? fun u => if kind u then target' u else none)
      = (usings.findSome? fun u => if kind u then target u else none).map f := by
  rw [map_findSome?]
  refine congrArg (List.findSome? · usings) (funext fun u => ?_)
  rw [Function.comp_apply]
  split
  · exact htarget u
  · rfl

theorem typeBehindAlias_mapTypes (levels : List ImportLevel) (head : String) (rest : List String)
    (arity : Option Nat) :
    (ds.mapTypes f).typeBehindAlias levels head rest arity
      = (ds.typeBehindAlias levels head rest arity).map f := by
  unfold typeBehindAlias
  rw [map_findSome?]
  refine congrArg (List.findSome? · levels) (funext fun level => ?_)
  exact findSome?_mapTypes (fun u => typeNamed_mapTypes hf ds _ arity) _ level.usings

/-- A dotted name is looked up alike, if simple names are. -/
theorem qualifiedFrom_mapTypes (levels : List ImportLevel)
    {simple simple' : String → Option Nat → TypeLookup}
    (hsimple : ∀ name arity, simple' name arity = (simple name arity).map f) (parts : List String)
    (arity : Option Nat) :
    (ds.mapTypes f).qualifiedFrom levels simple' parts arity
      = (ds.qualifiedFrom levels simple parts arity).map f := by
  unfold qualifiedFrom
  match parts with
  | [] => rfl
  | [name] => exact hsimple name arity
  | head :: next :: rest =>
    dsimp only
    rw [typeInSpaces_mapTypes hf, typeBehindAlias_mapTypes hf, hsimple, TypeLookup.found_map,
      head?_map, ← TypeLookup.ofOption_map]
    cases ds.typeInSpaces levels (head :: next :: rest) arity with
    | some t => rfl
    | none =>
      cases ds.typeBehindAlias levels head (next :: rest) arity with
      | some t => rfl
      | none =>
        cases (simple head none).found.head? with
        | none => rfl
        | some t => exact congrArg _ (nestedAlong_mapTypes hf ds arity t (next :: rest))

theorem simpleAtRoot_mapTypes (name : String) (arity : Option Nat) :
    (ds.mapTypes f).simpleAtRoot name arity = (ds.simpleAtRoot name arity).map f := by
  unfold simpleAtRoot
  rw [typeNamed_mapTypes hf, TypeLookup.ofOption_map]

theorem importedTypes_mapTypes (level : ImportLevel) (name : String) (arity : Option Nat) :
    (ds.mapTypes f).importedTypes level name arity
      = (ds.importedTypes level name arity).map f := by
  unfold importedTypes
  dsimp only
  rw [← Text.distinctBy_map hf.qualifiedName, map_filterMap]
  simp only [typeNamed_mapTypes hf]

/-- The type that an alias of a level leads to. -/
theorem aliased_mapTypes {outer : List ImportLevel}
    (houter : ∀ name arity, (ds.mapTypes f).simpleFrom outer name arity
      = (ds.simpleFrom outer name arity).map f) (u : UsingDirective) :
    (if outer.isEmpty || u.target.qualifier.isSome then
        (ds.mapTypes f).qualifiedFrom rootLevels (ds.mapTypes f).simpleAtRoot u.target.parts
          (some u.target.args.length)
      else
        (ds.mapTypes f).qualifiedFrom outer ((ds.mapTypes f).simpleFrom outer) u.target.parts
          (some u.target.args.length)).found.head?
      = (if outer.isEmpty || u.target.qualifier.isSome then
          ds.qualifiedFrom rootLevels ds.simpleAtRoot u.target.parts (some u.target.args.length)
        else
          ds.qualifiedFrom outer (ds.simpleFrom outer) u.target.parts
            (some u.target.args.length)).found.head?.map f := by
  rw [← head?_map, ← TypeLookup.found_map]
  split
  · rw [qualifiedFrom_mapTypes hf ds rootLevels (simpleAtRoot_mapTypes hf ds)]
  · rw [qualifiedFrom_mapTypes hf ds outer houter]

theorem simpleFrom_mapTypes (levels : List ImportLevel) : ∀ (name : String) (arity : Option Nat),
    (ds.mapTypes f).simpleFrom levels name arity = (ds.simpleFrom levels name arity).map f := by
  induction levels with
  | nil => exact fun _ _ => rfl
  | cons level outer ih =>
    intro name arity
    rw [simpleFrom, simpleFrom]
    dsimp only
    rw [findSome?_mapTypes (aliased_mapTypes hf ds ih)
        (fun u => u.aliasName = some name && !u.isStatic),
      typeNamed_mapTypes hf, importedTypes_mapTypes hf, ih]
    cases ds.typeNamed (Text.dotted level.space name) arity with
    | some t => rfl
    | none =>
      generalize List.findSome? _ level.usings = aliased
      cases aliased with
      | some t => rfl
      | none =>
        cases ds.importedTypes level name arity with
        | nil => rfl
        | cons t found => rfl

theorem simpleWithin_mapTypes (name : String) (arity : Option Nat) (chain : List DeclaredType) :
    (ds.mapTypes f).simpleWithin name arity (chain.map f)
      = (ds.simpleWithin name arity chain).map (·.map f) := by
  induction chain with
  | nil => rfl
  | cons t outer ih =>
    rw [map_cons, simpleWithin, simpleWithin, hf.decl, nestedType_mapTypes hf]
    split
    · rfl
    · cases ds.nestedType t name arity with
      | some found => rfl
      | none => exact ih

theorem lookupSimple_mapTypes (typeParams : List String) (chain : List DeclaredType)
    (levels : List ImportLevel) (name : String) (arity : Option Nat) :
    (ds.mapTypes f).lookupSimple typeParams (chain.map f) levels name arity
      = (ds.lookupSimple typeParams chain levels name arity).map f := by
  unfold lookupSimple
  rw [simpleWithin_mapTypes hf, simpleFrom_mapTypes hf]
  split
  · rfl
  · cases ds.simpleWithin name arity chain with
    | some look => rfl
    | none => rfl

theorem lookupQualified_mapTypes (typeParams : List String) (chain : List DeclaredType)
    (levels : List ImportLevel) (parts : List String) (arity : Option Nat) :
    (ds.mapTypes f).lookupQualified typeParams (chain.map f) levels parts arity
      = (ds.lookupQualified typeParams chain levels parts arity).map f :=
  qualifiedFrom_mapTypes hf ds levels (lookupSimple_mapTypes hf ds typeParams chain levels) parts
    arity

theorem staticImports_mapTypes (levels : List ImportLevel) :
    (ds.mapTypes f).staticImports levels = (ds.staticImports levels).map f := by
  induction levels with
  | nil => rfl
  | cons level outer ih =>
    rw [staticImports, staticImports, ih, map_append, map_filterMap]
    refine congrArg (List.filterMap · _ ++ _) (funext fun u => ?_)
    have hlook := lookupQualified_mapTypes hf ds [] [] (orRoot outer) u.target.parts
      (some u.target.args.length)
    rw [map_nil] at hlook
    rw [hlook, TypeLookup.found_map, head?_map]

end Declarations

-- ===== other directives

theorem Text.splitAt_ne_nil (sep : Char) (text : String) : Text.splitAt sep text ≠ [] := by
  intro hnil
  exact splitOn_ne_nil _ _ (map_eq_nil_iff.1 hnil)

/-- The levels with other global directives in the file. -/
def levelsWith (globals : List UsingDirective) : List ImportLevel → List ImportLevel
  | [] => []
  | [file] => [⟨file.space, file.usings.filter (!·.isGlobal) ++ globals⟩]
  | level :: outer => level :: levelsWith globals outer

theorem levelsWith_cons (globals : List UsingDirective) (level : ImportLevel)
    {outer : List ImportLevel} (houter : outer ≠ []) :
    levelsWith globals (level :: outer) = level :: levelsWith globals outer := by
  cases outer with
  | nil => exact absurd rfl houter
  | cons next outer => rfl

theorem levelsWith_dropLast (globals : List UsingDirective) (levels : List ImportLevel) :
    (levelsWith globals levels).dropLast = levels.dropLast := by
  induction levels with
  | nil => rfl
  | cons level outer ih =>
    cases outer with
    | nil => rfl
    | cons next outer =>
      have hne : levelsWith globals (next :: outer) ≠ [] := by
        cases outer with
        | nil => nofun
        | cons last outer => nofun
      rw [levelsWith_cons globals level (by nofun), dropLast_cons_of_ne_nil hne, ih]
      rfl

/-- What a namespace sees beside global directives is the same. -/
theorem importsSeen_levelsWith {globals : List UsingDirective}
    (hglobals : ∀ u ∈ globals, u.isGlobal = true) (levels : List ImportLevel) :
    importsSeen (levelsWith globals levels) = importsSeen levels := by
  have hown : ∀ usings : List UsingDirective,
      ((usings.map Import.ofDirective).filter (!·.isGlobal))
        = (usings.filter (!·.isGlobal)).map Import.ofDirective :=
    fun usings => filter_map
  unfold importsSeen
  rw [hown, hown]
  refine congrArg _ ?_
  induction levels with
  | nil => rfl
  | cons level outer ih =>
    cases outer with
    | nil =>
      have hnone : globals.filter (!·.isGlobal) = [] :=
        filter_eq_nil_iff.2 fun u hu => by simp [hglobals u hu]
      simp [levelsWith, hnone]
    | cons next outer =>
      rw [levelsWith_cons globals level (by nofun), reverse_cons, reverse_cons,
        flatMap_append, flatMap_append, filter_append, filter_append, ih]

mutual

/-- The type with other global directives for the projects. -/
def DeclaredType.withGlobals (globals : String → List UsingDirective) :
    DeclaredType → DeclaredType
  | { number, decl, qualifiedName, space, outer, levels, project, file } =>
    { number, decl, qualifiedName, space, project, file, outer := withGlobalsAll globals outer,
      levels := levelsWith (globals project) levels }
termination_by structural t => t

/-- The types with other global directives for the projects. -/
def DeclaredType.withGlobalsAll (globals : String → List UsingDirective) :
    List DeclaredType → List DeclaredType
  | [] => []
  | t :: ts => t.withGlobals globals :: withGlobalsAll globals ts
termination_by structural ts => ts

end

namespace DeclaredType

variable (globals : String → List UsingDirective) (t : DeclaredType)

theorem withGlobalsAll_eq_map (ts : List DeclaredType) :
    withGlobalsAll globals ts = ts.map (withGlobals globals) := by
  induction ts with
  | nil => rfl
  | cons t ts ih => exact congrArg (t.withGlobals globals :: ·) ih

theorem withGlobals_eq : t.withGlobals globals
    = { t with outer := t.outer.map (withGlobals globals),
               levels := levelsWith (globals t.project) t.levels } := by
  rw [← withGlobalsAll_eq_map]
  cases t
  rfl

theorem keepsNames_withGlobals : KeepsNames (withGlobals globals) where
  qualifiedName t := by rw [withGlobals_eq]
  decl t := by rw [withGlobals_eq]

theorem withGlobals_chain :
    (t.withGlobals globals).chain = t.chain.map (withGlobals globals) := by
  rw [chain, chain, map_cons]
  refine congrArg (t.withGlobals globals :: ·) ?_
  rw [withGlobals_eq]

end DeclaredType

namespace Place

variable (globals : String → List UsingDirective) (p : Place)

/-- The place with other global directives for the projects. -/
def withGlobals : Place :=
  { p with levels := levelsWith (globals p.project) p.levels }

theorem withGlobals_declare (outer : List DeclaredType) (number : Nat) (d : TypeDecl) :
    (p.declare outer number d).withGlobals globals
      = (p.withGlobals globals).declare (outer.map (·.withGlobals globals)) number d := by
  rw [DeclaredType.withGlobals_eq]
  cases outer with
  | nil => rfl
  | cons parent outer =>
    have hname := (DeclaredType.keepsNames_withGlobals globals).qualifiedName parent
    simp only [declare, map_cons, head?_cons, Option.map_some, hname]
    rfl

variable {p}

theorem withGlobals_withinAll (hp : p.levels ≠ []) (usings : List UsingDirective)
    (parts : List String) :
    (p.withinAll usings parts).withGlobals globals
      = (p.withGlobals globals).withinAll usings parts := by
  have hwithin : ∀ {p : Place} (part : String) (usings : List UsingDirective), p.levels ≠ [] →
      (p.within part usings).withGlobals globals = (p.withGlobals globals).within part usings := by
    intro p part usings hp
    simp only [within, withGlobals, levelsWith_cons _ _ hp]
  induction parts generalizing p with
  | nil => rfl
  | cons part parts ih =>
    cases parts with
    | nil => exact hwithin part usings hp
    | cons next parts =>
      have hnext := ih (p := p.within part []) (cons_ne_nil _ _)
      rw [hwithin part [] hp] at hnext
      exact hnext

theorem levels_inside (hp : p.levels ≠ []) (n : NamespaceDecl) : (p.inside n).levels ≠ [] := by
  have hall : ∀ (parts : List String) {p : Place}, p.levels ≠ [] →
      (p.withinAll n.usings parts).levels ≠ [] := by
    intro parts
    induction parts with
    | nil => exact fun hp => hp
    | cons part parts ih =>
      intro p hp
      cases parts with
      | nil => exact cons_ne_nil _ _
      | cons next parts => exact ih (p := p.within part []) (cons_ne_nil _ _)
  exact hall _ hp

end Place

-- ===== declaring

namespace Declarations

variable (globals : String → List UsingDirective) (ds : Declarations) (p : Place)

/-- The declarations with other global directives for the projects. -/
def withGlobals : Declarations :=
  ds.mapTypes (·.withGlobals globals)

theorem withGlobals_addTypes {outer : List DeclaredType} {more : List TypeDecl}
    (hmore : ∀ d ∈ more, ∀ ds : Declarations, (ds.addType p outer d).withGlobals globals
      = (ds.withGlobals globals).addType (p.withGlobals globals)
          (outer.map (·.withGlobals globals)) d) :
    (ds.addTypes p outer more).withGlobals globals
      = (ds.withGlobals globals).addTypes (p.withGlobals globals)
          (outer.map (·.withGlobals globals)) more := by
  induction more generalizing ds with
  | nil => rfl
  | cons d more ih =>
    rw [addTypes, addTypes, ih _ fun e he => hmore e (mem_cons_of_mem _ he),
      hmore d mem_cons_self]

theorem withGlobals_addType (d : TypeDecl) : ∀ (outer : List DeclaredType) (ds : Declarations),
    (ds.addType p outer d).withGlobals globals
      = (ds.withGlobals globals).addType (p.withGlobals globals)
          (outer.map (·.withGlobals globals)) d := by
  induction d using TypeDecl.inductionNested with
  | step d ih =>
    intro outer ds
    have hlength : (ds.withGlobals globals).types.length = ds.types.length := length_map _
    rw [addType_eq, addType_eq, withGlobals_addTypes globals _ p fun e he ds => ih e he _ ds,
      hlength, map_cons, Place.withGlobals_declare]
    refine congrArg (addTypes _ _ · d.nested) ?_
    simp only [withGlobals, mapTypes, map_append, map_cons, map_nil,
      Place.withGlobals_declare]

theorem conflict?_withGlobals (t : DeclaredType) :
    (ds.withGlobals globals).conflict? (t.withGlobals globals)
      = (ds.conflict? t).map (·.withGlobals globals) := by
  have hname := (DeclaredType.keepsNames_withGlobals globals).qualifiedName t
  have hnamed := named_mapTypes (DeclaredType.keepsNames_withGlobals globals) ds t.qualifiedName
  have hunit : (ds.withGlobals globals).hasUnit t.qualifiedName = ds.hasUnit t.qualifiedName := by
    unfold hasUnit withGlobals
    rw [hnamed, any_map]
    refine congrArg (List.any _) (funext fun t => ?_)
    rw [Function.comp_apply, DeclaredType.withGlobals_eq]
    exact isEmpty_map
  have hfits : ∀ first : DeclaredType,
      compatible (first.withGlobals globals) (t.withGlobals globals) = compatible first t := by
    intro first
    rw [DeclaredType.withGlobals_eq, DeclaredType.withGlobals_eq]
    rfl
  unfold conflict?
  rw [hname, hunit]
  split
  · unfold withGlobals
    rw [hnamed, find?_map]
    refine congrArg (Option.map _) (congrArg (List.find? · _) (funext fun first => ?_))
    exact congrArg (!·) (hfits first)
  · rfl

theorem withGlobals_addUnit (d : TypeDecl) : (ds.addUnit p d).withGlobals globals
    = (ds.withGlobals globals).addUnit (p.withGlobals globals) d := by
  have hlength : (ds.withGlobals globals).types.length = ds.types.length := length_map _
  have hdeclare : (p.withGlobals globals).declare [] ds.types.length d
      = (p.declare [] ds.types.length d).withGlobals globals :=
    (p.withGlobals_declare globals [] _ d).symm
  unfold addUnit
  dsimp only
  rw [hlength, hdeclare, conflict?_withGlobals]
  cases ds.conflict? (p.declare [] ds.types.length d) with
  | none => exact withGlobals_addType globals p d [] ds
  | some first =>
    dsimp only [Option.map_some]
    rw [DeclaredType.withGlobals_eq, DeclaredType.withGlobals_eq]
    rfl

theorem withGlobals_addUnits (units : List TypeDecl) :
    (units.foldl (addUnit p) ds).withGlobals globals
      = units.foldl (addUnit (p.withGlobals globals)) (ds.withGlobals globals) := by
  induction units generalizing ds with
  | nil => rfl
  | cons d units ih =>
    rw [foldl_cons, foldl_cons, ih, withGlobals_addUnit]

theorem withGlobals_addSpaces :
    (ds.addSpaces p).withGlobals globals
      = (ds.withGlobals globals).addSpaces (p.withGlobals globals) := by
  unfold addSpaces Place.withGlobals
  rw [levelsWith_dropLast]
  rfl

variable {globals} (hglobals : ∀ project, ∀ u ∈ globals project, u.isGlobal = true)
include hglobals

theorem withGlobals_addImports :
    (ds.addImports p).withGlobals globals
      = (ds.withGlobals globals).addImports (p.withGlobals globals) := by
  unfold addImports Place.withGlobals
  rw [importsSeen_levelsWith (hglobals p.project)]
  rfl

variable {p} (hp : p.levels ≠ [])

omit hglobals in
theorem withGlobals_addSpaceList {spaces : List NamespaceDecl}
    (hspaces : ∀ n ∈ spaces, ∀ ds : Declarations, (ds.addSpace p n).withGlobals globals
      = (ds.withGlobals globals).addSpace (p.withGlobals globals) n) :
    (ds.addSpaceList p spaces).withGlobals globals
      = (ds.withGlobals globals).addSpaceList (p.withGlobals globals) spaces := by
  induction spaces generalizing ds with
  | nil => rfl
  | cons n spaces ih =>
    rw [addSpaceList, addSpaceList, ih _ fun o ho => hspaces o (mem_cons_of_mem _ ho),
      hspaces n mem_cons_self]

theorem withGlobals_addSpace (n : NamespaceDecl) :
    ∀ {p : Place}, p.levels ≠ [] → ∀ ds : Declarations, (ds.addSpace p n).withGlobals globals
      = (ds.withGlobals globals).addSpace (p.withGlobals globals) n := by
  induction n using NamespaceDecl.inductionInside with
  | step n ih =>
    intro p hp ds
    have hinside : (p.inside n).withGlobals globals = (p.withGlobals globals).inside n :=
      Place.withGlobals_withinAll globals hp n.usings _
    rw [addSpace_eq, addSpace_eq,
      withGlobals_addSpaceList _ fun o ho ds => ih o ho (Place.levels_inside hp n) ds,
      withGlobals_addUnits, withGlobals_addImports _ _ hglobals, withGlobals_addSpaces, hinside]

/-- A document declares the same, whatever the global directives of the projects are. -/
theorem withGlobals_addDocument {given : List UsingDirective}
    (hgiven : ∀ u ∈ given, u.isGlobal = true) (doc : Document) :
    (ds.addDocument given doc).withGlobals globals
      = (ds.withGlobals globals).addDocument (globals doc.project.name) doc := by
  have hplace : (doc.place given).withGlobals globals
      = doc.place (globals doc.project.name) := by
    have hnone : given.filter (!·.isGlobal) = [] :=
      filter_eq_nil_iff.2 fun u hu => by simp [hgiven u hu]
    simp [Document.place, Place.withGlobals, levelsWith, hnone]
  have himports : (if doc.source.types.isEmpty then ds
        else ds.addImports (doc.place given)).withGlobals globals
      = if doc.source.types.isEmpty then ds.withGlobals globals
        else (ds.withGlobals globals).addImports (doc.place (globals doc.project.name)) := by
    rw [← hplace]
    split
    · rfl
    · exact withGlobals_addImports ds _ hglobals
  have hfile : (doc.place given).levels ≠ [] := cons_ne_nil _ _
  show (addSpaceList (doc.place given) (doc.source.types.foldl (addUnit (doc.place given))
    (if doc.source.types.isEmpty then ds else ds.addImports (doc.place given)))
    doc.source.namespaces).withGlobals globals = _
  rw [withGlobals_addSpaceList _ fun n _ ds => withGlobals_addSpace hglobals n hfile ds,
    withGlobals_addUnits, himports, hplace]
  rfl

end Declarations

end SourceBundle
