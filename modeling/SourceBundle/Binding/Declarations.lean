/-
The declarations of a workspace: every type with the names it is known
by and the using directives that are seen from it, and the namespaces.

Declarations of one name that share a number of type parameters are
parts of one type if all are partial and belong to one project; any
other later declaration of the name is left out with a warning, and its
nested types with it.
-/
import SourceBundle.TypeUnit
import SourceBundle.Workspace

namespace SourceBundle

/-- A namespace around a declaration, with the using directives that stand in it. -/
structure ImportLevel where
  space : String
  usings : List UsingDirective := []
deriving Repr

/-- A type declaration of the workspace. Parts of a type share its qualified name. -/
structure DeclaredType where
  /-- Its place in the order of declaration. -/
  number : Nat
  decl : TypeDecl
  /-- Its name behind its namespace and the types around it. -/
  qualifiedName : String
  space : String
  /-- The types around it, innermost first. -/
  outer : List DeclaredType
  /-- The namespaces around it, innermost first; the last one is the file. -/
  levels : List ImportLevel
  project : String
  file : String
deriving Repr

namespace DeclaredType

/-- The type itself and the types around it. -/
def chain (t : DeclaredType) : List DeclaredType :=
  t :: t.outer

def parent (t : DeclaredType) : Option DeclaredType :=
  t.outer.head?

/-- The namespace-level type that it belongs to. -/
def outermost (t : DeclaredType) : DeclaredType :=
  t.outer.getLastD t

def arity (t : DeclaredType) : Nat :=
  t.decl.typeParams.length

/-- Whether it is declared as one of several parts. -/
def isPartial (t : DeclaredType) : Bool :=
  t.decl.modifiers.contains "partial"

/-- Whether it stands directly in a namespace. -/
def isTopLevel (t : DeclaredType) : Bool :=
  t.outer.isEmpty

end DeclaredType

/-- The directives of the levels, outermost first, that are not global. -/
def importsSeen (levels : List ImportLevel) : List Import :=
  ((levels.reverse.flatMap (·.usings)).map Import.ofDirective).filter (!·.isGlobal)

-- ===== places

/-- Where declarations are read: their file and project, and the namespaces around them. -/
structure Place where
  file : String
  project : String
  space : String := ""
  levels : List ImportLevel

namespace Place

/-- The place inside a namespace of one part. -/
def within (p : Place) (part : String) (usings : List UsingDirective) : Place :=
  let space := Text.dotted p.space part
  { p with space, levels := ⟨space, usings⟩ :: p.levels }

/-- The place inside a dotted namespace; the directives belong to its last part. -/
def withinAll (p : Place) (usings : List UsingDirective) : List String → Place
  | [] => p
  | [part] => p.within part usings
  | part :: parts => (p.within part []).withinAll usings parts

def inside (p : Place) (n : NamespaceDecl) : Place :=
  p.withinAll n.usings (Text.splitAt '.' n.name)

/-- The type that a declaration at this place declares, inside the types around it. -/
def declare (p : Place) (outer : List DeclaredType) (number : Nat) (d : TypeDecl) : DeclaredType :=
  let around := (outer.head?.map (·.qualifiedName)).getD p.space
  let qualifiedName := if outer.isEmpty then Text.dotted p.space d.name else around ++ "." ++ d.name
  { number, decl := d, qualifiedName, space := p.space, outer, levels := p.levels,
    project := p.project, file := p.file }

end Place

-- ===== declarations

/-- All declarations of a workspace, in order. -/
structure Declarations where
  types : List DeclaredType := []
  /-- The declared namespaces and those around them. -/
  spaces : List String := []
  /-- The directives that are seen from the declarations of a namespace. -/
  spaceImports : List (String × Import) := []
  /-- A warning for each declaration that was left out. -/
  duplicates : List Diagnostic := []

namespace Declarations

def named (ds : Declarations) (qualifiedName : String) : List DeclaredType :=
  ds.types.filter (·.qualifiedName = qualifiedName)

mutual

/-- Adds a type and those nested in it. -/
def addType (p : Place) (outer : List DeclaredType) (ds : Declarations) : TypeDecl → Declarations
  | d@{ nested, .. } =>
    let t := p.declare outer ds.types.length d
    addTypes p (t :: outer) { ds with types := ds.types ++ [t] } nested
termination_by structural d => d

def addTypes (p : Place) (outer : List DeclaredType) (ds : Declarations) :
    List TypeDecl → Declarations
  | [] => ds
  | d :: more => addTypes p outer (addType p outer ds d) more
termination_by structural more => more

end

/-- Whether a namespace-level type of this name is declared. -/
def hasUnit (ds : Declarations) (qualifiedName : String) : Bool :=
  (ds.named qualifiedName).any (·.isTopLevel)

/-- Whether two declarations of one name may stand side by side. -/
def compatible (a b : DeclaredType) : Bool :=
  a.arity ≠ b.arity || (a.isPartial && b.isPartial && a.project = b.project)

/-- The first declaration of the same name that another one may not join. -/
def conflict? (ds : Declarations) (t : DeclaredType) : Option DeclaredType :=
  if ds.hasUnit t.qualifiedName then (ds.named t.qualifiedName).find? (!compatible · t) else none

/-- The warning for a declaration that is left out because of an earlier one. -/
def duplicateWarning (t first : DeclaredType) : Diagnostic :=
  Diagnostic.atSpan
    { severity := .warning,
      message := "[WSP-0030] duplicate declaration of '" ++ t.qualifiedName ++ "' in project '"
        ++ t.project ++ "' ignored; first declared in project '" ++ first.project ++ "'",
      unit := some t.qualifiedName, file := some t.file } (some t.decl.span)

/-- Adds a namespace-level type, unless its name is taken. -/
def addUnit (p : Place) (ds : Declarations) (d : TypeDecl) : Declarations :=
  let t := p.declare [] ds.types.length d
  match ds.conflict? t with
  | some first => { ds with duplicates := ds.duplicates ++ [duplicateWarning t first] }
  | none => ds.addType p [] d

/-- Adds the directives that are seen from a place to its namespace. -/
def addImports (p : Place) (ds : Declarations) : Declarations :=
  { ds with spaceImports := ds.spaceImports ++ (importsSeen p.levels).map (p.space, ·) }

/-- Adds the namespaces around a place. -/
def addSpaces (p : Place) (ds : Declarations) : Declarations :=
  { ds with spaces := Text.distinct (ds.spaces ++ (p.levels.dropLast.map (·.space)).reverse) }

mutual

/-- Adds a namespace declaration. -/
def addSpace (p : Place) (ds : Declarations) : NamespaceDecl → Declarations
  | n@{ types, namespaces, .. } =>
    let p := p.inside n
    let ds := (ds.addSpaces p).addImports p
    addSpaceList p (types.foldl (addUnit p) ds) namespaces
termination_by structural n => n

def addSpaceList (p : Place) (ds : Declarations) : List NamespaceDecl → Declarations
  | [] => ds
  | n :: more => addSpaceList p (addSpace p ds n) more
termination_by structural more => more

end

/-- Adds the declarations of a document; `globals` are the global directives of its project. -/
def addDocument (globals : List UsingDirective) (ds : Declarations) (doc : Document) :
    Declarations :=
  let source := doc.source
  let usings := source.usings.filter (!·.isGlobal) ++ globals
  let p : Place :=
    { file := doc.path.text, project := doc.project.name, levels := [⟨"", usings⟩] }
  let ds := if source.types.isEmpty then ds else ds.addImports p
  addSpaceList p (source.types.foldl (addUnit p) ds) source.namespaces

end Declarations

-- ===== a workspace's

namespace Workspace

/-- The directive that an implicit using stands for. -/
def implicitUsing (space : String) : UsingDirective :=
  { target := { name := space }, isGlobal := true }

def projectNames (w : Workspace) : List String :=
  Text.distinct (w.projects.map (·.name) ++ w.documents.map (·.project.name))

/-- The global directives of the projects of a name: the implicit ones, then those that the
documents hold. -/
def globalUsings (w : Workspace) (project : String) : List UsingDirective :=
  let implicit := (w.projects.filter fun p => p.name = project && p.implicitUsings).flatMap
    fun _ => implicitNamespaces.map implicitUsing
  let written := (w.documents.filter (·.project.name = project)).flatMap
    fun d => d.source.usings.filter (·.isGlobal)
  implicit ++ written

/-- The global directives of all projects, each once. -/
def globalImports (w : Workspace) : List Import :=
  Text.distinct ((w.projectNames.flatMap w.globalUsings).map Import.ofDirective)

def declarations (w : Workspace) : Declarations :=
  w.documents.foldl (fun ds d => ds.addDocument (w.globalUsings d.project.name) d) {}

end Workspace

-- ===== units

namespace Declarations

/-- The unit that parts of one name make up. The first one says its kind. -/
def unitOf (order : Nat) (first : DeclaredType) (parts : List DeclaredType) : TypeUnit :=
  { key := order, space := first.space, name := first.decl.name,
    kind := if first.decl.isEnum then .enumLike else .typeLike,
    parts := parts.map fun t => ⟨t.decl, some t.file⟩,
    imports := Text.distinct (parts.flatMap fun t => importsSeen t.levels), order,
    dotless := first.decl.dotless }

/-- The units in order of their first declaration. -/
def units (ds : Declarations) : List TypeUnit :=
  let top := ds.types.filter (·.isTopLevel)
  (Text.distinctBy DeclaredType.qualifiedName top).mapIdx fun i first =>
    unitOf i first (top.filter (·.qualifiedName = first.qualifiedName))

/-- The directives that are seen from the declarations of a namespace, each once. -/
def importsOf (ds : Declarations) (space : String) : List Import :=
  Text.distinct ((ds.spaceImports.filter (·.1 = space)).map (·.2))

end Declarations

end SourceBundle
