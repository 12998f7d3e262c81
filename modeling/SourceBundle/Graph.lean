/-
A service over a declared graph: units with the names they refer to,
and tables that say what a name stands for. It answers like a language
without a source text, which shows the bundling core by itself.
-/
import SourceBundle.Bundle.Render

namespace SourceBundle

/-- How a unit of a graph refers to a target. -/
inductive GraphRef where
  | call (target : String)
  | creation (target : String)
  | access (target : String)
  /-- A call of the result of a call of the target; only the inner one refers to it. -/
  | outer (target : String)
deriving DecidableEq, Repr

/-- A unit of a graph. The text defaults to an empty declaration. -/
structure GraphUnit where
  name : String
  refs : List GraphRef := []
  kind : UnitKind := .typeLike
  keyword : Option String := none
  text : Option String := none
  file : Option String := none
  imports : List Import := []

/-- What a name stands for, if not the unit of that name. -/
inductive GraphAnswer where
  | nothing
  | unknown (reason : String) (name : Option String)
  | several (candidates : List String) (name : Option String)

structure Graph where
  units : List GraphUnit
  answers : List (String × GraphAnswer) := []
  imports : List (String × List Import) := []
  globalImports : List Import := []
  /-- Units whose enclosing namespace is another, or none. -/
  moved : List (String × Option String) := []
  /-- Units that a stranger of the same name is found in place of. -/
  impostors : List String := []

namespace TypeKeyword

def ofText? (text : String) : Option TypeKeyword :=
  [classType, structType, interfaceType, enumType, record, recordStruct, delegateType].find?
    (·.text = text)

end TypeKeyword

namespace GraphRef

def expression (r : GraphRef) : Expr :=
  let mark : Mark := ⟨none, 0⟩
  match r with
  | call x => .call mark (.ident mark x [] none) []
  | creation x => .creation mark (some { name := x }) [] []
  | access x => .member mark (.ident mark "x" [] none) x [] false
  | outer x => .call mark (.call mark (.ident mark x [] none) []) []

end GraphRef

namespace GraphUnit

/-- The word that declares the unit. -/
def word (u : GraphUnit) : String :=
  u.keyword.getD (if u.kind = .enumLike then "enum" else "class")

/-- The unit at a place of the graph. A word that is no keyword declares nothing that can be a
root. -/
def toUnit (u : GraphUnit) (i : Nat) : TypeUnit :=
  let name := (Text.splitLast u.name).2
  let text := u.text.getD (u.word ++ " " ++ name ++ " \x7b \x7d")
  let body : MemberDecl := { kind := .method, name := "M", body := u.refs.map GraphRef.expression }
  let decl : TypeDecl :=
    { keyword := (TypeKeyword.ofText? u.word).getD .delegateType, name, members := [body], text,
      span := default, dotless := Text.dotless_splitLast u.name }
  { key := i, space := (Text.splitLast u.name).1, name, kind := u.kind, parts := [⟨decl, u.file⟩],
    imports := u.imports, order := i, dotless := decl.dotless }

end GraphUnit

namespace Graph

def typeUnits (g : Graph) : List TypeUnit :=
  g.units.mapIdx fun i u => u.toUnit i

def find? (g : Graph) (name : String) : Option TypeUnit :=
  g.typeUnits.find? (·.qualifiedName = name)

/-- The stranger that is found in place of a unit. -/
def impostor (g : Graph) (u : TypeUnit) : TypeUnit :=
  let decl : TypeDecl :=
    { keyword := .classType, name := u.name, text := "class Impostor \x7b \x7d", span := default,
      dotless := u.dotless }
  { u with
    key := g.units.length + u.key, kind := .typeLike, parts := [⟨decl, none⟩], imports := [] }

/-- The symbol of a name: the unit's, or one from outside. -/
def symbol (g : Graph) (name : String) : Symbol :=
  match g.find? name with
  | some u => { name, kind := .type, container := some u.key }
  | none => .external name

/-- What a target stands for. -/
def lookup (g : Graph) (target : String) : Option Resolution :=
  match g.answers.lookup target with
  | none => some (.resolved (g.symbol target))
  | some .nothing => none
  | some (.unknown reason name) => some (.unresolved (name.getD target) reason)
  | some (.several candidates name) =>
    some (.ambiguous (name.getD target) (candidates.map g.symbol))

/-- The target that an expression of a graph names. -/
def target? : Expr → Option String
  | .call _ (.ident _ x ..) _ => some x
  | .creation _ type .. => type.map (·.name)
  | .member _ _ x .. => some x
  | _ => none

def declaringUnit (g : Graph) (s : Symbol) : Option TypeUnit := do
  let key ← s.container
  let u ← g.typeUnits[key]?
  return if g.impostors.contains u.qualifiedName then g.impostor u else u

theorem find?_named {g : Graph} {name : String} {u : TypeUnit} (hu : g.find? name = some u) :
    u.qualifiedName ∈ g.typeUnits.map (·.qualifiedName) :=
  List.mem_map_of_mem (List.mem_of_find?_eq_some hu)

theorem impostor_qualifiedName (g : Graph) (u : TypeUnit) :
    (g.impostor u).qualifiedName = u.qualifiedName := rfl

theorem declaringUnit_named {g : Graph} {s : Symbol} {u : TypeUnit}
    (hu : g.declaringUnit s = some u) : u.qualifiedName ∈ g.typeUnits.map (·.qualifiedName) := by
  obtain ⟨key, -, hu⟩ := Option.bind_eq_some_iff.1 hu
  obtain ⟨v, hv, hu⟩ := Option.bind_eq_some_iff.1 hu
  cases hu
  have hmem := List.mem_map_of_mem (f := (·.qualifiedName)) (List.mem_of_getElem? hv)
  split
  · rw [impostor_qualifiedName]
    exact hmem
  · exact hmem

/-- Whether a namespace is one of a unit or around one. -/
def declaresSpace (g : Graph) (space : String) : Bool :=
  g.typeUnits.any fun u => u.space = space || (space ++ ".").isPrefixOf u.space

/-- The service of a graph, which counts how often it is asked about an expression. `count` tells
the monad of a question. -/
def service {m : Type → Type} [Monad m] (g : Graph) (count : m Unit) : Service m where
  names := g.typeUnits.map (·.qualifiedName)
  findUnit space name := g.find? (Text.dotted space name)
  resolve e := do
    count
    return (target? e).bind g.lookup
  declaringUnit := g.declaringUnit
  enclosingSpace u := (g.moved.lookup u.qualifiedName).getD (some u.space)
  importsOf space := (g.imports.lookup space).getD []
  unitsIn space := g.typeUnits.filter (·.space = space)
  declaresSpace := g.declaresSpace
  globalImports := g.globalImports
  findUnit_named := find?_named
  declaringUnit_named := declaringUnit_named
  unitsIn_named hu := List.mem_map_of_mem (List.mem_filter.1 hu).1

end Graph

end SourceBundle
