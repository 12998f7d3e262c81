/-
Looking up types by name. A simple name is looked for from the inside
out: the type parameters of the member, then of each type around the
place along with the types nested in it, then the namespaces around it
with their aliases and using directives. Several types found through
the directives of one level cannot be told apart.
-/
import SourceBundle.Binding.Declarations

namespace SourceBundle

/-- What a type name stands for: a type parameter, or some types, of which there may be none. -/
inductive TypeLookup where
  | typeParam
  | types (found : List DeclaredType)

namespace TypeLookup

def found : TypeLookup → List DeclaredType
  | typeParam => []
  | types found => found

/-- At most one type. -/
def ofOption (t : Option DeclaredType) : TypeLookup :=
  .types t.toList

end TypeLookup

/-- The levels of a place that sees no directive. -/
def rootLevels : List ImportLevel := [⟨"", []⟩]

/-- The levels, or those of a place that sees no directive. -/
def orRoot (levels : List ImportLevel) : List ImportLevel :=
  if levels.isEmpty then rootLevels else levels

namespace Declarations

-- ===== by full name

/-- The type of a qualified name, with this number of type parameters if there is such a one. -/
def typeNamed (ds : Declarations) (name : String) (arity : Option Nat) : Option DeclaredType :=
  let all := ds.named name
  (arity.bind fun n => all.find? (·.arity = n)) <|> all.head?

/-- The type nested in another. -/
def nestedType (ds : Declarations) (t : DeclaredType) (name : String) (arity : Option Nat) :
    Option DeclaredType :=
  ds.typeNamed (t.qualifiedName ++ "." ++ name) arity

/-- The type nested in another along a path; the number of type parameters is that of the last
part. -/
def nestedAlong (ds : Declarations) (arity : Option Nat) :
    DeclaredType → List String → Option DeclaredType
  | t, [] => some t
  | t, [part] => ds.nestedType t part arity
  | t, part :: parts => do ds.nestedAlong arity (← ds.nestedType t part none) parts

-- ===== by dotted name

/-- The type of a full name in the innermost of the namespaces that has one. -/
def typeInSpaces (ds : Declarations) (levels : List ImportLevel) (parts : List String)
    (arity : Option Nat) : Option DeclaredType :=
  levels.findSome? fun level =>
    ds.typeNamed (Text.dotted level.space (".".intercalate parts)) arity

/-- The type that the rest of a name leads to from the target of an alias. -/
def typeBehindAlias (ds : Declarations) (levels : List ImportLevel) (head : String)
    (rest : List String) (arity : Option Nat) : Option DeclaredType :=
  levels.findSome? fun level => level.usings.findSome? fun u =>
    if u.aliasName = some head && !u.isStatic then
      ds.typeNamed (Text.dotted u.target.name (".".intercalate rest)) arity
    else none

/-- A dotted name looked up from some levels, where `simple` looks up a name without dots: the
full name in one of the namespaces, then behind an alias, then as a path of nested types. -/
def qualifiedFrom (ds : Declarations) (levels : List ImportLevel)
    (simple : String → Option Nat → TypeLookup) (parts : List String) (arity : Option Nat) :
    TypeLookup :=
  match parts with
  | [] => .types []
  | [name] => simple name arity
  | head :: rest =>
    .ofOption
      (ds.typeInSpaces levels parts arity <|> ds.typeBehindAlias levels head rest arity <|>
        (simple head none).found.head?.bind (ds.nestedAlong arity · rest))

-- ===== by simple name

/-- A simple name looked up at a place that sees no directive. -/
def simpleAtRoot (ds : Declarations) (name : String) (arity : Option Nat) : TypeLookup :=
  .ofOption (ds.typeNamed name arity)

/-- The types that the plain directives of a level lead to, one for each qualified name. -/
def importedTypes (ds : Declarations) (level : ImportLevel) (name : String) (arity : Option Nat) :
    List DeclaredType :=
  let plain := level.usings.filter fun u => !u.isStatic && u.aliasName.isNone
  Text.distinctBy DeclaredType.qualifiedName
    (plain.filterMap fun u => ds.typeNamed (Text.dotted u.target.name name) arity)

/-- A simple name looked up from some levels. The target of an alias is looked up from the levels
around the one that it stands in. -/
def simpleFrom (ds : Declarations) : List ImportLevel → String → Option Nat → TypeLookup
  | [], _, _ => .types []
  | level :: outer, name, arity =>
    let target (u : UsingDirective) : Option DeclaredType :=
      let look :=
        if outer.isEmpty || u.target.qualifier.isSome then
          ds.qualifiedFrom rootLevels ds.simpleAtRoot u.target.parts (some u.target.args.length)
        else
          ds.qualifiedFrom outer (ds.simpleFrom outer) u.target.parts (some u.target.args.length)
      look.found.head?
    let own := ds.typeNamed (Text.dotted level.space name) arity
    let aliased := level.usings.findSome? fun u =>
      if u.aliasName = some name && !u.isStatic then target u else none
    match own <|> aliased with
    | some t => .types [t]
    | none =>
      match ds.importedTypes level name arity with
      | [] => ds.simpleFrom outer name arity
      | found => .types found

/-- A simple name looked up inside types, innermost first: as a type parameter or a nested type. -/
def simpleWithin (ds : Declarations) (name : String) (arity : Option Nat) :
    List DeclaredType → Option TypeLookup
  | [] => none
  | t :: outer =>
    if t.decl.typeParams.contains name then some .typeParam
    else
      match ds.nestedType t name arity with
      | some found => some (.types [found])
      | none => ds.simpleWithin name arity outer

-- ===== from a place

/-- A simple name looked up from a member's type parameters, the types around a place and its
levels. -/
def lookupSimple (ds : Declarations) (typeParams : List String) (chain : List DeclaredType)
    (levels : List ImportLevel) (name : String) (arity : Option Nat) : TypeLookup :=
  if typeParams.contains name then .typeParam
  else (ds.simpleWithin name arity chain).getD (ds.simpleFrom levels name arity)

/-- A dotted name looked up from a member's type parameters, the types around a place and its
levels. -/
def lookupQualified (ds : Declarations) (typeParams : List String) (chain : List DeclaredType)
    (levels : List ImportLevel) (parts : List String) (arity : Option Nat) : TypeLookup :=
  ds.qualifiedFrom levels (ds.lookupSimple typeParams chain levels) parts arity

/-- The types whose static members are imported at some levels, innermost first. -/
def staticImports (ds : Declarations) : List ImportLevel → List DeclaredType
  | [] => []
  | level :: outer =>
    let found := (level.usings.filter (·.isStatic)).filterMap fun u =>
      (ds.lookupQualified [] [] (orRoot outer) u.target.parts
        (some u.target.args.length)).found.head?
    found ++ ds.staticImports outer

/-- The declared namespace that a simple name stands for. -/
def spaceNamed (ds : Declarations) (name : String) (levels : List ImportLevel) : Option String :=
  levels.findSome? fun level =>
    let own := Text.dotted level.space name
    if ds.spaces.contains own then some own
    else
      (level.usings.find? fun u =>
        u.aliasName = some name && !u.isStatic && ds.spaces.contains u.target.name).map
        (·.target.name)

end Declarations

end SourceBundle
