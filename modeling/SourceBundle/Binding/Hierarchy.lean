/-
The hierarchy of declared types: bases, subtypes and inherited members.

A type reaches outside the sources if one of its bases is not declared,
and an enum or a record always does. The parts of a type share its name
and may differ in this last point (a type of another arity may be a
record), so what counts is the part that was asked about first. That is
the one thing that is remembered here.
-/
import SourceBundle.Binding.Site

namespace SourceBundle

/-- For each type that was asked about, whether the part that was asked about first reaches
outside by its own keyword. -/
abbrev BaseMemo := List (String × Bool)

/-- Whether a declaration reaches outside the sources by its keyword. -/
def DeclaredType.hasHiddenBase (t : DeclaredType) : Bool :=
  t.decl.isEnum || t.decl.keyword.isRecord

namespace Declarations

/-- The declared bases of a type, over all its parts, each once. -/
def basesOf (ds : Declarations) (name : String) : List DeclaredType :=
  let bases := (ds.writtenBases name).filterMap fun b => if b.isTypeParam then none else b.source
  Text.distinctBy DeclaredType.number (bases.filter (·.qualifiedName ≠ name))

/-- Whether some base of a type is not declared by the sources. -/
def hasForeignBase (ds : Declarations) (name : String) : Bool :=
  (ds.writtenBases name).any fun b => !b.isTypeParam && b.source.isNone

-- ===== lineage

/-- Takes types from a queue until one has not been seen, and goes on with `next` from it. -/
def lineageStep (ds : Declarations)
    (next : List DeclaredType → List String → List DeclaredType) :
    List DeclaredType → List String → List DeclaredType
  | [], _ => []
  | t :: queue, seen =>
    if seen.contains t.qualifiedName then ds.lineageStep next queue seen
    else t :: next (queue ++ ds.basesOf t.qualifiedName) (t.qualifiedName :: seen)

/-- At most `bound` types that a queue leads to through bases, nearest first. -/
def lineageWithin (ds : Declarations) :
    (bound : Nat) → List DeclaredType → List String → List DeclaredType
  | 0 => fun _ _ => []
  | bound + 1 => ds.lineageStep (ds.lineageWithin bound)

/-- A type and all its declared bases, nearest first, one for each qualified name. There are no
more of them than declared types. -/
def lineage (ds : Declarations) (t : DeclaredType) : List DeclaredType :=
  ds.lineageWithin (ds.types.length + 1) [t] []

-- ===== questions

/-- Asks for the bases of a type: whether one of them lies outside the sources. -/
def reachesOutside (ds : Declarations) (t : DeclaredType) : StateM BaseMemo Bool := do
  let own ← match (← get).lookup t.qualifiedName with
    | some own => pure own
    | none => do
      modify ((t.qualifiedName, t.hasHiddenBase) :: ·)
      pure t.hasHiddenBase
  return own || ds.hasForeignBase t.qualifiedName

/-- The base class of a type: the first base that is no interface. -/
def baseClass (ds : Declarations) (t : DeclaredType) : StateM BaseMemo (Option DeclaredType) := do
  let _ ← ds.reachesOutside t
  return (ds.basesOf t.qualifiedName).find? (·.decl.keyword ≠ .interfaceType)

/-- Whether a type of the given name is among some types. Those before it are asked for their
bases. -/
def findName (ds : Declarations) (name : String) : List DeclaredType → StateM BaseMemo Bool
  | [] => return false
  | t :: more => do
    if t.qualifiedName = name then return true
    else
      let _ ← ds.reachesOutside t
      ds.findName name more

/-- Whether a type is another or has it among its bases. -/
def isSubtype (ds : Declarations) (t base : DeclaredType) : StateM BaseMemo Bool :=
  ds.findName base.qualifiedName (ds.lineage t)

end Declarations

namespace Index

/-- The members of a name of the first of some types that has any, and whether one of the types
before it reaches outside the sources. -/
def findMembersIn (ix : Index) (name : String) :
    List DeclaredType → StateM BaseMemo (List MemberRef × Bool)
  | [] => return ([], false)
  | t :: more =>
    match ix.members.ofType t.qualifiedName name with
    | [] => do
      let outside ← ix.reachesOutside t
      let (refs, later) ← ix.findMembersIn name more
      return (refs, outside || later)
    | refs => return (refs, false)

/-- The members of a name that a type has or inherits, from the nearest type that has any, and
whether the hierarchy before it reaches outside the sources. -/
def findMembers (ix : Index) (t : DeclaredType) (name : String) :
    StateM BaseMemo (List MemberRef × Bool) :=
  ix.findMembersIn name (ix.lineage t)

/-- The type that indexing a value gives. -/
def indexedType (ix : Index) (t : BoundType) : Option BoundType :=
  if 0 < t.rank then t.element
  else
    match t.source with
    | some s =>
      match ix.members.indexerOf s.qualifiedName with
      | some r => ix.memberType r (some t)
      | none => ix.elementOf t
    | none =>
      match t.args with
      | [_, value] => if t.isMap then some value else t.element
      | _ => t.element

end Index

end SourceBundle
