/-
Units: the namespace-level types that a bundle is made of. A unit is
all declarations of one name in one namespace: the parts of a partial
type, and variants with other numbers of type parameters. Nested types
belong to the unit around them.
-/
import SourceBundle.Import
import SourceBundle.Text.Distinct
import SourceBundle.Text.Dotted

namespace SourceBundle

/-- The two sorts of units: enums refer to nothing. -/
inductive UnitKind where
  | typeLike
  | enumLike
deriving DecidableEq, Repr, Inhabited

def UnitKind.name : UnitKind → String
  | typeLike => "CLASS"
  | enumLike => "ENUM"

/-- A declaration of a unit and the file it stands in. -/
structure UnitPart where
  decl : TypeDecl
  file : Option String
deriving Repr

/-- A unit. The key tells apart two units that share a name. The name has no dot. -/
structure TypeUnit where
  key : Nat
  space : String
  name : String
  kind : UnitKind
  parts : List UnitPart
  /-- The directives seen from its declarations, outermost first. -/
  imports : List Import
  /-- Its place in the order of declaration. -/
  order : Nat
  dotless : Text.Dotless name
deriving Repr

namespace TypeUnit

/-- The name behind its namespace. -/
def qualifiedName (u : TypeUnit) : String :=
  Text.dotted u.space u.name

def isEnum (u : TypeUnit) : Bool :=
  u.kind = .enumLike

/-- The keyword of the first declaration. -/
def keyword (u : TypeUnit) : TypeKeyword :=
  (u.parts.head?.map (·.decl.keyword)).getD .classType

def files (u : TypeUnit) : List String :=
  Text.distinct (u.parts.filterMap (·.file))

/-- The declarations word for word. -/
def text (u : TypeUnit) : String :=
  "\n\n".intercalate (u.parts.map (·.decl.text))

end TypeUnit

end SourceBundle
