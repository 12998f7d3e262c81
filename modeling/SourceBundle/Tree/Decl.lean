/-
Declarations: the types, members, parameters, locals, namespaces and
using directives of a source file.
-/
import SourceBundle.Text.Dotted
import SourceBundle.Tree.Expr

namespace SourceBundle

-- ===== using directives

/-- A using directive: of a namespace, of a type's static members, or an alias. -/
structure UsingDirective where
  target : TypeRef
  aliasName : Option String := none
  isStatic : Bool := false
  isGlobal : Bool := false
  span : Option Span := none
deriving Repr, Inhabited

-- ===== parameters and locals

/-- The word before a parameter. -/
inductive ParamModifier where
  | byRef
  | output
  | input
  | variadic
  | receiver
  | confined
  | readOnly
deriving DecidableEq, Repr

def ParamModifier.text : ParamModifier → String
  | byRef => "ref"
  | output => "out"
  | input => "in"
  | variadic => "params"
  | receiver => "this"
  | confined => "scoped"
  | readOnly => "readonly"

/-- A parameter; of several modifiers the last one counts. -/
structure Param where
  name : String
  type : TypeRef
  modifier : Option ParamModifier := none
  default : List Expr := []
  span : Span
deriving Repr, Inhabited

/-- Whether a parameter takes all arguments from its place on. -/
def Param.isVariadic (p : Param) : Bool :=
  p.modifier = some .variadic

/-- Whether a parameter may be left out. -/
def Param.hasDefault (p : Param) : Bool :=
  !p.default.isEmpty

/-- A variable declared inside a body. It has no type if declared with `var` or as an untyped
lambda parameter; `init` is its initializer, or the collection a `foreach` goes over. -/
structure LocalDecl where
  name : String
  type : Option TypeRef
  init : Option Expr := none
  isForeach : Bool := false
  isLambda : Bool := false
  /-- The name that an untyped lambda parameter is declared by. -/
  declarator : Option Expr := none
  span : Option Span
deriving Repr, Inhabited

-- ===== members

/-- What a member is. -/
inductive MemberKind where
  | field
  | property
  | method
  | constructor
  | destructor
  | operator
  | conversion
  | indexer
  | event
  | enumMember
deriving DecidableEq, Repr, Inhabited

def MemberKind.name : MemberKind → String
  | field => "FIELD"
  | property => "PROPERTY"
  | method => "METHOD"
  | constructor => "CONSTRUCTOR"
  | destructor => "DESTRUCTOR"
  | operator => "OPERATOR"
  | conversion => "CONVERSION"
  | indexer => "INDEXER"
  | event => "EVENT"
  | enumMember => "ENUM_MEMBER"

/-- A member: `type` is what a field holds or a method gives back; the body also holds
initializers. -/
structure MemberDecl where
  kind : MemberKind
  name : String
  type : Option TypeRef := none
  params : List Param := []
  typeParams : List String := []
  modifiers : List String := []
  body : List Expr := []
  locals : List LocalDecl := []
  span : Option Span := none
deriving Repr, Inhabited

/-- Whether a member belongs to the type and not to its values. -/
def MemberDecl.isStatic (m : MemberDecl) : Bool :=
  m.modifiers.contains "static" || m.modifiers.contains "const"

-- ===== types

/-- The word that declares a type. -/
inductive TypeKeyword where
  | classType
  | structType
  | interfaceType
  | enumType
  | record
  | recordStruct
  | delegateType
deriving DecidableEq, Repr, Inhabited

def TypeKeyword.text : TypeKeyword → String
  | classType => "class"
  | structType => "struct"
  | interfaceType => "interface"
  | enumType => "enum"
  | record => "record"
  | recordStruct => "record struct"
  | delegateType => "delegate"

/-- A type declaration. `params` are those of a primary constructor, `baseArgs` what it hands to
the base type, and `text` is the declaration word for word. The name has no dot. -/
structure TypeDecl where
  keyword : TypeKeyword
  name : String
  typeParams : List String := []
  baseTypes : List TypeRef := []
  members : List MemberDecl := []
  nested : List TypeDecl := []
  modifiers : List String := []
  params : List Param := []
  baseArgs : List Expr := []
  span : Span
  text : String := ""
  dotless : Text.Dotless name
deriving Repr

def TypeDecl.isEnum (d : TypeDecl) : Bool :=
  d.keyword = .enumType

-- ===== namespaces and files

/-- A namespace declaration, with its members between braces or up to the end of the file. -/
structure NamespaceDecl where
  name : String
  usings : List UsingDirective := []
  types : List TypeDecl := []
  namespaces : List NamespaceDecl := []
  isFileScoped : Bool := false
  span : Span
deriving Repr

structure SourceFile where
  usings : List UsingDirective
  types : List TypeDecl
  namespaces : List NamespaceDecl
  span : Span
deriving Repr

end SourceBundle
