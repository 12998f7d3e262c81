/-
The members of declared types, with those that a primary constructor
stands for: the constructor itself and, for a record, a property for
each parameter that no member is named after.
-/
import SourceBundle.Binding.BoundType
import SourceBundle.Symbol

namespace SourceBundle

/-- A member and the declaration it belongs to. -/
structure MemberRef where
  type : DeclaredType
  decl : MemberDecl
deriving Repr

-- ===== kinds

namespace MemberKind

/-- Whether members of a kind are reached by their name. -/
def isNamed : MemberKind → Bool
  | field | property | method | event | enumMember => true
  | constructor | destructor | operator | conversion | indexer => false

/-- The kind of symbol that a member is. -/
def symbolKind : MemberKind → SymbolKind
  | field => .field
  | property | indexer => .property
  | method | operator | conversion | destructor => .method
  | constructor => .constructor
  | event => .event
  | enumMember => .enumMember

end MemberKind

def TypeKeyword.isRecord : TypeKeyword → Bool
  | record | recordStruct => true
  | _ => false

namespace MemberRef

/-- The name of the type that has the member. -/
def owner (r : MemberRef) : String :=
  r.type.qualifiedName

/-- The types of the parameters as a name shows them. -/
def signature (r : MemberRef) : String :=
  "(" ++ ", ".intercalate (r.decl.params.map (·.type.text)) ++ ")"

def symbol (r : MemberRef) : Symbol :=
  let kind := r.decl.kind.symbolKind
  let name := r.owner ++ "." ++ r.decl.name
  { name := if kind = .method || kind = .constructor then name ++ r.signature else name, kind,
    container := some r.type.number }

/-- Whether a member is a method that is called as if it belonged to its first argument. -/
def isExtension (r : MemberRef) : Bool :=
  r.decl.kind = .method && r.type.isTopLevel && r.type.decl.modifiers.contains "static"
    && (r.decl.params.head?.bind (·.modifier)) = some .receiver

end MemberRef

namespace DeclaredType

def symbol (t : DeclaredType) : Symbol :=
  { name := t.qualifiedName, kind := .type, container := some t.number }

/-- The symbol of the constructor that a type has if it declares none. -/
def implicitConstructor (t : DeclaredType) : Symbol :=
  { name := t.qualifiedName ++ "." ++ t.decl.name ++ "()", kind := .constructor,
    container := some t.number }

-- ===== tables

/-- The members of a kind that satisfies a test, as they are written. -/
def membersWhere (t : DeclaredType) (p : MemberKind → Bool) : List MemberRef :=
  (t.decl.members.filter (p ·.kind)).map (⟨t, ·⟩)

/-- The constructors: those written, then the primary one. -/
def constructors (t : DeclaredType) : List MemberRef :=
  let primary : MemberDecl :=
    { kind := .constructor, name := t.decl.name, params := t.decl.params, span := some t.decl.span }
  t.membersWhere (· = .constructor) ++ (if t.decl.params.isEmpty then [] else [⟨t, primary⟩])

/-- The property that a parameter of a record stands for. -/
def recordProperty (t : DeclaredType) (p : Param) : MemberRef :=
  ⟨t, { kind := .property, name := p.name, type := some p.type, modifiers := ["public"],
        span := some p.span }⟩

/-- Adds the properties of a record to members; a name that the type already has is left out. -/
def addRecordProperties (t : DeclaredType) (refs : List MemberRef) : List Param → List MemberRef
  | [] => refs
  | p :: ps =>
    if refs.any fun r => r.owner = t.qualifiedName && r.decl.name = p.name then
      t.addRecordProperties refs ps
    else t.addRecordProperties (refs ++ [t.recordProperty p]) ps

/-- Adds the members of a type that are reached by name. -/
def addNamedMembers (refs : List MemberRef) (t : DeclaredType) : List MemberRef :=
  let refs := refs ++ t.membersWhere MemberKind.isNamed
  if t.decl.keyword.isRecord then t.addRecordProperties refs t.decl.params else refs

end DeclaredType

/-- The members of the declared types, in order of declaration. -/
structure MemberTable where
  named : List MemberRef
  constructors : List MemberRef
  indexers : List MemberRef

namespace MemberTable

def ofTypes (types : List DeclaredType) : MemberTable :=
  { named := types.foldl DeclaredType.addNamedMembers []
    constructors := types.flatMap DeclaredType.constructors
    indexers := types.flatMap (·.membersWhere (· = .indexer)) }

/-- The members of a name that a type itself has. -/
def ofType (ms : MemberTable) (owner name : String) : List MemberRef :=
  ms.named.filter fun r => r.owner = owner && r.decl.name = name

/-- The members of a name that any type has. -/
def anywhere (ms : MemberTable) (name : String) : List MemberRef :=
  ms.named.filter (·.decl.name = name)

def extensions (ms : MemberTable) (name : String) : List MemberRef :=
  (ms.anywhere name).filter (·.isExtension)

/-- The constructors that make values of a type. -/
def constructorsOf (ms : MemberTable) (owner : String) : List MemberRef :=
  ms.constructors.filter fun r => r.owner = owner && !r.decl.isStatic

/-- The indexer of a type; of several the first one counts. -/
def indexerOf (ms : MemberTable) (owner : String) : Option MemberRef :=
  ms.indexers.find? (·.owner = owner)

end MemberTable

/-- The type of a member seen through a receiver; that of an enum member or a constructor is the
type itself. -/
def Declarations.memberType (ds : Declarations) (r : MemberRef) (receiver : Option BoundType) :
    Option BoundType :=
  match r.decl.kind with
  | .enumMember | .constructor => some (.ofSelf r.type)
  | _ => r.decl.type.map fun t =>
    (ds.boundType (some r.type) r.decl.typeParams t).seenThrough r.type receiver

/-- The symbols of the constructors of a type. -/
def MemberTable.constructorSymbols (ms : MemberTable) (t : DeclaredType) : List Symbol :=
  match ms.constructorsOf t.qualifiedName with
  | [] => [t.implicitConstructor]
  | refs => refs.map (·.symbol)

end SourceBundle
