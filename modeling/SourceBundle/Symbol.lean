/-
Symbols: what expressions refer to. Looking a reference up may give one
symbol, several that cannot be told apart, or none with a reason.
-/

namespace SourceBundle

/-- What a symbol is. External symbols are known, but not declared by the sources. -/
inductive SymbolKind where
  | space
  | type
  | method
  | constructor
  | field
  | property
  | event
  | enumMember
  | external
deriving DecidableEq, Repr, Inhabited

def SymbolKind.name : SymbolKind → String
  | space => "NAMESPACE"
  | type => "TYPE"
  | method => "METHOD"
  | constructor => "CONSTRUCTOR"
  | field => "FIELD"
  | property => "PROPERTY"
  | event => "EVENT"
  | enumMember => "ENUM_MEMBER"
  | external => "EXTERNAL"

/-- A symbol. Two symbols are the same if they have one name and kind; `container` is the number
of the type declaration that holds the declaration, which for a type is its own. -/
structure Symbol where
  name : String
  kind : SymbolKind
  container : Option Nat := none
deriving Repr, Inhabited

namespace Symbol

/-- What makes a symbol the one it is. -/
def identity (s : Symbol) : String × SymbolKind :=
  (s.name, s.kind)

def external (name : String) : Symbol :=
  { name, kind := .external }

end Symbol

/-- What looking a reference up gives. -/
inductive Resolution where
  | resolved (symbol : Symbol)
  | ambiguous (name : String) (candidates : List Symbol)
  | unresolved (name : String) (reason : String)
deriving Repr

namespace Resolution

/-- The name that was looked up, in full where it is known. -/
def name : Resolution → String
  | resolved s => s.name
  | ambiguous n _ => n
  | unresolved n _ => n

/-- The kind of what was found; that of the first candidate if there are several. -/
def kind : Resolution → SymbolKind
  | resolved s => s.kind
  | ambiguous _ cs => (cs.head?.map (·.kind)).getD .external
  | unresolved .. => .external

end Resolution

end SourceBundle
