/-
What an expression stands for, and the state that is kept while
expressions are bound: what was found before, what is being worked out,
and which overload each call was given.
-/
import SourceBundle.Binding.Conversion

namespace SourceBundle

/-- What an expression stands for, with the name that messages use for it. -/
inductive Binding where
  /-- A value, of a type that may not be known; `member` is what it is read from. -/
  | value (type : Option BoundType) (member : Option MemberRef) (name : String)
  | type (type : BoundType) (name : String)
  | space (space : String) (name : String)
  /-- The overloads of a method and what they are called on. -/
  | methods (members : List MemberRef) (receiver : Option BoundType) (isExtension : Bool)
      (name : String)
  /-- Something of the platform, perhaps with a known type. -/
  | external (type : Option BoundType) (name : String)
  /-- A member of something unknown. -/
  | ambiguous (candidates : List Symbol) (name : String)
  | unresolved (name : String) (reason : String)

namespace Binding

def unknown : Binding := .value none none ""

def ofType (type : Option BoundType) : Binding := .value type none ""

/-- The name of an expression, empty if it has none. -/
def name : Binding → String
  | value _ _ n | type _ n | space _ n | methods _ _ _ n | external _ n | ambiguous _ n
  | unresolved n _ => n

def withName (n : String) : Binding → Binding
  | value t m _ => .value t m n
  | type t _ => .type t n
  | space s _ => .space s n
  | methods ms r x _ => .methods ms r x n
  | external t _ => .external t n
  | ambiguous cs _ => .ambiguous cs n
  | unresolved _ r => .unresolved n r

/-- The name of what sort of thing it is. -/
def kindName : Binding → String
  | value .. => "VALUE"
  | type .. => "TYPE"
  | space .. => "NAMESPACE"
  | methods .. => "METHODS"
  | external .. => "EXTERNAL"
  | ambiguous .. => "AMBIGUOUS"
  | unresolved .. => "UNRESOLVED"

/-- The type that goes with it. -/
def boundType? : Binding → Option BoundType
  | value t .. | external t _ => t
  | type t _ => some t
  | _ => none

/-- The type of the value that it is. -/
def valueType : Binding → Option BoundType
  | value t .. | external t _ => t
  | _ => none

/-- The symbols of members as candidates. -/
def candidates (refs : List MemberRef) : List Symbol :=
  refs.map (·.symbol)

/-- What is found if the expression is not called. -/
def resolution : Binding → Option Resolution
  | value _ m _ => m.map fun r => .resolved r.symbol
  | methods [r] _ _ _ => some (.resolved r.symbol)
  | methods refs _ _ n => some (.ambiguous n (candidates refs))
  | type t n =>
    some (.resolved ((t.source.map (·.symbol)).getD (.external n)))
  | space s _ => some (.resolved { name := s, kind := .space })
  | external _ n => some (.resolved (.external n))
  | ambiguous cs n => some (.ambiguous n cs)
  | unresolved n reason => some (.unresolved n reason)

end Binding

-- ===== state

/-- The overload that a call was given, and what it is called on. -/
structure Choice where
  member : MemberRef
  receiver : Option BoundType

/-- What is remembered between questions. Tables are keyed by node numbers. -/
structure BindState where
  bindings : Std.TreeMap Nat Binding := {}
  /-- The expressions that are being bound. -/
  running : List Nat := []
  /-- The references looked up; one that is being looked up counts as nothing. -/
  resolutions : Std.TreeMap Nat (Option Resolution) := {}
  choices : Std.TreeMap Nat Choice := {}
  bases : BaseMemo := []

/-- Work that binds expressions. What is remembered stays if it fails. -/
abbrev BindM := ExceptT BindError (StateM BindState)

namespace BindM

/-- A question about the hierarchy. -/
def ofBases {α : Type} (x : StateM BaseMemo α) : BindM α := do
  let s ← get
  let (a, bases) := x.run s.bases
  set { s with bases }
  return a

end BindM

/-- The two questions about an expression: what it stands for, and what it refers to. -/
structure Queries where
  bind : Expr → BindM Binding
  resolve : Expr → BindM (Option Resolution)

/-- The type of the value that an expression is. -/
def Queries.typeOf (q : Queries) (e : Expr) : BindM (Option BoundType) :=
  return (← q.bind e).valueType

def Queries.typesOf (q : Queries) : List Expr → BindM (List (Option BoundType))
  | [] => return []
  | e :: es => do
    let t ← q.typeOf e
    let ts ← q.typesOf es
    return t :: ts

/-- The overload that a call or creation is given. -/
def Queries.choice (q : Queries) (e : Expr) : BindM (Option Choice) := do
  let _ ← q.resolve e
  return (← get).choices[e.node]?

end SourceBundle
