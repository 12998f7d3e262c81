/-
Reading type references: names with type arguments, tuples, nullable
marks, pointer stars (which are dropped) and array suffixes.
-/
import SourceBundle.Tree.Parse.State

namespace SourceBundle.Parse

/-- Takes commas. -/
def skipCommas : Parse Unit := do
  let s ← get
  skip (s.rest.takeWhile (·.kind = .comma)).length

/-- Type arguments, or the commas that stand for those of an unbound generic type. -/
def unboundOr (arguments : Parse (List TypeRef)) : Parse (List TypeRef) := do
  let kind := (← peek).kind
  if kind = .gt || kind = .comma then
    skipCommas
    return []
  arguments

/-- A name that starts with an identifier just taken: what is named, and before `::` what
qualifies it. -/
def qualifiedName (tok : Token) : Parse (String × Option String) := do
  if ← accept .doubleColon then
    let name ← expect .ident .aliasedName
    return (name.text, some tok.text)
  return (tok.text, none)

/-- A type without its suffixes: a tuple, a predefined type or a name. -/
def typeHead (tuple arguments : Parse (List TypeRef)) (dotted : TypeRef → Parse TypeRef) :
    Parse TypeRef := do
  let tok ← peek
  match tok.kind with
  | .lparen =>
    let _ ← advance
    let elements ← tuple
    let _ ← expect .rparen .tupleClose
    return { name := TypeRef.tupleName, args := elements, tuple := true }
  | .predefinedType =>
    let _ ← advance
    return { name := tok.text }
  | .ident =>
    let _ ← advance
    let (name, qualifier) ← qualifiedName tok
    let args ← whenNext .lt arguments
    dotted { name, args, qualifier }
  | _ => unexpected .type

mutual

/-- A type, within a bound on steps. -/
def typeWithin : (bound : Nat) → (allowArray : Bool) → Parse TypeRef
  | 0, _ => exhausted
  | bound + 1, allowArray => do
    let start ← here
    let type ← typeHead (tupleWithin bound) (argumentsWithin bound) (dottedWithin bound)
    let type ← suffixesWithin bound allowArray type
    return { type with span := some (← spanFrom start) }

/-- The further parts of a dotted name. -/
def dottedWithin : (bound : Nat) → TypeRef → Parse TypeRef
  | 0, _ => exhausted
  | bound + 1, type => do
    if ← checkBefore .dot [.ident] then
      let _ ← advance
      let part ← advance
      let args ← whenNext .lt (argumentsWithin bound)
      dottedWithin bound { type with name := type.name ++ "." ++ part.text, args }
    else return type

/-- Nullable marks, stars and array suffixes. -/
def suffixesWithin : (bound : Nat) → (allowArray : Bool) → TypeRef → Parse TypeRef
  | 0, _, _ => exhausted
  | bound + 1, allowArray, type => do
    if (← check .question) && !type.nullable && type.rank = 0 then
      let _ ← advance
      suffixesWithin bound allowArray { type with nullable := true }
    else if ← check .star then
      let _ ← advance
      suffixesWithin bound allowArray type
    else if allowArray && (← checkBefore .lbracket [.rbracket, .comma]) then
      let _ ← advance
      skipCommas
      let _ ← expect .rbracket .arrayTypeClose
      suffixesWithin bound allowArray { type with rank := type.rank + 1 }
    else return type

/-- The element types of a tuple; the elements' names are dropped. -/
def tupleWithin : (bound : Nat) → Parse (List TypeRef)
  | 0 => exhausted
  | bound + 1 => do
    let type ← typeWithin bound true
    let _ ← accept .ident
    if ← accept .comma then
      return type :: (← tupleWithin bound)
    return [type]

/-- Type arguments between angle brackets; those of an unbound generic type are none. -/
def argumentsWithin : (bound : Nat) → Parse (List TypeRef)
  | 0 => exhausted
  | bound + 1 => do
    let _ ← expect .lt .typeArgsOpen
    let args ← unboundOr (typesWithin bound)
    let _ ← expect .gt .typeArgsClose
    return args

/-- One or more types divided by commas. -/
def typesWithin : (bound : Nat) → Parse (List TypeRef)
  | 0 => exhausted
  | bound + 1 => do
    let type ← typeWithin bound true
    if ← accept .comma then
      return type :: (← typesWithin bound)
    return [type]

end

/-- A type, with array suffixes if they are allowed. -/
def typeRef (allowArray : Bool := true) : Parse TypeRef := do
  typeWithin (← get).bound allowArray

def types : Parse (List TypeRef) := do
  typesWithin (← get).bound

/-- What may follow type arguments inside an expression. -/
def mayFollowTypeArgs (k : Kind) : Bool :=
  [.lparen, .rparen, .rbracket, .rbrace, .colon, .semi, .comma, .dot, .questionDot, .question,
   .lbracket, .ident, .gt, .eof].contains k

/-- Type arguments after a name inside an expression. If they do not read as such, or if what
follows shows that the angle bracket was an operator, there are none. -/
def typeArgsInExpr : Parse (List TypeRef) := fun s =>
  match argumentsWithin s.bound s with
  | .error _ => .ok ([], s)
  | .ok (args, s') => if mayFollowTypeArgs (s'.ahead 0).kind then .ok (args, s') else .ok ([], s)

end SourceBundle.Parse
