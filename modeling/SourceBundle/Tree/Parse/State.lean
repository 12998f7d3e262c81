/-
Reading tokens one after another: the state of a parse, looking ahead,
taking and expecting tokens, and spans over what was taken. The end
token is never taken, so a look ahead always finds a token.
-/
import SourceBundle.Tree.Decl
import SourceBundle.Tree.Parse.Error

namespace SourceBundle

structure ParseState where
  rest : List Token
  /-- What lies past the last token. -/
  eof : Token
  last : Option Token := none
  /-- The locals of the body being read, in order of declaration. -/
  locals : Array LocalDecl := #[]
  /-- The number of the next expression. -/
  nextNode : Nat := 0

namespace ParseState

def ofTokens (tokens : List Token) (nextNode : Nat := 0) : ParseState :=
  { rest := tokens, eof := tokens.getLastD default, nextNode }

/-- The token `k` places ahead. -/
def ahead (s : ParseState) (k : Nat) : Token :=
  s.rest.getD k s.eof

/-- The state after the next `k` tokens. -/
def drop (s : ParseState) (k : Nat) : ParseState :=
  if k = 0 then s
  else { s with rest := s.rest.drop k, last := s.rest[k - 1]?.or s.last }

/-- The token taken last; before any is taken, the one to come. -/
def lastToken (s : ParseState) : Token :=
  s.last.getD (s.ahead 0)

/-- The offset past the token taken last. -/
def lastStop (s : ParseState) : Nat :=
  (s.last.map (·.stop)).getD 0

/-- A bound on the nesting of reading steps: no more than sixteen are made between one token and
the next, those of holes included. -/
def bound (s : ParseState) : Nat :=
  16 * (Token.listWeight s.rest + 1)

end ParseState

/-- A parse: it goes on from a state or stops with an error. -/
abbrev Parse := StateT ParseState (Except ParseError)

namespace Parse

def peek : Parse Token := do
  return (← get).ahead 0

/-- Stops at a token. -/
def failAt {α : Type} (fault : ParseFault) (token : Token) : Parse α :=
  throw ⟨fault, token⟩

/-- Stops at the next token, which is not what was expected. -/
def unexpected {α : Type} (what : Expected) : Parse α := do
  failAt (.expected what) (← peek)

/-- Stops because the bound on reading steps is used up. -/
def exhausted {α : Type} : Parse α :=
  unexpected .endOfFile

/-- Whether only the end token is left. -/
def atEnd : Parse Bool := do
  return (← peek).kind = .eof

/-- Whether the next token is of a kind. -/
def check (kind : Kind) : Parse Bool := do
  return (← peek).kind = kind

/-- Whether a token of a kind stands here, and one of some kinds after it. -/
def checkBefore (kind : Kind) (after : List Kind) : Parse Bool := do
  let s ← get
  return (s.ahead 0).kind = kind && after.contains (s.ahead 1).kind

/-- Whether the next token is this identifier. -/
def checkWord (word : String) : Parse Bool := do
  return (← peek).isWord word

/-- Takes the next token; the end token stays. -/
def advance : Parse Token := fun s =>
  let token := s.ahead 0
  if token.kind = .eof then .ok (token, s) else .ok (token, s.drop 1)

/-- Takes the next token if it is of a kind. -/
def accept (kind : Kind) : Parse Bool := do
  if ← check kind then
    let _ ← advance
    return true
  return false

/-- Takes a token of a kind or stops. -/
def expect (kind : Kind) (what : Expected) : Parse Token := do
  if ← check kind then advance else unexpected what

/-- Takes an identifier or stops; its text has no dot. -/
def expectName (what : Expected) : Parse { name : String // Text.Dotless name } := do
  let token ← peek
  if hkind : token.kind = .ident then
    let _ ← advance
    return ⟨token.text, token.dotless hkind⟩
  else unexpected what

/-- Takes the next `k` tokens. -/
def skip (k : Nat) : Parse Unit :=
  modify (·.drop k)

/-- Takes the tokens before the first that is of one of the kinds, or before the end. -/
def takeUntil (kinds : List Kind) : Parse (List Token) := fun s =>
  let taken := s.rest.takeWhile fun t => t.kind ≠ .eof && !kinds.contains t.kind
  .ok (taken, s.drop taken.length)

/-- What is read if the next token is of a kind, else nothing. -/
def whenNext {α : Type} (kind : Kind) (p : Parse (List α)) : Parse (List α) := do
  if ← check kind then p else return []

/-- What is read unless the next token is of a kind. -/
def unlessNext {α : Type} (kind : Kind) (p : Parse (List α)) : Parse (List α) := do
  if ← check kind then return [] else p

/-- What is read after a token of a kind, if one stands here. -/
def whenTaken {α : Type} (kind : Kind) (p : Parse (List α)) : Parse (List α) := do
  if ← accept kind then p else return []

/-- The empty span before the next token. -/
def here : Parse Span := do
  let t ← peek
  return ⟨t.line, t.column, t.line, t.column⟩

/-- The span from the start of another to the end of the token taken last. -/
def spanFrom (start : Span) : Parse Span := do
  let t := (← get).lastToken
  return { start with endLine := t.line, endColumn := t.column + t.text.length }

/-- A mark for the next expression, which has the given span. -/
def newMark (span : Option Span) : Parse Mark := fun s =>
  .ok (⟨span, s.nextNode⟩, { s with nextNode := s.nextNode + 1 })

/-- A mark for an expression that goes from `start` to the token taken last. -/
def markFrom (start : Span) : Parse Mark := do
  newMark (some (← spanFrom start))

end Parse

-- ===== brackets

/-- The number of tokens up to the bracket that closes the first one, which opens. `depth`
counts the brackets open so far. -/
def balancedLength? (opener closer : Kind) : (depth : Nat) → List Token → Option Nat
  | _, [] => none
  | depth, t :: ts =>
    if t.kind = .eof then none
    else if t.kind = opener then (balancedLength? opener closer (depth + 1) ts).map (· + 1)
    else if t.kind = closer then
      if depth = 1 then some 1
      else (balancedLength? opener closer (depth - 1) ts).map (· + 1)
    else (balancedLength? opener closer depth ts).map (· + 1)

/-- The number of tokens of the bracketed sections at the front. -/
def sectionsLength? : (depth : Nat) → List Token → Option Nat
  | 0, [] => some 0
  | 0, t :: ts =>
    if t.kind = .lbracket then (sectionsLength? 1 ts).map (· + 1) else some 0
  | _ + 1, [] => none
  | depth + 1, t :: ts =>
    if t.kind = .eof then none
    else if t.kind = .lbracket then (sectionsLength? (depth + 2) ts).map (· + 1)
    else if t.kind = .rbracket then (sectionsLength? depth ts).map (· + 1)
    else (sectionsLength? (depth + 1) ts).map (· + 1)

namespace Parse

/-- Takes a pair of brackets and all between them. -/
def skipBalanced (opener closer : Kind) : Parse Unit := do
  let s ← get
  match balancedLength? opener closer 0 s.rest with
  | some k => skip k
  | none => failAt (.unbalanced opener) s.eof

/-- Takes a pair of brackets and all between them, if one opens here. -/
def skipGroup (opener closer : Kind) : Parse Unit := do
  if ← check opener then skipBalanced opener closer

/-- Takes the bracketed sections at the front: attributes, or the further ranks of an array. -/
def skipSections : Parse Unit := do
  let s ← get
  match sectionsLength? 0 s.rest with
  | some k => skip k
  | none => failAt (.unbalanced .lbracket) s.eof

end Parse

end SourceBundle
