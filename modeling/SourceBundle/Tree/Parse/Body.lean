/-
Reading bodies: forests of chains, with the locals that are declared
among them. Operators, separators and statement words are taken and
left out. A chain that reads as a type, before a name, declares a local
of that type.
-/
import SourceBundle.Tree.Parse.TypeRef

namespace SourceBundle

-- ===== chains as types

/-- Words that never stand for the type of a local. -/
def nonTypeWords : List String :=
  ["await", "yield", "nameof", "when", "and", "or", "not", "async", "with", "from", "select",
   "where", "orderby", "group", "let", "join", "into", "on", "equals", "by", "ascending",
   "descending"]

/-- An argument with nothing in it, as between the brackets of an array type. -/
def Expr.isEmptyGroup : Expr → Bool
  | .group _ items => items.isEmpty
  | _ => false

/-- A chain read as a type: names and member accesses, the last of which may have type
arguments, and empty element accesses. -/
def Expr.asType? : Expr → Option TypeRef
  | .ident m name typeArgs qualifier =>
    if nonTypeWords.contains name then none
    else some { name, args := typeArgs, qualifier, span := m.span }
  | .member m target name typeArgs conditional =>
    if conditional then none
    else
      match target.asType? with
      | none => none
      | some inner =>
        if !inner.args.isEmpty || inner.rank ≠ 0 then none
        else
          some { name := inner.name ++ "." ++ name, args := typeArgs, qualifier := inner.qualifier,
                 span := m.span }
  | .element _ target args =>
    if args.all Expr.isEmptyGroup then
      match target.asType? with
      | none => none
      | some inner => some { inner with rank := inner.rank + 1 }
    else none
  | _ => none

/-- The name that a lambda head declares, if it is an untyped parameter. -/
def Expr.asParameter? (e : Expr) : Option LocalDecl :=
  match e with
  | .ident m name [] _ =>
    some { name, type := none, isLambda := true, declarator := some e, span := m.span }
  | _ => none

/-- The untyped parameters of a lambda head: one name, or a group of nothing but names. -/
def Expr.lambdaParameters (head : Expr) : List LocalDecl :=
  let names := match head with
    | .group _ items => items
    | e => [e]
  (names.mapM Expr.asParameter?).getD []

namespace Parse

-- ===== locals

/-- What may follow the name in a declaration of a local. -/
def mayFollowLocal (k : Kind) : Bool :=
  [.eq, .semi, .comma, .rparen, .inKw, .colon, .arrow].contains k

/-- Records a local and says at which place. -/
def recordLocal (l : LocalDecl) : Parse Nat := fun s =>
  .ok (s.locals.size, { s with locals := s.locals.push l })

def recordLocals (ls : List LocalDecl) : Parse Unit :=
  modify fun s => { s with locals := s.locals ++ ls }

/-- Changes the local at a place. -/
def updateLocal (i : Nat) (f : LocalDecl → LocalDecl) : Parse Unit :=
  modify fun s => { s with locals := s.locals.modify i f }

def localCount : Parse Nat := do
  return (← get).locals.size

/-- Whether a token may follow the name of a local. After an operator only a pattern variable is
one, and a question mark before a colon belongs to a conditional expression. -/
def endsLocal (nullable : Bool) (follow : Token) : Bool :=
  if follow.kind = .op then !nullable && (follow.text = "&&" || follow.text = "||")
  else mayFollowLocal follow.kind && !(nullable && follow.kind = .colon)

/-- The name of the local that a chain declares here, and whether its type is nullable. -/
def declaredName? : Parse (Option (Token × Bool)) := do
  let s ← get
  if (s.ahead 0).kind = .ident then
    return if endsLocal false (s.ahead 1) then some (s.ahead 0, false) else none
  else if (s.ahead 0).kind = .question && (s.ahead 1).kind = .ident then
    return if endsLocal true (s.ahead 2) then some (s.ahead 1, true) else none
  else return none

/-- Reads the tokens of a hole as a text of their own, with the locals of the body around it. -/
def withTokens {α : Type} (tokens : List Token) (p : Parse α) : Parse α := do
  let s ← get
  let inner := ParseState.ofTokens tokens
  set { s with rest := inner.rest, eof := inner.eof, last := none }
  let a ← p
  modify fun t => { t with rest := s.rest, eof := s.eof, last := s.last }
  return a

/-- Records the untyped parameters of a lambda head, unless locals were declared in it, of which
there were `declared` before. -/
def recordParameters (declared : Nat) (head : Expr) : Parse Unit := do
  if (← localCount) ≤ declared then recordLocals head.lambdaParameters

/-- The collection that a `foreach` goes over, as one expression. -/
def collectionOf : List Expr → Parse (Option Expr)
  | [] => return none
  | [e] => return some e
  | es => do return some (.group (← newMark none) es)

/-- Gives the local recorded last the collection that it goes over, if one was declared; there
were `declared` locals before. -/
def recordCollection (declared : Nat) (source : List Expr) : Parse Unit := do
  let count ← localCount
  if declared < count then
    match ← collectionOf source with
    | none => return ()
    | some e => updateLocal (count - 1) fun l => { l with isForeach := true, init := some e }

/-- Takes the name of a named argument. -/
def skipArgumentName : Parse Unit := do
  if ← checkBefore .ident [.colon] then skip 2

/-- Takes the modifiers of an argument. -/
def skipArgumentModifiers : Parse Unit := do
  let s ← get
  skip (s.rest.takeWhile fun t => [.refKw, .outKw, .inKw].contains t.kind).length

-- ===== items

/-- The tokens that start a chain. -/
def startsChain (k : Kind) : Bool :=
  [.ident, .predefinedType, .thisKw, .baseKw, .newKw, .number, .char, .string, .interpolated,
   .trueKw, .falseKw, .nullKw, .typeofKw, .sizeofKw, .defaultKw].contains k

/-- The kind of a literal by the kind of its token, if that stands for a value. -/
def literalKind? : Kind → Option LiteralKind
  | .char => some .char
  | .string => some .string
  | .trueKw | .falseKw => some .bool
  | .nullKw => some .null
  | _ => none

/-- The kind of a literal that is a word before round brackets. -/
def wordLiteralKind : Kind → LiteralKind
  | .typeofKw => .type
  | .sizeofKw => .int
  | _ => .defaultValue

/-- What was expected at the end of arguments. -/
def argumentsEnd (closer : Kind) : Expected :=
  if closer = .rparen then .argumentsClose else .indexClose

/-- The bracket that a closing one belongs to. -/
def openerOf (closer : Kind) : Kind :=
  if closer = .rparen then .lparen else .lbracket

/-- How a chain goes on. -/
inductive Link where
  | access (conditional : Bool)
  | call
  | element
  /-- A mark that is dropped: of a conditional element access, or a null-forgiving one. -/
  | mark
  | none
deriving DecidableEq, Repr

/-- How a chain goes on before tokens of these kinds. -/
def Link.ofKinds (kind next after : Kind) : Link :=
  if (kind = .dot || kind = .questionDot) && (next = .ident || next = .predefinedType) then
    .access (kind = .questionDot)
  else if kind = .lparen then .call
  else if kind = .lbracket then .element
  else if kind = .question && next = .lbracket && after ≠ .rbracket then .mark
  else if kind = .bang && (next = .dot || next = .questionDot || next = .lbracket) then .mark
  else .none

/-- How a chain goes on here. -/
def nextLink : Parse Link := do
  let s ← get
  return .ofKinds (s.ahead 0).kind (s.ahead 1).kind (s.ahead 2).kind

mutual

/-- Items up to a stop, a closing bracket or the end, with the initializers of locals as items of
their own. -/
def itemsWithin : (bound : Nat) → (stops : List Kind) → Parse (List Expr)
  | 0, _ => exhausted
  | bound + 1, stops => do
    let kind := (← peek).kind
    if kind = .eof || stops.contains kind || kind.isCloser then return []
    let declared ← localCount
    match ← itemWithin bound with
    | none => itemsWithin bound stops
    | some e =>
      if ← check .arrow then
        recordParameters declared e
        return e :: (← itemsWithin bound stops)
      else
        let init ← localWithin bound e
        return e :: (init.toList ++ (← itemsWithin bound stops))

/-- One item; none for an operator, a separator or a statement word. -/
def itemWithin : (bound : Nat) → Parse (Option Expr)
  | 0 => exhausted
  | bound + 1 => do
    let start ← here
    let kind := (← peek).kind
    if kind = .lparen then
      let group ← groupWithin bound .lparen .rparen .expressionClose
      return some (← chainWithin bound group start)
    else if kind = .lbrace then
      return some (← blockWithin bound)
    else if kind = .lbracket then
      return some (← groupWithin bound .lbracket .rbracket .bracketClose)
    else if kind = .foreachKw then
      foreachWithin bound
    else if startsChain kind then
      let head ← headWithin bound
      return some (← chainWithin bound head start)
    else
      let _ ← advance
      return none

/-- A block between braces. -/
def blockWithin : (bound : Nat) → Parse Expr
  | 0 => exhausted
  | bound + 1 => do
    let start ← here
    let _ ← expect .lbrace .braceOpen
    let items ← itemsWithin bound [.rbrace]
    let _ ← expect .rbrace .blockClose
    return .group (← markFrom start) items

/-- Items between brackets. -/
def groupWithin : (bound : Nat) → (opener closer : Kind) → (what : Expected) → Parse Expr
  | 0, _, _, _ => exhausted
  | bound + 1, opener, closer, what => do
    let start ← here
    let _ ← expect opener what
    let items ← itemsWithin bound [closer]
    let _ ← expect closer what
    return .group (← markFrom start) items

/-- The head of a `foreach`. The local recorded last goes over the collection. -/
def foreachWithin : (bound : Nat) → Parse (Option Expr)
  | 0 => exhausted
  | bound + 1 => do
    let start ← here
    let _ ← advance
    if !(← accept .lparen) then return none
    let declared ← localCount
    let header ← itemsWithin bound [.inKw, .rparen]
    let source ← whenTaken .inKw (itemsWithin bound [.rparen])
    let _ ← expect .rparen .foreachClose
    recordCollection declared source
    return some (.group (← markFrom start) (header ++ source))

/-- The initializer of the local that a chain declares here, if it declares one that has one. -/
def localWithin : (bound : Nat) → Expr → Parse (Option Expr)
  | 0, _ => exhausted
  | bound + 1, e => do
    match e.asType?, ← declaredName? with
    | some type, some (name, nullable) =>
      skip (if nullable then 2 else 1)
      let type := if nullable then { type with nullable := true } else type
      let i ← recordLocal
        { name := name.text, type := if type.name = "var" then none else some type,
          span := e.span }
      if !(← accept .eq) then return none
      let kind := (← peek).kind
      if kind.isCloser || kind = .semi || kind = .comma || kind = .eof then return none
      let init ← itemWithin bound
      updateLocal i fun l => { l with init }
      return init
    | _, _ => return none

/-- The head of a chain: a name, a literal or a creation. -/
def headWithin : (bound : Nat) → Parse Expr
  | 0 => exhausted
  | bound + 1 => do
    let start ← here
    let tok ← advance
    match tok.kind with
    | .ident =>
      let (name, qualifier) ← qualifiedName tok
      let typeArgs ← whenNext .lt typeArgsInExpr
      return .ident (← markFrom start) name typeArgs qualifier
    | .predefinedType => return .ident (← markFrom start) tok.text [] none
    | .thisKw => return .thisRef (← markFrom start)
    | .baseKw => return .baseRef (← markFrom start)
    | .newKw => creationWithin bound start
    | .interpolated =>
      let holes ← holesWithin bound (tok.holes.getD [])
      return .interpolated (← markFrom start) holes
    | .typeofKw | .sizeofKw | .defaultKw =>
      skipGroup .lparen .rparen
      return .literal (← markFrom start) (wordLiteralKind tok.kind) tok.text
    | .number => return .literal (← markFrom start) (.ofNumber tok.text) tok.text
    | kind =>
      match literalKind? kind with
      | some literal => return .literal (← markFrom start) literal tok.text
      | none => failAt .noLiteral tok

/-- The expressions of holes; an empty hole has none. -/
def holesWithin : (bound : Nat) → List (List Token) → Parse (List Expr)
  | _, [] => return []
  | 0, _ => exhausted
  | bound + 1, hole :: holes => do
    match ← withTokens hole (itemsWithin bound []) with
    | [] => holesWithin bound holes
    | [e] => return e :: (← holesWithin bound holes)
    | e :: es =>
      let group := .group (← newMark e.span) (e :: es)
      return group :: (← holesWithin bound holes)

/-- What follows `new`. -/
def creationWithin : (bound : Nat) → (start : Span) → Parse Expr
  | 0, _ => exhausted
  | bound + 1, start => do
    if ← check .lparen then
      let args ← argumentListWithin bound .rparen
      let inits ← initializerWithin bound
      return .creation (← markFrom start) none args inits
    else if ← check .lbracket then
      skipBalanced .lbracket .rbracket
      let items ← initializerWithin bound
      return .array (← markFrom start) none items
    else if ← check .lbrace then
      let items ← initializerWithin bound
      return .group (← markFrom start) items
    else
      let type ← typeRef false
      if ← check .lparen then
        let args ← argumentListWithin bound .rparen
        let inits ← initializerWithin bound
        return .creation (← markFrom start) (some type) args inits
      else if ← check .lbrace then
        let inits ← initializerWithin bound
        return .creation (← markFrom start) (some type) [] inits
      else if ← check .lbracket then
        let sizes ← argumentListWithin bound .rbracket
        skipSections
        let items ← initializerWithin bound
        return .array (← markFrom start) (some type) (sizes ++ items)
      else unexpected .creationTail

/-- The items of an initializer, if one stands here. -/
def initializerWithin : (bound : Nat) → Parse (List Expr)
  | 0 => exhausted
  | bound + 1 => do
    if !(← accept .lbrace) then return []
    let items ← itemsWithin bound [.rbrace]
    let _ ← expect .rbrace .initializerClose
    return items

/-- Arguments between brackets. -/
def argumentListWithin : (bound : Nat) → (closer : Kind) → Parse (List Expr)
  | 0, _ => exhausted
  | bound + 1, closer => do
    let _ ← expect (openerOf closer) .argumentList
    let args ← unlessNext closer (argumentsWithinBrackets bound closer)
    let _ ← expect closer (argumentsEnd closer)
    return args

/-- One or more arguments divided by commas. -/
def argumentsWithinBrackets : (bound : Nat) → (closer : Kind) → Parse (List Expr)
  | 0, _ => exhausted
  | bound + 1, closer => do
    let arg ← argumentWithin bound closer
    if ← accept .comma then
      return arg :: (← argumentsWithinBrackets bound closer)
    return [arg]

/-- One argument: its name and modifiers are dropped, and one made of other than one item is a
group. -/
def argumentWithin : (bound : Nat) → (closer : Kind) → Parse Expr
  | 0, _ => exhausted
  | bound + 1, closer => do
    let start ← here
    skipArgumentName
    skipArgumentModifiers
    match ← itemsWithin bound [.comma, closer] with
    | [e] => return e
    | items => return .group (← markFrom start) items

/-- The rest of a chain: member accesses, calls and element accesses. Null-forgiving marks and
the mark of a conditional element access are dropped. -/
def chainWithin : (bound : Nat) → Expr → (start : Span) → Parse Expr
  | 0, _, _ => exhausted
  | bound + 1, e, start => do
    match ← nextLink with
    | .access conditional =>
      let _ ← advance
      let name ← advance
      let typeArgs ← whenNext .lt typeArgsInExpr
      let access := .member (← markFrom start) e name.text typeArgs conditional
      chainWithin bound access start
    | .call =>
      let args ← argumentListWithin bound .rparen
      chainWithin bound (.call (← markFrom start) e args) start
    | .element =>
      let args ← argumentListWithin bound .rbracket
      chainWithin bound (.element (← markFrom start) e args) start
    | .mark =>
      let _ ← advance
      chainWithin bound e start
    | .none => return e

end

def items (stops : List Kind) : Parse (List Expr) := do
  itemsWithin (← get).bound stops

def item : Parse (Option Expr) := do
  itemWithin (← get).bound

def localDeclaration (e : Expr) : Parse (Option Expr) := do
  localWithin (← get).bound e

def block : Parse Expr := do
  blockWithin (← get).bound

def argumentList (closer : Kind) : Parse (List Expr) := do
  argumentListWithin (← get).bound closer

end Parse

end SourceBundle
