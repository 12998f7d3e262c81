/-
Reading members: fields, properties, methods, constructors, operators,
indexers, events and the members of enums.
-/
import SourceBundle.Tree.Parse.Body

namespace SourceBundle

-- ===== modifiers

/-- Reserved words that modify a declaration. -/
def modifierKeywords : List String :=
  ["public", "private", "protected", "internal", "abstract", "sealed", "override", "virtual",
   "readonly", "const", "unsafe", "volatile", "fixed"]

/-- Plain words that modify a declaration, unless what follows makes them a name. -/
def contextualModifiers : List String :=
  ["partial", "async", "required", "file", "scoped"]

/-- Whether a token before another is a modifier. -/
def Token.isModifier (t next : Token) : Bool :=
  match t.kind with
  | .staticKw | .externKw | .newKw | .refKw => next.kind ≠ .lparen
  | .keyword => modifierKeywords.contains t.text
  | .ident =>
    contextualModifiers.contains t.text
      && !([.eq, .semi, .lparen, .dot, .comma, .lt, .rparen].contains next.kind)
  | _ => false

/-- The number of modifiers at the front. -/
def modifierCount : List Token → Nat
  | [] => 0
  | t :: ts => if t.isModifier (ts.headD t) then 1 + modifierCount ts else 0

/-- The modifier that a token is to a parameter. -/
def ParamModifier.ofToken? (t : Token) : Option ParamModifier :=
  match t.kind with
  | .refKw => some .byRef
  | .outKw => some .output
  | .inKw => some .input
  | .paramsKw => some .variadic
  | .thisKw => some .receiver
  | .ident => if t.text = "scoped" then some .confined else none
  | .keyword => if t.text = "readonly" then some .readOnly else none
  | _ => none

namespace Parse

/-- The texts of the modifiers at the front. -/
def modifiers : Parse (List String) := do
  let s ← get
  let n := modifierCount s.rest
  skip n
  return (s.rest.take n).map (·.text)

-- ===== parameters

/-- The modifier of a parameter, which is the last one written. -/
def parameterModifier : Parse (Option ParamModifier) := do
  let s ← get
  let marks := s.rest.takeWhile fun t => (ParamModifier.ofToken? t).isSome
  skip marks.length
  return marks.getLast?.bind ParamModifier.ofToken?

/-- Parameters after the first bracket, within a bound on steps. -/
def parametersWithin (closer : Kind) : (bound : Nat) → Parse (List Param)
  | 0 => exhausted
  | bound + 1 => do
    skipSections
    let start ← here
    let modifier ← parameterModifier
    let type ← typeRef
    let name ← expect .ident .parameterName
    let default ← whenTaken .eq (items [.comma, closer])
    let param := { name := name.text, type, modifier, default, span := ← spanFrom start }
    if ← accept .comma then
      return param :: (← parametersWithin closer bound)
    return [param]

def parameters (closer : Kind) : Parse (List Param) := do
  parametersWithin closer (← get).bound

/-- Parameters between brackets. -/
def parameterList (closer : Kind) : Parse (List Param) := do
  let _ ← expect (openerOf closer) .parameterList
  if ← accept closer then return []
  let params ← parameters closer
  let _ ← expect closer (if closer = .rparen then .parametersClose else .indexerClose)
  return params

/-- Takes the word that says how a type parameter varies. -/
def skipVariance : Parse Unit := do
  if !(← accept .inKw) then
    let _ ← accept .outKw

/-- Type parameter names after the first bracket, within a bound on steps. -/
def typeParamsWithin : (bound : Nat) → Parse (List String)
  | 0 => exhausted
  | bound + 1 => do
    skipSections
    skipVariance
    let name ← expect .ident .typeParamName
    if ← accept .comma then
      return name.text :: (← typeParamsWithin bound)
    return [name.text]

def typeParamNames : Parse (List String) := do
  typeParamsWithin (← get).bound

/-- Type parameters between angle brackets. -/
def typeParamList : Parse (List String) := do
  let _ ← expect .lt .typeParamsOpen
  let names ← typeParamNames
  let _ ← expect .gt .typeParamsClose
  return names

/-- Takes a token, or a pair of round brackets and all between them. -/
def skipTokenOrGroup : Parse Unit := do
  if ← check .lparen then skipBalanced .lparen .rparen
  else
    let _ ← advance

/-- Passes over constraints up to a body, an end or an arrow, within a bound on steps. -/
def skipConstraintWithin : (bound : Nat) → Parse Unit
  | 0 => exhausted
  | bound + 1 => do
    let kind := (← peek).kind
    if [.eof, .lbrace, .semi, .arrow].contains kind then return ()
    skipTokenOrGroup
    skipConstraintWithin bound

def skipConstraint : Parse Unit := do
  skipConstraintWithin (← get).bound

/-- Passes over the constraints on type parameters. -/
def skipConstraints : Parse Unit := do
  if ← checkWord "where" then skipConstraint

-- ===== bodies

/-- Items up to the end of an expression body. -/
def expressionBody : Parse (List Expr) := do
  let body ← items [.semi]
  let _ ← expect .semi .expressionBodyEnd
  return body

/-- The body of a method: a block, an expression, or nothing. -/
def memberBody : Parse (List Expr) := do
  if ← check .lbrace then return [← block]
  if ← accept .arrow then return (← expressionBody)
  if ← accept .semi then return []
  unexpected .methodBody

/-- The body of a property: an expression, or accessors with an initializer after them. -/
def propertyBody : Parse (List Expr) := do
  if ← accept .arrow then return (← expressionBody)
  let accessors ← block
  if ← accept .eq then
    let init ← items [.semi]
    let _ ← expect .semi .propertyInitEnd
    return accessors :: init
  return [accessors]

-- ===== members

/-- The word for the constructor that another one calls. -/
def constructorWord (start : Span) : Parse Expr := do
  let tok ← advance
  match tok.kind with
  | .thisKw => return .thisRef (← newMark (some start))
  | .baseKw => return .baseRef (← newMark (some start))
  | _ => failAt (.expected .constructorTarget) tok

/-- The call of another constructor before the body of one. -/
def constructorCall : Parse (List Expr) := do
  if !(← accept .colon) then return []
  let start ← here
  let target ← constructorWord start
  let args ← argumentList .rparen
  return [.call (← markFrom start) target args]

/-- An indexer after its `this`. -/
def indexer (start : Span) (modifiers : List String) (type : TypeRef) : Parse MemberDecl := do
  let params ← parameterList .rbracket
  let body ← propertyBody
  return { kind := .indexer, name := "this[]", type := some type, params, modifiers, body,
           span := some (← spanFrom start) }

/-- The name of a member, behind the interfaces that it implements: the last name with its type
parameters, or none for an indexer. -/
def memberNameWithin : (bound : Nat) → String → Parse (Option (String × List String))
  | 0, _ => exhausted
  | bound + 1, name => do
    let typeParams ← whenNext .lt typeParamList
    if ← checkBefore .dot [.ident, .thisKw] then
      let _ ← advance
      if ← accept .thisKw then return none
      memberNameWithin bound (← advance).text
    else return some (name, typeParams)

/-- The name of a member from its first part on. -/
def memberName (first : String) : Parse (Option (String × List String)) := do
  memberNameWithin (← get).bound first

/-- The fields of one declaration from the first name on, within a bound on steps. -/
def fieldsWithin (start : Span) (kind : MemberKind) (modifiers : List String) (type : TypeRef) :
    (bound : Nat) → String → Parse (List MemberDecl)
  | 0, _ => exhausted
  | bound + 1, name => do
    skipGroup .lbracket .rbracket
    let body ← whenTaken .eq (items [.comma, .semi])
    let field :=
      { kind, name, type := some type, modifiers, body, span := some (← spanFrom start) }
    if ← accept .comma then
      let next ← expect .ident .memberName
      return field :: (← fieldsWithin start kind modifiers type bound next.text)
    return [field]

def fields (start : Span) (kind : MemberKind) (modifiers : List String) (type : TypeRef)
    (name : String) : Parse (List MemberDecl) := do
  fieldsWithin start kind modifiers type (← get).bound name

/-- A member that starts with a type. -/
def typedMember (start : Span) (modifiers : List String) : Parse (List MemberDecl) := do
  let isEvent ← accept .eventKw
  let type ← typeRef
  if ← accept .operatorKw then
    let marks ← takeUntil [.lparen]
    let params ← parameterList .rparen
    let body ← memberBody
    return [{ kind := .operator, name := "operator" ++ String.join (marks.map (·.text)),
              type := some type, params, modifiers, body, span := some (← spanFrom start) }]
  if ← accept .thisKw then return [← indexer start modifiers type]
  let first ← expect .ident .memberName
  match ← memberName first.text with
  | none => return [← indexer start modifiers type]
  | some (name, typeParams) =>
    if ← check .lparen then
      let params ← parameterList .rparen
      skipConstraints
      let body ← memberBody
      return [{ kind := .method, name, type := some type, params, typeParams, modifiers, body,
                span := some (← spanFrom start) }]
    if (← check .lbrace) || (← check .arrow) then
      let body ← propertyBody
      return [{ kind := if isEvent then .event else .property, name, type := some type, modifiers,
                body, span := some (← spanFrom start) }]
    let fields ← fields start (if isEvent then .event else .field) modifiers type name
    let _ ← expect .semi .fieldEnd
    return fields

/-- Whether a constructor of the type of this name stands here. -/
def startsConstructor (typeName : String) : Parse Bool := do
  let s ← get
  return (s.ahead 0).isWord typeName && (s.ahead 1).kind = .lparen

/-- The members of one declaration in the type of this name, their locals left out. -/
def bareMember (typeName : String) : Parse (List MemberDecl) := do
  skipSections
  let start ← here
  let modifiers ← modifiers
  if ← accept .tilde then
    let name ← expect .ident .memberName
    let params ← parameterList .rparen
    let body ← memberBody
    return [{ kind := .destructor, name := "~" ++ name.text, params, modifiers, body,
              span := some (← spanFrom start) }]
  if (← check .implicitKw) || (← check .explicitKw) then
    let which ← advance
    let _ ← expect .operatorKw .operatorWord
    let target ← typeRef
    let params ← parameterList .rparen
    let body ← memberBody
    let name := if which.kind = .implicitKw then "op_Implicit" else "op_Explicit"
    return [{ kind := .conversion, name, type := some target, params, modifiers, body,
              span := some (← spanFrom start) }]
  if ← startsConstructor typeName then
    let _ ← advance
    let params ← parameterList .rparen
    let call ← constructorCall
    let body ← memberBody
    return [{ kind := .constructor, name := typeName, params, modifiers, body := call ++ body,
              span := some (← spanFrom start) }]
  typedMember start modifiers

/-- What is read, with the locals that are declared in it. -/
def withLocals {α : Type} (p : Parse α) : Parse (α × List LocalDecl) := do
  let saved := (← get).locals
  modify fun s => { s with locals := #[] }
  let a ← p
  let locals := (← get).locals.toList
  modify fun s => { s with locals := saved }
  return (a, locals)

/-- What is read, with the locals that are declared in it left out. -/
def apart {α : Type} (p : Parse α) : Parse α := do
  return (← withLocals p).1

/-- The members of one declaration in the type of this name. Fields declared together share the
locals of all their initializers. -/
def member (typeName : String) : Parse (List MemberDecl) := do
  let (members, locals) ← withLocals (bareMember typeName)
  return members.map fun m => { m with locals }

/-- The members of an enum up to its closing brace, within a bound on steps. -/
def enumMembersWithin : (bound : Nat) → Parse (List MemberDecl)
  | 0 => exhausted
  | bound + 1 => do
    if ← check .rbrace then return []
    skipSections
    let start ← here
    let name ← expect .ident .enumMemberName
    let body ← whenTaken .eq (items [.comma, .rbrace])
    let member := { kind := .enumMember, name := name.text, body, span := some (← spanFrom start) }
    if ← accept .comma then
      return member :: (← enumMembersWithin bound)
    return [member]

def enumMembers : Parse (List MemberDecl) := do
  enumMembersWithin (← get).bound

end Parse

end SourceBundle
