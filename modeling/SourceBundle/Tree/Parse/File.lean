/-
Reading type declarations, namespaces and whole source files.
-/
import SourceBundle.Text.Blank
import SourceBundle.Text.Lines
import SourceBundle.Token.Lexer
import SourceBundle.Tree.Parse.Member

namespace SourceBundle

-- ===== declarations ahead

/-- Whether a token before another is the word that declares a type. -/
def Token.isTypeKeyword (t next : Token) : Bool :=
  match t.kind with
  | .classKw | .structKw | .interfaceKw | .enumKw | .delegateKw => true
  | .ident => t.text = "record" && [.ident, .classKw, .structKw].contains next.kind
  | _ => false

/-- Whether a type declaration stands at the front of the tokens. -/
def startsTypeDeclaration (tokens : List Token) : Bool :=
  match sectionsLength? 0 tokens with
  | none => false
  | some n =>
    let tokens := tokens.drop n
    match tokens.drop (modifierCount tokens) with
    | [] => false
    | t :: ts => t.isTypeKeyword (ts.headD t)

/-- The text of a declaration: a stretch of the source with its line ends made plain and without
the blank lines in front. -/
def declarationText (source : List Char) (start stop : Nat) : String :=
  let stretch := Text.dropReturns ((source.drop start).take (stop - start))
  let lines := Text.splitAt '\n' (.ofList stretch)
  "\n".intercalate (lines.dropWhile fun line => line.toList.all Text.isBlank)

/-- What a file or a namespace declares. -/
structure NamespaceBody where
  usings : List UsingDirective := []
  types : List TypeDecl := []
  namespaces : List NamespaceDecl := []

namespace Parse

-- ===== types

def typeKeyword : Parse TypeKeyword := do
  let tok ← advance
  match tok.kind with
  | .classKw => return .classType
  | .structKw => return .structType
  | .interfaceKw => return .interfaceType
  | .enumKw => return .enumType
  | _ =>
    if ← accept .classKw then return .record
    if ← accept .structKw then return .recordStruct
    return .record

/-- The base types and what is handed to the first. -/
def baseList : Parse (List TypeRef × List Expr) := do
  if !(← accept .colon) then return ([], [])
  let first ← typeRef
  let args ← whenNext .lparen (argumentList .rparen)
  if ← accept .comma then
    return (first :: (← types), args)
  return ([first], args)

/-- What a type declaration says before its members, and where it starts. -/
structure TypeHeader where
  start : Span
  modifiers : List String
  keyword : TypeKeyword
  name : String
  typeParams : List String
  params : List Param
  baseTypes : List TypeRef
  baseArgs : List Expr
  dotless : Text.Dotless name

/-- The declaration of a header and what stands between the braces after it. -/
def TypeHeader.declaration (h : TypeHeader) (body : List MemberDecl × List TypeDecl) (span : Span)
    (text : String) : TypeDecl :=
  { keyword := h.keyword, name := h.name, typeParams := h.typeParams, baseTypes := h.baseTypes,
    members := body.1, nested := body.2, modifiers := h.modifiers, params := h.params,
    baseArgs := h.baseArgs, span, text, dotless := h.dotless }

/-- The header of a type declaration from its keyword on. -/
def typeHeader (start : Span) (modifiers : List String) : Parse TypeHeader := do
  let keyword ← typeKeyword
  let ⟨name, dotless⟩ ← expectName .typeName
  let typeParams ← whenNext .lt typeParamList
  let params ← whenNext .lparen (parameterList .rparen)
  let (baseTypes, baseArgs) ← baseList
  skipConstraints
  return { start, modifiers, keyword, name, typeParams, params, baseTypes, baseArgs, dotless }

/-- What stands between the braces of a type of this keyword: in an enum nothing but its members,
in other types what the inner reader reads. -/
def typeInner (keyword : TypeKeyword) (inner : Parse (List MemberDecl × List TypeDecl)) :
    Parse (List MemberDecl × List TypeDecl) :=
  if keyword = .enumType then return (← enumMembers, []) else inner

/-- What stands between the braces of a type of this keyword, the first of which is taken. -/
def typeBlock (keyword : TypeKeyword) (inner : Parse (List MemberDecl × List TypeDecl)) :
    Parse (List MemberDecl × List TypeDecl) := do
  let body ← typeInner keyword inner
  let _ ← expect .rbrace (if keyword = .enumType then .enumClose else .typeClose)
  return body

/-- The members and nested types of a type: those between braces, or none before a semicolon. A
semicolon after the braces belongs to the declaration. -/
def typeMembers (keyword : TypeKeyword) (inner : Parse (List MemberDecl × List TypeDecl)) :
    Parse (List MemberDecl × List TypeDecl) := do
  if ← accept .lbrace then
    let body ← typeBlock keyword inner
    let _ ← accept .semi
    return body
  if ← accept .semi then return ([], [])
  unexpected .typeHeaderOpen

/-- Whether the word that declares a type stands here. -/
def atTypeKeyword : Parse Bool := do
  let s ← get
  return (s.ahead 0).isTypeKeyword (s.ahead 1)

/-- Takes a delegate declaration from its keyword on. -/
def skipDelegate : Parse Unit := do
  let tok ← peek
  let _ ← takeUntil [.semi]
  if ← accept .semi then return ()
  failAt .openDelegate tok

/-- What a type declaration says before its members; a delegate is taken whole, and is none. -/
def typeOpening : Parse (Option TypeHeader) := do
  skipSections
  let start ← here
  let modifiers ← modifiers
  if ← check .delegateKw then
    skipDelegate
    return none
  else if ← atTypeKeyword then
    return some (← typeHeader start modifiers)
  else unexpected .typeDeclaration

/-- A type declaration from the end of its header on. Its text goes from an offset to the end of
the token taken last. -/
def typeRest (source : List Char) (textStart : Nat)
    (inner : (name : String) → Parse (List MemberDecl × List TypeDecl)) (header : TypeHeader) :
    Parse TypeDecl := do
  let body ← typeMembers header.keyword (inner header.name)
  let span ← spanFrom header.start
  let textStop := (← get).lastStop
  return header.declaration body span (declarationText source textStart textStop)

/-- A type declaration whose text starts at an offset; none for a delegate. -/
def typeFrom (source : List Char) (textStart : Nat)
    (inner : (name : String) → Parse (List MemberDecl × List TypeDecl)) :
    Parse (Option TypeDecl) := do
  match ← typeOpening with
  | none => return none
  | some header => return some (← typeRest source textStart inner header)

mutual

/-- A type declaration, within a bound on steps; none for a delegate. The text of a declaration
starts where the token before it ends. -/
def typeDeclarationWithin (source : List Char) : (bound : Nat) → Parse (Option TypeDecl)
  | 0 => exhausted
  | bound + 1 => do apart (typeFrom source (← get).lastStop (typeBodyWithin source bound))

/-- The members and nested types of a type up to its closing brace. -/
def typeBodyWithin (source : List Char) : (bound : Nat) → (name : String) →
    Parse (List MemberDecl × List TypeDecl)
  | 0, _ => exhausted
  | bound + 1, name => do
    if (← check .rbrace) || (← atEnd) then return ([], [])
    if ← accept .semi then return (← typeBodyWithin source bound name)
    if startsTypeDeclaration (← get).rest then
      let nested ← typeDeclarationWithin source bound
      let (members, more) ← typeBodyWithin source bound name
      return (members, nested.toList ++ more)
    let first ← member name
    let (members, nested) ← typeBodyWithin source bound name
    return (first ++ members, nested)

end

def typeDeclaration (source : List Char) : Parse (Option TypeDecl) := do
  typeDeclarationWithin source (← get).bound

-- ===== namespaces

/-- Takes the next token if it is this identifier. -/
def acceptWord (word : String) : Parse Bool := do
  if ← checkWord word then
    let _ ← advance
    return true
  return false

/-- The name that a using directive gives to its target, if it gives one. -/
def usingAlias : Parse (Option String) := do
  if ← checkBefore .ident [.eq] then
    let name ← advance
    let _ ← advance
    return some name.text
  return none

def usingDirective : Parse UsingDirective := do
  let start ← here
  let isGlobal ← acceptWord "global"
  let _ ← expect .usingKw .usingWord
  let isStatic ← accept .staticKw
  let aliasName ← usingAlias
  let target ← typeRef
  let _ ← expect .semi .usingEnd
  return { target, aliasName, isStatic, isGlobal, span := some (← spanFrom start) }

/-- The parts of a namespace's name after the first, within a bound on steps. -/
def namePartsWithin : (bound : Nat) → Parse (List String)
  | 0 => exhausted
  | bound + 1 => do
    if ← accept .dot then
      let part ← expect .ident .namespaceName
      return part.text :: (← namePartsWithin bound)
    return []

def nameParts : Parse (List String) := do
  namePartsWithin (← get).bound

/-- The name of a namespace. -/
def namespaceName : Parse String := do
  let first ← expect .ident .namespaceName
  return ".".intercalate (first.text :: (← nameParts))

/-- Passes over an item of a statement, and over the initializer of the local that it declares. -/
def skipItem : Parse Unit := do
  match ← item with
  | none => return ()
  | some e =>
    let _ ← localDeclaration e

/-- Passes over a statement at file level, up to its end or to the type declaration that follows
it, within a bound on steps. -/
def skipStatementWithin : (bound : Nat) → Parse Unit
  | 0 => exhausted
  | bound + 1 => do
    if ← atEnd then return ()
    if ← accept .semi then return ()
    let s ← get
    if (s.ahead 0).kind.isCloser then failAt .strayCloser (s.ahead 0)
    else if startsTypeDeclaration s.rest then return ()
    else
      skipItem
      skipStatementWithin bound

def skipStatement : Parse Unit := do
  skipStatementWithin (← get).bound

/-- Takes a directive up to its semicolon. -/
def skipDirective : Parse Unit := do
  let _ ← takeUntil [.semi]
  let _ ← accept .semi

/-- What stands between the braces of a namespace. -/
def bracedNamespace (inner : Parse NamespaceBody) : Parse NamespaceBody := do
  let _ ← expect .lbrace .namespaceOpen
  let body ← inner
  let _ ← expect .rbrace .namespaceClose
  let _ ← accept .semi
  return body

/-- What a namespace holds: all that follows in the file, or what stands between braces. -/
def namespaceContent (isFileScoped : Bool) (flat braced : Parse NamespaceBody) :
    Parse NamespaceBody :=
  if isFileScoped then flat else bracedNamespace braced

mutual

/-- What stands in a namespace or, at the top level, in a file; within a bound on steps. -/
def namespaceBodyWithin (source : List Char) : (bound : Nat) → (braced topLevel : Bool) →
    Parse NamespaceBody
  | 0, _, _ => exhausted
  | bound + 1, braced, topLevel => do
    let s ← get
    let tok := s.ahead 0
    let next := s.ahead 1
    if tok.kind = .eof || (braced && tok.kind = .rbrace) then return {}
    if tok.kind = .externKw && next.isWord "alias" then
      skipDirective
      namespaceBodyWithin source bound braced topLevel
    else if tok.kind = .usingKw || (tok.isWord "global" && next.kind = .usingKw) then
      let first ← usingDirective
      let more ← namespaceBodyWithin source bound braced topLevel
      return { more with usings := first :: more.usings }
    else if tok.kind = .namespaceKw then
      let first ← namespaceWithin source bound
      let more ← namespaceBodyWithin source bound braced topLevel
      return { more with namespaces := first :: more.namespaces }
    else if tok.kind = .semi then
      let _ ← advance
      namespaceBodyWithin source bound braced topLevel
    else if startsTypeDeclaration s.rest then
      let first ← typeDeclaration source
      let more ← namespaceBodyWithin source bound braced topLevel
      return { more with types := first.toList ++ more.types }
    else if topLevel then
      skipStatement
      namespaceBodyWithin source bound braced topLevel
    else failAt (.expected .typeDeclaration) tok

/-- A namespace declaration, within a bound on steps. -/
def namespaceWithin (source : List Char) : (bound : Nat) → Parse NamespaceDecl
  | 0 => exhausted
  | bound + 1 => do
    let start ← here
    let _ ← expect .namespaceKw .namespaceWord
    let name ← namespaceName
    let isFileScoped ← accept .semi
    let body ← namespaceContent isFileScoped (namespaceBodyWithin source bound false false)
      (namespaceBodyWithin source bound true false)
    return { name, usings := body.usings, types := body.types, namespaces := body.namespaces,
             isFileScoped, span := ← spanFrom start }

end

/-- A source file up to its end. -/
def sourceFile (source : List Char) : Parse SourceFile := do
  let start ← here
  let body ← namespaceBodyWithin source (← get).bound false true
  let _ ← expect .eof .endOfFile
  return { usings := body.usings, types := body.types, namespaces := body.namespaces,
           span := ← spanFrom start }

end Parse

-- ===== texts

/-- Why a text is not a source file. -/
inductive SourceError where
  | lex (e : LexError)
  | parse (e : ParseError)
deriving Repr

/-- The type that a text starts with, and what state it is read in. -/
def readType (text : String) (allowArray : Bool := true) :
    Except SourceError (TypeRef × ParseState) :=
  match tokenize text with
  | .error e => .error (.lex e)
  | .ok tokens =>
    match Parse.typeRef allowArray (.ofTokens tokens) with
    | .error e => .error (.parse e)
    | .ok r => .ok r

/-- The source file that a source with these tokens is, and the number after those of its
expressions. -/
def parseTokens (source : List Char) (tokens : List Token) (firstNode : Nat := 0) :
    Except ParseError (SourceFile × Nat) := do
  let (file, s) ← Parse.sourceFile (stripMark source) (.ofTokens tokens firstNode)
  return (file, s.nextNode)

/-- The source file that a text is, and the number after those of its expressions. -/
def SourceFile.parse (text : String) (firstNode : Nat := 0) :
    Except SourceError (SourceFile × Nat) :=
  match tokenize text with
  | .error e => .error (.lex e)
  | .ok tokens =>
    match parseTokens text.toList tokens firstNode with
    | .error e => .error (.parse e)
    | .ok r => .ok r

end SourceBundle
