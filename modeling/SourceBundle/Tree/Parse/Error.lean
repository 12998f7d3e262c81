/-
Why a token list is not a source file. Each error names what was
expected and the token that stood there instead.
-/
import SourceBundle.Token.Basic

namespace SourceBundle

/-- What the grammar expected at a token. -/
inductive Expected where
  | endOfFile
  | usingWord
  | usingEnd
  | namespaceWord
  | namespaceName
  | namespaceOpen
  | namespaceClose
  | typeDeclaration
  | typeName
  | typeHeaderOpen
  | typeClose
  | memberName
  | fieldEnd
  | methodBody
  | operatorWord
  | expressionBodyEnd
  | propertyInitEnd
  | constructorTarget
  | enumMemberName
  | enumClose
  | parameterName
  | parameterList
  | parametersClose
  | indexerClose
  | typeParamsOpen
  | typeParamName
  | typeParamsClose
  | type
  | typeArgsOpen
  | typeArgsClose
  | tupleClose
  | creationTail
  | braceOpen
  | blockClose
  | initializerClose
  | expressionClose
  | foreachClose
  | argumentList
  | argumentsClose
  | arrayTypeClose
  | bracketClose
  | indexClose
  | aliasedName
deriving DecidableEq, Repr

/-- The code of what was expected. -/
def Expected.code : Expected → String
  | endOfFile => "PAR-0001"
  | usingWord => "PAR-0010"
  | usingEnd => "PAR-0011"
  | namespaceWord | namespaceName => "PAR-0012"
  | namespaceOpen => "PAR-0013"
  | namespaceClose => "PAR-0014"
  | typeDeclaration => "PAR-0020"
  | typeName => "PAR-0021"
  | typeHeaderOpen => "PAR-0022"
  | typeClose => "PAR-0030"
  | memberName => "PAR-0040"
  | fieldEnd => "PAR-0041"
  | methodBody => "PAR-0042"
  | operatorWord => "PAR-0043"
  | expressionBodyEnd | propertyInitEnd => "PAR-0044"
  | constructorTarget => "PAR-0045"
  | enumMemberName => "PAR-0050"
  | enumClose => "PAR-0051"
  | parameterName => "PAR-0060"
  | parameterList | parametersClose => "PAR-0061"
  | indexerClose => "PAR-0062"
  | typeParamsOpen | typeParamName | typeParamsClose => "PAR-0063"
  | type => "PAR-0070"
  | typeArgsOpen | typeArgsClose => "PAR-0071"
  | tupleClose => "PAR-0072"
  | creationTail => "PAR-0080"
  | braceOpen | blockClose | initializerClose => "PAR-0090"
  | expressionClose | foreachClose => "PAR-0091"
  | argumentList | argumentsClose => "PAR-0092"
  | arrayTypeClose | bracketClose | indexClose => "PAR-0093"
  | aliasedName => "PAR-0094"

/-- The words for what was expected. -/
def Expected.words : Expected → String
  | endOfFile => "expected end of file"
  | usingWord => "expected 'using'"
  | usingEnd => "expected ';' after using directive"
  | namespaceWord => "expected 'namespace'"
  | namespaceName => "expected namespace name"
  | namespaceOpen => "expected '\x7b' after namespace name"
  | namespaceClose => "expected '\x7d' after namespace body"
  | typeDeclaration => "expected type declaration"
  | typeName => "expected type name"
  | typeHeaderOpen => "expected '\x7b' after type header"
  | typeClose => "expected '\x7d' after type body"
  | memberName => "expected member name"
  | fieldEnd => "expected ';' after field declaration"
  | methodBody => "expected method body"
  | operatorWord => "expected 'operator' after conversion keyword"
  | expressionBodyEnd => "expected ';' after expression body"
  | propertyInitEnd => "expected ';' after property initializer"
  | constructorTarget => "expected 'this' or 'base' in constructor initializer"
  | enumMemberName => "expected enum member name"
  | enumClose => "expected '\x7d' after enum body"
  | parameterName => "expected parameter name"
  | parameterList => "expected parameter list"
  | parametersClose => "expected ')' after parameters"
  | indexerClose => "expected ']' after indexer parameters"
  | typeParamsOpen => "expected '<'"
  | typeParamName => "expected type parameter name"
  | typeParamsClose => "expected '>' after type parameters"
  | type => "expected type"
  | typeArgsOpen => "expected '<'"
  | typeArgsClose => "expected '>' after type arguments"
  | tupleClose => "expected ')' after tuple type"
  | creationTail => "expected '(', '[' or '\x7b' after type in 'new' expression"
  | braceOpen => "expected '\x7b'"
  | blockClose => "expected '\x7d' after block"
  | initializerClose => "expected '\x7d' after initializer"
  | expressionClose => "expected ')' after expression"
  | foreachClose => "expected ')' after foreach header"
  | argumentList => "expected argument list"
  | argumentsClose => "expected ')' after arguments"
  | arrayTypeClose => "expected ']' in array type"
  | bracketClose => "expected ']'"
  | indexClose => "expected ']' after index arguments"
  | aliasedName => "expected identifier after '::'"

/-- What is wrong at a token. -/
inductive ParseFault where
  /-- Something else was expected. -/
  | expected (what : Expected)
  /-- The delegate declared by this token has no end. -/
  | openDelegate
  /-- The file ends inside the brackets that the kind opens. -/
  | unbalanced (opener : Kind)
  /-- A closing bracket stands in a statement at file level. -/
  | strayCloser
  /-- A token that stands for no value was read as a literal. -/
  | noLiteral
deriving DecidableEq, Repr

/-- A fault and the token it lies at. -/
structure ParseError where
  fault : ParseFault
  token : Token
deriving Repr

/-- The name of an opening bracket in messages. -/
def Kind.bracketName (k : Kind) : String :=
  k.name.map Char.toLower

def ParseFault.code : ParseFault → Option String
  | expected what => some what.code
  | openDelegate => some "PAR-0023"
  | unbalanced _ => some "PAR-0095"
  | strayCloser => some "PAR-0096"
  | noLiteral => none

/-- What an error says after its code. -/
def ParseError.words (e : ParseError) : String :=
  match e.fault with
  | .expected what => what.words ++ ", got " ++ e.token.shown ++ " instead"
  | .openDelegate => "expected ';' after delegate declaration"
  | .unbalanced opener => "unbalanced '" ++ opener.bracketName ++ "'"
  | .strayCloser => "unexpected " ++ e.token.shown ++ " in top-level statement"
  | .noLiteral => "no literal: " ++ e.token.shown

def ParseError.message (e : ParseError) : String :=
  match e.fault.code with
  | some code => "[" ++ code ++ "] " ++ e.words
  | none => e.words

end SourceBundle
