/-
Token kinds, their names, and the tables that give reserved words and
operators their kind. A kind of its own goes to each word or mark that
the grammar branches on; all other reserved words share one kind, and
so do all other operators.
-/

namespace SourceBundle

/-- What a token is to the grammar. -/
inductive Kind where
  | eof
  | ident
  | number
  | char
  | string
  | interpolated
  | predefinedType
  | keyword
  | namespaceKw
  | usingKw
  | classKw
  | structKw
  | interfaceKw
  | enumKw
  | delegateKw
  | newKw
  | thisKw
  | baseKw
  | trueKw
  | falseKw
  | nullKw
  | staticKw
  | operatorKw
  | eventKw
  | implicitKw
  | explicitKw
  | externKw
  | typeofKw
  | sizeofKw
  | defaultKw
  | foreachKw
  | inKw
  | outKw
  | refKw
  | paramsKw
  | isKw
  | asKw
  | lbrace
  | rbrace
  | lparen
  | rparen
  | lbracket
  | rbracket
  | comma
  | semi
  | colon
  | doubleColon
  | dot
  | question
  | questionDot
  | arrow
  | eq
  | lt
  | gt
  | bang
  | star
  | tilde
  | op
deriving DecidableEq, Repr, Inhabited

namespace Kind

def name : Kind → String
  | eof => "EOF"
  | ident => "IDENT"
  | number => "NUMBER"
  | char => "CHAR"
  | string => "STRING"
  | interpolated => "INTERPOLATED_STRING"
  | predefinedType => "PREDEFINED_TYPE"
  | keyword => "KEYWORD"
  | namespaceKw => "NAMESPACE"
  | usingKw => "USING"
  | classKw => "CLASS"
  | structKw => "STRUCT"
  | interfaceKw => "INTERFACE"
  | enumKw => "ENUM"
  | delegateKw => "DELEGATE"
  | newKw => "NEW"
  | thisKw => "THIS"
  | baseKw => "BASE"
  | trueKw => "TRUE"
  | falseKw => "FALSE"
  | nullKw => "NULL"
  | staticKw => "STATIC"
  | operatorKw => "OPERATOR"
  | eventKw => "EVENT"
  | implicitKw => "IMPLICIT"
  | explicitKw => "EXPLICIT"
  | externKw => "EXTERN"
  | typeofKw => "TYPEOF"
  | sizeofKw => "SIZEOF"
  | defaultKw => "DEFAULT"
  | foreachKw => "FOREACH"
  | inKw => "IN"
  | outKw => "OUT"
  | refKw => "REF"
  | paramsKw => "PARAMS"
  | isKw => "IS"
  | asKw => "AS"
  | lbrace => "LBRACE"
  | rbrace => "RBRACE"
  | lparen => "LPAREN"
  | rparen => "RPAREN"
  | lbracket => "LBRACKET"
  | rbracket => "RBRACKET"
  | comma => "COMMA"
  | semi => "SEMI"
  | colon => "COLON"
  | doubleColon => "DOUBLE_COLON"
  | dot => "DOT"
  | question => "QUESTION"
  | questionDot => "QUESTION_DOT"
  | arrow => "ARROW"
  | eq => "EQ"
  | lt => "LT"
  | gt => "GT"
  | bang => "BANG"
  | star => "STAR"
  | tilde => "TILDE"
  | op => "OP"

/-- The brackets that close a group: `)`, `]` and `}`. -/
def isCloser (k : Kind) : Bool :=
  k = rparen || k = rbracket || k = rbrace

end Kind

-- ===== reserved words

/-- Reserved words with a kind of their own. -/
def branchWords : List (String × Kind) :=
  [("namespace", .namespaceKw), ("using", .usingKw), ("class", .classKw), ("struct", .structKw),
   ("interface", .interfaceKw), ("enum", .enumKw), ("delegate", .delegateKw), ("new", .newKw),
   ("this", .thisKw), ("base", .baseKw), ("true", .trueKw), ("false", .falseKw),
   ("null", .nullKw), ("static", .staticKw), ("operator", .operatorKw), ("event", .eventKw),
   ("implicit", .implicitKw), ("explicit", .explicitKw), ("extern", .externKw),
   ("typeof", .typeofKw), ("sizeof", .sizeofKw), ("default", .defaultKw),
   ("foreach", .foreachKw), ("in", .inKw), ("out", .outKw), ("ref", .refKw),
   ("params", .paramsKw), ("is", .isKw), ("as", .asKw)]

/-- The names of the predefined types. -/
def predefinedTypes : List String :=
  ["bool", "byte", "sbyte", "char", "decimal", "double", "float", "int", "uint", "long",
   "ulong", "short", "ushort", "object", "string", "void"]

/-- Reserved words that the grammar tells apart by their text at most. -/
def plainKeywords : List String :=
  ["abstract", "break", "case", "catch", "checked", "const", "continue", "do", "else",
   "finally", "fixed", "for", "goto", "if", "internal", "lock", "override", "private",
   "protected", "public", "readonly", "return", "sealed", "stackalloc", "switch", "throw",
   "try", "unchecked", "unsafe", "virtual", "volatile", "while"]

/-- The kind of a word written without `@`. -/
def Kind.ofWord (word : String) : Kind :=
  match branchWords.lookup word with
  | some kind => kind
  | none =>
    if predefinedTypes.contains word then .predefinedType
    else if plainKeywords.contains word then .keyword
    else .ident

-- ===== operators

/-- Operators of several characters. The first that fits is taken, so the longer ones stand
first. Two `>` are never joined, which lets nested type arguments close. -/
def compoundOperators : List (String × Kind) :=
  [("<<=", .op), ("??=", .op), ("...", .op), ("::", .doubleColon), ("?.", .questionDot),
   ("=>", .arrow), ("==", .op), ("!=", .op), ("<=", .op), (">=", .op), ("&&", .op), ("||", .op),
   ("++", .op), ("--", .op), ("+=", .op), ("-=", .op), ("*=", .op), ("/=", .op), ("%=", .op),
   ("&=", .op), ("|=", .op), ("^=", .op), ("->", .op), ("??", .op), ("<<", .op), ("..", .op)]

/-- The kind of a mark of one character. -/
def Kind.ofMark? (c : Char) : Option Kind :=
  match c with
  | '\x7b' => some .lbrace
  | '\x7d' => some .rbrace
  | '(' => some .lparen
  | ')' => some .rparen
  | '[' => some .lbracket
  | ']' => some .rbracket
  | ',' => some .comma
  | ';' => some .semi
  | ':' => some .colon
  | '.' => some .dot
  | '?' => some .question
  | '=' => some .eq
  | '<' => some .lt
  | '>' => some .gt
  | '!' => some .bang
  | '*' => some .star
  | '~' => some .tilde
  | '+' | '-' | '/' | '%' | '&' | '|' | '^' => some .op
  | _ => none

end SourceBundle
