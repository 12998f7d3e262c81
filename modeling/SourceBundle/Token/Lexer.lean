/-
Reading a source text into tokens. The text is a row of gaps and
lexemes; the holes of an interpolated literal are read in the same way,
at their own place in the text.
-/
import SourceBundle.Token.Basic
import SourceBundle.Token.Lexeme

namespace SourceBundle

-- ===== errors

/-- A fault and where it lies. -/
structure LexError where
  fault : LexFault
  line : Nat
  column : Nat
deriving DecidableEq, Repr

namespace LexFault

def message : LexFault → String
  | unterminatedString => "[LEX-0010] unterminated string literal"
  | unterminatedVerbatim => "[LEX-0011] unterminated verbatim string literal"
  | unterminatedRaw => "[LEX-0011] unterminated raw string literal"
  | unterminatedChar => "[LEX-0020] unterminated char literal"
  | unexpected c => "[LEX-0040] unexpected character " ++ Text.quoted (String.singleton c)
  | unterminatedHole => "[LEX-0050] unterminated interpolation hole"
  | unterminatedComment => "[LEX-0070] unterminated block comment"

end LexFault

def LexError.message (e : LexError) : String :=
  e.fault.message

/-- A fault after some characters of a text that starts at `p`. -/
def LexError.place (p : Pos) (cs : List Char) (f : FaultAt) : LexError :=
  let at' := p.advance (cs.take f.2)
  ⟨f.1, at'.line, at'.column⟩

-- ===== tokens

/-- The token of `length` characters at the front of a text, `hidden` of which are no part of
its text. -/
def Token.cut (kind : Kind) (p : Pos) (cs : List Char) (hidden length : Nat)
    (dotless : kind = .ident → '.' ∉ (cs.take length).drop hidden)
    (holes : Option (List (List Token)) := none) : Token :=
  { kind, text := String.ofList ((cs.take length).drop hidden), line := p.line,
    column := p.column, start := p.offset, stop := p.offset + length, holes,
    dotless := fun hkind => Text.dotless_ofList (dotless hkind) }

/-- The tokens of the holes of a literal, if it has any that are to be read. -/
def holeTokens (inner : Pos → List Char → Except LexError (List Token)) (p : Pos) (cs : List Char) :
    Option (List HoleRange) → Except LexError (Option (List (List Token)))
  | none => .ok none
  | some holes => do
    return some (← holes.mapM fun hole =>
      inner (p.advance (cs.take hole.start)) ((cs.drop hole.start).take hole.length))

/-- The token at the front of a text that is not empty and starts with no gap, and its length.
`inner` reads the holes of a literal. -/
def tokenAt (inner : Pos → List Char → Except LexError (List Token)) (p : Pos) (cs : List Char) :
    Except LexError (Token × Nat) :=
  match hlexeme : lexeme cs with
  | .error f => .error (LexError.place p cs f)
  | .ok l => do
    let holes ← holeTokens inner p cs l.holes
    match hlength : l.length with
    | .error f => .error (LexError.place p cs f)
    | .ok n => .ok (Token.cut l.kind p cs l.hidden n (dotless_of_lexeme hlexeme hlength) holes, n)

/-- The tokens of a text that starts at `p`, closed by an end token. `fresh` says that the text
stands at the start of a line. The bound on steps is met by any number above the length of the
text, because each token takes a character and a hole is shorter than its literal. -/
def tokensFrom : (bound : Nat) → Pos → (fresh : Bool) → List Char → Except LexError (List Token)
  | 0, p, _, _ => .ok [Token.eof p]
  | bound + 1, p, fresh, cs =>
    match gapLength fresh cs with
    | .error f => .error (LexError.place p cs f)
    | .ok gap =>
      let p := p.advance (cs.take gap)
      let cs := cs.drop gap
      if cs.isEmpty then .ok [Token.eof p]
      else do
        let (token, n) ← tokenAt (tokensFrom bound · true ·) p cs
        let more ← tokensFrom bound (p.advance (cs.take n)) false (cs.drop n)
        return token :: more

/-- A source text without the byte order mark that may open it. -/
def stripMark : List Char → List Char
  | '\ufeff' :: cs => cs
  | cs => cs

/-- The tokens of a source, closed by an end token. A byte order mark at its front is not part of
it. -/
def tokenizeChars (source : List Char) : Except LexError (List Token) :=
  let cs := stripMark source
  tokensFrom (cs.length + 1) {} true cs

def tokenize (source : String) : Except LexError (List Token) :=
  tokenizeChars source.toList

end SourceBundle
