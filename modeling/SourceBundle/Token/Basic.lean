/-
Tokens and the positions they carry. Lines and columns count from one,
offsets from zero, all in code points. An interpolated string carries
the tokens of its holes, each list closed by an end token.
-/
import SourceBundle.Text.Dotted
import SourceBundle.Text.Quoted
import SourceBundle.Token.Kind

namespace SourceBundle

-- ===== positions

/-- A place in a source text. -/
structure Pos where
  line : Nat := 1
  column : Nat := 1
  offset : Nat := 0
deriving DecidableEq, Repr, Inhabited

namespace Pos

/-- The place after one character: a newline opens the next line. -/
def step (p : Pos) (c : Char) : Pos :=
  if c = '\n' then ⟨p.line + 1, 1, p.offset + 1⟩ else ⟨p.line, p.column + 1, p.offset + 1⟩

/-- The place after a run of characters. -/
def advance (p : Pos) (cs : List Char) : Pos :=
  cs.foldl step p

end Pos

-- ===== tokens

/-- A token: its kind, its text, where it starts, and the offset past its last character.
`holes` is set for an interpolated string whose holes were read. No identifier has a dot. -/
structure Token where
  kind : Kind
  text : String
  line : Nat
  column : Nat
  start : Nat
  stop : Nat
  holes : Option (List (List Token)) := none
  dotless : kind = .ident → Text.Dotless text
deriving Repr

namespace Token

/-- The token that ends a list, at the given place. -/
def eof (p : Pos) : Token :=
  { kind := .eof, text := "", line := p.line, column := p.column, start := p.offset,
    stop := p.offset, dotless := nofun }

instance : Inhabited Token := ⟨eof {}⟩

/-- The token as messages show it: its quoted text, or a name for the end of the file. -/
def shown (t : Token) : String :=
  if t.kind = .eof then "end-of-file" else Text.quoted t.text

/-- Whether the token is an identifier with this text. -/
def isWord (t : Token) (word : String) : Bool :=
  t.kind = .ident && t.text = word

mutual

/-- How many tokens there are in a token, those of its holes included. -/
def weight : Token → Nat
  | { holes := some hs, .. } => 1 + holesWeight hs
  | { holes := none, .. } => 1
termination_by structural t => t

/-- How many tokens there are in a list of tokens, holes included. -/
def listWeight : List Token → Nat
  | [] => 0
  | t :: ts => weight t + listWeight ts
termination_by structural ts => ts

/-- How many tokens there are in a list of holes. -/
def holesWeight : List (List Token) → Nat
  | [] => 0
  | h :: hs => listWeight h + holesWeight hs
termination_by structural hs => hs

end

end Token

end SourceBundle
