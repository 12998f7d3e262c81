/-
Lines of text: the three ways of ending a line made one, and a text cut
into its lines.
-/

namespace SourceBundle.Text

/-- Ends all lines alike; `done` holds what comes before, last character first. -/
def unifyFrom (done : List Char) : List Char → List Char
  | [] => done.reverse
  | '\r' :: '\n' :: cs => unifyFrom ('\n' :: done) cs
  | c :: cs => unifyFrom ((if c = '\r' then '\n' else c) :: done) cs

/-- A text whose lines all end in a line feed. -/
def unifyLineEnds (cs : List Char) : List Char :=
  unifyFrom [] cs

/-- Drops carriage returns in front of line feeds; `done` holds what comes before, last character
first. -/
def dropReturnsFrom (done : List Char) : List Char → List Char
  | [] => done.reverse
  | '\r' :: '\n' :: cs => dropReturnsFrom ('\n' :: done) cs
  | c :: cs => dropReturnsFrom (c :: done) cs

/-- A text without the carriage returns in front of its line feeds. -/
def dropReturns (cs : List Char) : List Char :=
  dropReturnsFrom [] cs

/-- Whether a character ends a line, of those that may stand alone. -/
def isLineEnd (c : Char) : Bool :=
  ['\n', '\r', '\x0b', '\x0c', '\x1c', '\x1d', '\x1e', '\u0085', '\u2028', '\u2029'].contains c

/-- The lines of a text, after `line`, which is the start of the first one with its last
character first, and `done`, the lines before, last one first. -/
def linesFrom (done : List String) (line : List Char) : List Char → List String
  | [] => (if line.isEmpty then done else String.ofList line.reverse :: done).reverse
  | '\r' :: '\n' :: cs => linesFrom (String.ofList line.reverse :: done) [] cs
  | c :: cs =>
    if isLineEnd c then linesFrom (String.ofList line.reverse :: done) [] cs
    else linesFrom done (c :: line) cs

/-- The lines of a text without what ends them. Nothing after the last end is no line. -/
def lines (text : String) : List String :=
  linesFrom [] [] text.toList

end SourceBundle.Text
