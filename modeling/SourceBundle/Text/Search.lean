/-
Searching text for simple shapes: a matcher looks at the text from one
place on and gives what it found together with the text after it.
-/
import SourceBundle.Text.Blank

namespace SourceBundle.Text

/-- A matcher at one place of a text. -/
abbrev Matcher (α : Type) := List Char → Option (α × List Char)

/-- A letter without its case. Dotted and dotless i, long s and the Kelvin sign differ from ASCII
letters by case alone. -/
def foldCase (c : Char) : Char :=
  if c = '\u0130' || c = '\u0131' then 'i'
  else if c = '\u017f' then 's'
  else if c = '\u212a' then 'k'
  else c.toLower

/-- The text after a fixed start. -/
def after? (word : List Char) (cs : List Char) : Option (List Char) :=
  if word.isPrefixOf cs then some (cs.drop word.length) else none

/-- The text after a fixed start in upper or lower case. -/
def afterFolded? (word : String) (cs : List Char) : Option (List Char) :=
  if word.toList.map foldCase = (cs.take word.length).map foldCase then some (cs.drop word.length)
  else none

/-- The text after any blanks. -/
def afterBlanks (cs : List Char) : List Char :=
  cs.dropWhile isBlank

/-- What stands before the next double quote, and the text after it. -/
def upToQuote? (cs : List Char) : Option (String × List Char) :=
  match cs.dropWhile (· ≠ '"') with
  | [] => none
  | _ :: rest => some (String.ofList (cs.takeWhile (· ≠ '"')), rest)

/-- All matches, each search starting after the match before it. The matcher is told whether it
stands at the start of a line. -/
def matchesFrom {α : Type} (m : Bool → Matcher α) :
    (skip : Nat) → (lineStart : Bool) → List Char → List α
  | _, _, [] => []
  | skip + 1, _, c :: cs => matchesFrom m skip (c = '\n') cs
  | 0, lineStart, c :: cs =>
    match m lineStart (c :: cs) with
    | some (a, rest) => a :: matchesFrom m (cs.length - rest.length) (c = '\n') cs
    | none => matchesFrom m 0 (c = '\n') cs

/-- All matches in a text. -/
def allMatches {α : Type} (m : Matcher α) (text : String) : List α :=
  matchesFrom (fun _ => m) 0 true text.toList

/-- All matches at the starts of lines of a text. -/
def lineMatches {α : Type} (m : Matcher α) (text : String) : List α :=
  matchesFrom (fun lineStart => if lineStart then m else fun _ => none) 0 true text.toList

end SourceBundle.Text
