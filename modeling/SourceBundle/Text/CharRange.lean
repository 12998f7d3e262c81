/-
Sets of characters given by ranges of code points. The character
classes of this folder are ASCII tests joined to such a table, so that
the plain case is decided without walking the ranges.
-/

namespace SourceBundle.Text

/-- Inclusive ranges of code points, in increasing order. -/
abbrev CharRanges := List (Nat × Nat)

namespace CharRanges

/-- The ranges of a table of runs: the numbers of characters outside and inside in turn, from a code
point on. -/
def ofRuns (start : Nat) : List Nat → CharRanges
  | outside :: inside :: more =>
    (start + outside, start + outside + inside - 1) :: ofRuns (start + outside + inside) more
  | _ => []

/-- Whether some range holds the character. -/
def has (ranges : CharRanges) (c : Char) : Bool :=
  ranges.any fun r => r.1 ≤ c.toNat && c.toNat ≤ r.2

/-- The start of the range that holds the character. -/
def startOf? (ranges : CharRanges) (c : Char) : Option Nat :=
  (ranges.find? fun r => r.1 ≤ c.toNat && c.toNat ≤ r.2).map Prod.fst

end CharRanges

end SourceBundle.Text
