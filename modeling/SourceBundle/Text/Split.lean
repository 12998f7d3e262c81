/-
Texts cut at each place where a character stands.
-/

namespace SourceBundle.Text

/-- The pieces of a text between the places where a character stands; one more than these. -/
def splitAt (sep : Char) (text : String) : List String :=
  (text.toList.splitOn sep).map String.ofList

end SourceBundle.Text
