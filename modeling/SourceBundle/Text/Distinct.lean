/-
Lists without repetition: of several elements with the same key the
first one stays, at its place.
-/

namespace SourceBundle.Text

/-- The elements whose key was not seen before. -/
def distinctFrom {α β : Type} [BEq β] (key : α → β) (seen : List β) : List α → List α
  | [] => []
  | a :: as =>
    if seen.contains (key a) then distinctFrom key seen as
    else a :: distinctFrom key (key a :: seen) as

/-- The first element of each key, in order. -/
def distinctBy {α β : Type} [BEq β] (key : α → β) (as : List α) : List α :=
  distinctFrom key [] as

/-- The elements in order of their first occurrence. -/
def distinct {α : Type} [BEq α] (as : List α) : List α :=
  distinctBy id as

end SourceBundle.Text
