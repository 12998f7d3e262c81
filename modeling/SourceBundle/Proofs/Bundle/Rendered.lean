/-
What stands in the text of a bundle. The text is its lines, each with
its end; and of each namespace that the block of a unit of the global
namespace would open there is a using at the top of the file.
-/
import Mathlib.Data.List.Infix
import SourceBundle.Bundle.Render
import SourceBundle.Proofs.Text.Distinct

namespace SourceBundle

open List

-- ===== lines

/-- The characters of lines, each with its end. -/
def Text.charsOf (lines : List String) : List Char :=
  lines.flatMap fun line => line.toList ++ ['\n']

theorem Text.toList_intercalate_newline {lines : List String} (hlines : lines ≠ []) :
    ("\n".intercalate lines ++ "\n").toList = Text.charsOf lines := by
  induction lines with
  | nil => exact absurd rfl hlines
  | cons line more ih =>
    cases more with
    | nil => simp [Text.charsOf]
    | cons next rest =>
      have hrest := ih (cons_ne_nil next rest)
      rw [String.toList_append] at hrest
      rw [String.intercalate_cons_cons, Text.charsOf, flatMap_cons, ← Text.charsOf,
        ← hrest]
      simp [String.toList_append]

namespace Bundle

variable {m : Type → Type} {s : Service m} {c : Context} {b : Bundle} {u : TypeUnit}
  {space : String}

theorem toList_text (b : Bundle) (s : Service m) (c : Context) :
    (b.text s c).toList = Text.charsOf (b.lines s c) :=
  Text.toList_intercalate_newline (by simp [lines, openingComment])

-- ===== usings

theorem using_mem_fileUsings (hu : u ∈ b.units) (hown : u.space.isEmpty = true)
    (hspace : space ∈ b.blockSpaces u) : usingLine space ∈ b.fileUsings s c := by
  refine Text.mem_distinct_iff.2 (mem_append_right _ (mem_flatMap.2 ⟨u, ?_, ?_⟩))
  · exact mem_filter.2 ⟨hu, hown⟩
  · exact mem_append_left _ (mem_map_of_mem hspace)

end Bundle

end SourceBundle
