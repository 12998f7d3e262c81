/-
The text of a declaration is the stretch of the source that it takes up,
without the blank lines in front. So the stretch is some blank lines and
then the text (`stretchOf_eq`), and blank lines more or less in
front of a stretch do not change the text (`declarationText_congr`).
-/
import SourceBundle.Tree.Parse.File

namespace SourceBundle

open List hiding splitAt
open Text

variable {cs ds gap gap' line : List Char}

-- ===== blank lines

/-- Lines of blanks, each with its end. -/
inductive BlankLines : List Char → Prop
  | nil : BlankLines []
  | cons {line gap : List Char} : (∀ c ∈ line, isBlank c = true) → '\n' ∉ line → BlankLines gap →
      BlankLines (line ++ '\n' :: gap)

/-- A text without the blank lines in front. -/
def dropBlankLines (cs : List Char) : List Char :=
  ['\n'].intercalate ((cs.splitOn '\n').dropWhile (·.all isBlank))

theorem dropBlankLines_cons (hline : ∀ c ∈ line, isBlank c = true) (hend : '\n' ∉ line)
    (cs : List Char) : dropBlankLines (line ++ '\n' :: cs) = dropBlankLines cs := by
  rw [dropBlankLines, splitOn_append_cons_self_of_not_mem hend,
    dropWhile_cons_of_pos (by rwa [all_eq_true]), dropBlankLines]

theorem BlankLines.dropBlankLines_append (h : BlankLines gap) (cs : List Char) :
    dropBlankLines (gap ++ cs) = dropBlankLines cs := by
  induction h with
  | nil => rfl
  | cons hline hend _ ih => rw [append_assoc, cons_append, dropBlankLines_cons hline hend, ih]

/-- A first line that is not blank stays, and with it all that follows. -/
theorem dropBlankLines_of_not_blank {lines : List (List Char)}
    (hcs : cs.splitOn '\n' = line :: lines)
    (hline : ¬ ∀ c ∈ line, isBlank c = true) : dropBlankLines cs = cs := by
  rw [dropBlankLines, hcs, dropWhile_cons_of_neg (by rwa [all_eq_true]), ← hcs,
    intercalate_splitOn]

/-- A text that is not all blanks is blank lines and what is left without them. -/
theorem exists_blankLines {c : Char} (hc : c ∈ cs) (hblank : isBlank c = false) :
    ∃ gap, BlankLines gap ∧ cs = gap ++ dropBlankLines cs := by
  induction hn : cs.length using Nat.strongRecOn generalizing cs with
  | ind n ih =>
  subst hn
  by_cases hend : '\n' ∈ cs
  · obtain ⟨line, rest, rfl, hline⟩ := eq_append_cons_of_mem hend
    by_cases hall : ∀ c ∈ line, isBlank c = true
    · have hrest : c ∈ rest := by
        rcases mem_append.1 hc with hc | hc
        · rw [hall c hc] at hblank
          cases hblank
        · rcases mem_cons.1 hc with rfl | hc
          · cases hblank
          · exact hc
      obtain ⟨gap, hgap, hsplit⟩ := ih rest.length (by simp; omega) hrest rfl
      refine ⟨line ++ '\n' :: gap, .cons hall hline hgap, ?_⟩
      rw [dropBlankLines_cons hall hline, append_assoc, cons_append, ← hsplit]
    · exact ⟨[], .nil, (dropBlankLines_of_not_blank
        (splitOn_append_cons_self_of_not_mem hline rest) hall).symm⟩
  · refine ⟨[], .nil, (dropBlankLines_of_not_blank (splitOn_eq_singleton hend) ?_).symm⟩
    intro hall
    rw [hall c hc] at hblank
    cases hblank

-- ===== text of a stretch

theorem dropReturns_of_notMem (h : '\r' ∉ cs) : dropReturns cs = cs := by
  suffices hfrom : ∀ done, dropReturnsFrom done cs = done.reverse ++ cs from hfrom []
  intro done
  fun_induction dropReturnsFrom done cs with
  | case1 => exact (append_nil _).symm
  | case2 => exact absurd (mem_cons_self ..) h
  | case3 done c cs _ ih =>
    rw [ih (fun hmem => h (mem_cons_of_mem c hmem)), reverse_cons, append_assoc]
    rfl

/-- The characters of a source between two offsets. -/
def stretchOf (source : List Char) (start stop : Nat) : List Char :=
  (source.drop start).take (stop - start)

variable {source source' : List Char} {start start' stop stop' : Nat}

theorem toList_declarationText (h : '\r' ∉ source) (start stop : Nat) :
    (declarationText source start stop).toList = dropBlankLines (stretchOf source start stop) := by
  have hstretch : '\r' ∉ stretchOf source start stop := fun hmem =>
    h (mem_of_mem_drop (mem_of_mem_take hmem))
  rw [declarationText, String.toList_intercalate]
  show intercalate _ (map _ (dropWhile _
    (splitAt '\n' (.ofList (dropReturns (stretchOf source start stop)))))) = _
  rw [dropReturns_of_notMem hstretch, splitAt, String.toList_ofList, dropWhile_map,
    map_map, dropBlankLines]
  simp [Function.comp_def, stretchOf]

/-- The text of a declaration does not depend on the blank lines in front of it. -/
theorem declarationText_congr (h : '\r' ∉ source) (h' : '\r' ∉ source') (hgap : BlankLines gap)
    (hgap' : BlankLines gap') (hcs : stretchOf source start stop = gap ++ cs)
    (hcs' : stretchOf source' start' stop' = gap' ++ cs) :
    declarationText source start stop = declarationText source' start' stop' := by
  rw [← String.toList_inj, toList_declarationText h, toList_declarationText h', hcs, hcs',
    hgap.dropBlankLines_append, hgap'.dropBlankLines_append]

/-- A stretch that is not all blanks is blank lines and the text of its declaration. -/
theorem stretchOf_eq {c : Char} (h : '\r' ∉ source) (hc : c ∈ stretchOf source start stop)
    (hblank : isBlank c = false) :
    ∃ gap, BlankLines gap
      ∧ stretchOf source start stop = gap ++ (declarationText source start stop).toList := by
  rw [toList_declarationText h]
  exact exists_blankLines hc hblank

end SourceBundle
