/-
The line that a diagnostic is shown with. A source is counted in lines by its
line feeds, and a file is shown in lines by all that can end one; the two
agree on a place if nothing but line feeds ends a line up to it.
-/
import SourceBundle.Proofs.Token.Tiling
import SourceBundle.Snippet

namespace SourceBundle

open List

variable {p : Pos} {cs ds : List Char} {line column n : Nat}

-- ===== the places of a source

/-- The place of a token, and those of the tokens in its holes. -/
inductive Token.PlaceAt : Token → Nat → Nat → Prop where
  | self (t : Token) : t.PlaceAt t.line t.column
  | hole {t inner : Token} {hole : List Token} {holes : List (List Token)} {line column : Nat}
      (hholes : t.holes = some holes) (hhole : hole ∈ holes) (hinner : inner ∈ hole)
      (hplace : inner.PlaceAt line column) : t.PlaceAt line column

/-- Where a source was cut: at its tokens, those in holes included, or at its fault. -/
def PlaceIn : Except LexError (List Token) → Nat → Nat → Prop
  | .error e, line, column => line = e.line ∧ column = e.column
  | .ok ts, line, column => ∃ t ∈ ts, t.PlaceAt line column

/-- A place after some of the characters of a text that starts at `p`. -/
def After (p : Pos) (cs : List Char) (line column : Nat) : Prop :=
  ∃ ds, ds <+: cs ∧ (p.advance ds).line = line ∧ (p.advance ds).column = column

theorem After.shift (h : After (p.advance (cs.take n)) ds line column) (hds : ds <+: cs.drop n) :
    After p cs line column := by
  obtain ⟨es, hes, hplace⟩ := h
  refine ⟨cs.take n ++ es, ?_, Pos.advance_append p _ es ▸ hplace⟩
  conv_rhs => rw [← take_append_drop n cs]
  exact (prefix_append_right_inj _).2 (hes.trans hds)

/-- All places of tokens lie on a text. -/
def TokensOn (p : Pos) (cs : List Char) (ts : List Token) : Prop :=
  ∀ t ∈ ts, ∀ line column, t.PlaceAt line column → After p cs line column

/-- A token that stands at the start of a text lies on it if its holes do. -/
theorem tokensOn_singleton {t : Token} (hplace : t.line = p.line ∧ t.column = p.column)
    (hholes : ∀ hs, t.holes = some hs → ∀ hole ∈ hs, TokensOn p cs hole) :
    TokensOn p cs [t] := by
  refine forall_mem_singleton.2 fun line column h => ?_
  cases h with
  | self => exact ⟨[], nil_prefix, hplace.1.symm, hplace.2.symm⟩
  | hole hs hhole hinner hplace => exact hholes _ hs _ hhole _ hinner _ _ hplace

/-- A result of a text: its fault lies on the text, or what was read is as it should be. -/
def Placed {α : Type} (p : Pos) (cs : List Char) (good : α → Prop) : Except LexError α → Prop
  | .error e => After p cs e.line e.column
  | .ok a => good a

section

variable {α β : Type} {good : α → Prop} {better : β → Prop} {r : Except LexError α}

theorem placed_place (p : Pos) (cs : List Char) (good : α → Prop) (f : FaultAt) :
    Placed p cs good (.error (LexError.place p cs f)) :=
  ⟨cs.take f.2, take_prefix _ _, rfl, rfl⟩

theorem Placed.bind {f : α → Except LexError β} (h : Placed p cs good r)
    (hf : ∀ a, good a → Placed p cs better (f a)) : Placed p cs better (r >>= f) := by
  cases r with
  | error e => exact h
  | ok a => exact hf a h

theorem placed_mapM {f : β → Except LexError α} (h : ∀ b, Placed p cs good (f b))
    (bs : List β) : Placed p cs (fun as => ∀ a ∈ as, good a) (bs.mapM f) := by
  induction bs with
  | nil => nofun
  | cons b bs ih =>
    rw [mapM_cons]
    exact (h b).bind fun a ha => ih.bind fun as has => forall_mem_cons.2 ⟨ha, has⟩

end

theorem Placed.shift {r : Except LexError (List Token)}
    (h : Placed (p.advance (cs.take n)) ds (TokensOn (p.advance (cs.take n)) ds) r)
    (hds : ds <+: cs.drop n) : Placed p cs (TokensOn p cs) r := by
  cases r with
  | error e => exact After.shift h hds
  | ok ts => exact fun t ht line column hplace => (h t ht line column hplace).shift hds

theorem placed_tokenAt {inner : Pos → List Char → Except LexError (List Token)}
    (hinner : ∀ p cs, Placed p cs (TokensOn p cs) (inner p cs)) :
    Placed p cs (fun r => TokensOn p cs [r.1]) (tokenAt inner p cs) := by
  unfold tokenAt
  split
  next => exact placed_place p cs _ _
  next l hl =>
    have hholes : Placed p cs (fun r => ∀ hs, r = some hs → ∀ hole ∈ hs, TokensOn p cs hole)
        (holeTokens inner p cs l.holes) := by
      unfold holeTokens
      split
      next => nofun
      next holes hl =>
        have hhole : ∀ hole : HoleRange, Placed p cs (TokensOn p cs)
            (inner (p.advance (cs.take hole.start))
              ((cs.drop hole.start).take hole.length)) := by
          intro hole
          apply (hinner _ _).shift
          exact take_prefix _ _
        refine (placed_mapM hhole holes).bind ?_
        rintro hs hhs _ ⟨⟩
        exact hhs
    refine hholes.bind fun hs hhs => ?_
    split
    next => exact placed_place p cs _ _
    next n hn => exact tokensOn_singleton ⟨rfl, rfl⟩ hhs

/-- The tokens of a text, and its fault, lie on it. -/
theorem placed_tokensFrom (bound : Nat) (p : Pos) (fresh : Bool) (cs : List Char) :
    Placed p cs (TokensOn p cs) (tokensFrom bound p fresh cs) := by
  induction bound generalizing p fresh cs with
  | zero => exact tokensOn_singleton ⟨rfl, rfl⟩ (fun _ h => by cases h)
  | succ bound ih =>
    rw [tokensFrom]
    split
    next => exact placed_place p cs _ _
    next gap hgap =>
      refine Placed.shift (n := gap) ?_ (prefix_refl _)
      dsimp only
      generalize p.advance (cs.take gap) = p, cs.drop gap = cs
      split
      · exact tokensOn_singleton ⟨rfl, rfl⟩ (fun _ h => by cases h)
      · refine (placed_tokenAt fun p cs => ih p true cs).bind fun r ht => ?_
        refine ((ih _ false _).shift (prefix_refl _)).bind fun ts hts => ?_
        exact forall_mem_cons.2 ⟨ht r.1 (mem_singleton_self r.1), hts⟩

theorem after_of_placeIn {text : String} (h : PlaceIn (tokenize text) line column) :
    After {} (stripMark text.toList) line column := by
  have hplaced := placed_tokensFrom ((stripMark text.toList).length + 1) {} true
    (stripMark text.toList)
  change PlaceIn (tokensFrom ((stripMark text.toList).length + 1) {} true _) line column at h
  cases hr : tokensFrom ((stripMark text.toList).length + 1) {} true (stripMark text.toList) with
  | error e =>
    rw [hr] at h hplaced
    rwa [h.1, h.2]
  | ok ts =>
    rw [hr] at h hplaced
    obtain ⟨t, ht, hplace⟩ := h
    exact hplaced t ht line column hplace

-- ===== rows and lines

theorem takeWhile_append_newline (xs ys : List Char) :
    (xs ++ '\n' :: ys).takeWhile (· ≠ '\n') = xs.takeWhile (· ≠ '\n') := by
  induction xs with
  | nil => rfl
  | cons x xs ih =>
    rw [cons_append, takeWhile_cons, takeWhile_cons, ih]

/-- The row that a place lies on reaches as far as its column. -/
theorem exists_row_of_prefix (h : ds <+: cs) : ∃ row, (cs.splitOn '\n')[ds.count '\n']? = some row
    ∧ (ds.reverse.takeWhile (· ≠ '\n')).length ≤ row.length := by
  obtain ⟨after, rfl⟩ := h
  induction hn : ds.length using Nat.strongRecOn generalizing ds with
  | ind n ih =>
  subst hn
  by_cases hend : '\n' ∈ ds
  · -- the first row lies before the place
    obtain ⟨first, rest, rfl, hfirst⟩ := eq_append_cons_of_mem hend
    obtain ⟨row, hrow, hle⟩ := ih rest.length (by simp; omega) rfl
    refine ⟨row, ?_, ?_⟩
    · rw [append_assoc, cons_append, splitOn_append_cons_self_of_not_mem hfirst, count_append,
        count_cons_self, count_eq_zero.2 hfirst, Nat.zero_add, getElem?_cons_succ]
      exact hrow
    · rw [reverse_append, reverse_cons, append_assoc, singleton_append, takeWhile_append_newline]
      exact hle
  · rw [count_eq_zero.2 hend]
    have hfront : ds.reverse.takeWhile (· ≠ '\n') <+: ds.reverse :=
      takeWhile_prefix _
    have hle := hfront.length_le
    rw [length_reverse] at hle
    by_cases hafter : '\n' ∈ after
    · obtain ⟨first, rest, rfl, hfirst⟩ := eq_append_cons_of_mem hafter
      refine ⟨ds ++ first, ?_, by rw [length_append]; omega⟩
      rw [← append_assoc, splitOn_append_cons_self_of_not_mem (by simp [hend, hfirst])]
      rfl
    · refine ⟨ds ++ after, ?_, by rw [length_append]; omega⟩
      rw [splitOn_eq_singleton (by simp [hend, hafter])]
      rfl

theorem linesFrom_done (more done : List String) (line cs : List Char) :
    Text.linesFrom (more ++ done) line cs = done.reverse ++ Text.linesFrom more line cs := by
  fun_induction Text.linesFrom more line cs with
  | case1 more line =>
    rw [Text.linesFrom]
    split <;> simp
  | case2 more line cs ih => exact ih
  | case3 more line c cs hreturn hend ih =>
    rw [Text.linesFrom, if_pos hend]
    · exact ih
    · exact hreturn
  | case4 more line c cs hreturn hend ih =>
    rw [Text.linesFrom, if_neg hend]
    · exact ih
    · exact hreturn

/-- A stretch that no line ends in is read on into its line. -/
theorem linesFrom_append {row : List Char} (hrow : ∀ c ∈ row, Text.isLineEnd c = false)
    (done : List String) (line cs : List Char) :
    Text.linesFrom done line (row ++ cs) = Text.linesFrom done (row.reverse ++ line) cs := by
  induction row generalizing line with
  | nil => rfl
  | cons c row ih =>
    obtain ⟨hc, hrow⟩ := forall_mem_cons.1 hrow
    have hreturn : c ≠ '\r' := by
      rintro rfl
      cases hc
    rw [cons_append, Text.linesFrom, hc, if_neg Bool.false_ne_true, ih hrow, reverse_cons,
      append_assoc, singleton_append]
    exact fun _ h => absurd h hreturn

theorem lines_append {row : List Char} (hrow : ∀ c ∈ row, Text.isLineEnd c = false)
    (cs : List Char) : Text.linesFrom [] [] (row ++ '\n' :: cs)
      = String.ofList row :: Text.linesFrom [] [] cs := by
  rw [linesFrom_append hrow, append_nil, Text.linesFrom, if_pos (by decide), reverse_reverse]
  · exact linesFrom_done [] _ [] cs
  · nofun

/-- A row in front of which and in which only line feeds end a line is a line. The last one is no
line if it is empty. -/
theorem lines_getElem? {row : List Char} {i : Nat} (hrow : (cs.splitOn '\n')[i]? = some row)
    (hplain : ∀ r ∈ (cs.splitOn '\n').take (i + 1), ∀ c ∈ r, Text.isLineEnd c = false) :
    (Text.linesFrom [] [] cs)[i]? = some (String.ofList row)
    ∨ (Text.linesFrom [] [] cs)[i]? = none ∧ row = [] ∧ (cs.splitOn '\n').length = i + 1 := by
  induction hn : cs.length using Nat.strongRecOn generalizing cs i with
  | ind n ih =>
  subst hn
  by_cases hend : '\n' ∈ cs
  · obtain ⟨first, rest, rfl, hfirst⟩ := eq_append_cons_of_mem hend
    rw [splitOn_append_cons_self_of_not_mem hfirst] at hrow hplain ⊢
    rw [take_succ_cons, forall_mem_cons] at hplain
    rw [lines_append hplain.1]
    cases i with
    | zero =>
      cases hrow
      exact .inl rfl
    | succ i =>
      rw [getElem?_cons_succ] at hrow ⊢
      rw [length_cons, Nat.succ_inj]
      exact ih rest.length (by simp; omega) hrow hplain.2 rfl
  · rw [splitOn_eq_singleton hend] at hrow hplain ⊢
    cases i with
    | zero =>
      cases hrow
      have hlines := linesFrom_append (hplain row (mem_cons_self ..)) [] [] []
      rw [append_nil, append_nil] at hlines
      rw [hlines, Text.linesFrom]
      cases row with
      | nil => exact .inr ⟨rfl, rfl, rfl⟩
      | cons c row => exact .inl (by simp)
    | succ i => cases hrow

-- ===== what is shown

/-- The text that a line of source is shown after. -/
def Diagnostic.gutter (line : Nat) : String :=
  padLeft (gutterWidth line) (toString (line : Int)) ++ " | "

theorem Diagnostic.snippet_of_line {d : Diagnostic} {i : Nat} (hline : d.line = some (1 + i : Nat))
    (lines : List String) : d.snippet lines = lines[i]?.elim [] fun row =>
      (gutter (1 + i) ++ row)
        :: (d.column.map fun column => d.markLine (1 + i : Nat) column row).toList := by
  have hrow : d.sourceLine? lines = lines[i]? := by
    have hindex : ((1 + i : Nat) - 1 : Int).toNat = i := by omega
    rw [sourceLine?, hline]
    exact (if_pos (by omega)).trans (by rw [hindex])
  rw [snippet, hline, hrow]
  cases lines[i]? <;> rfl

/-- The line that is shown with a place of a file, and that its column counts into, is the text
between the line feeds around the place, if nothing else ends a line up to there. Only an
empty row at the end of the file is not shown. -/
theorem Diagnostic.snippet_shows_row {text : String} (hmark : stripMark text.toList = text.toList)
    (hplace : PlaceIn (tokenize text) line column) {d : Diagnostic}
    (hline : d.line = some (line : Int))
    (hplain : ∀ row ∈ (text.toList.splitOn '\n').take line, ∀ c ∈ row, Text.isLineEnd c = false) :
    1 ≤ line ∧ ∃ row, (text.toList.splitOn '\n')[line - 1]? = some row
      ∧ 1 ≤ column ∧ column ≤ row.length + 1
      ∧ (d.snippet (Text.lines text) = (gutter line ++ String.ofList row)
          :: (d.column.map fun column => d.markLine line column (String.ofList row)).toList
        ∨ d.snippet (Text.lines text) = [] ∧ row = []
          ∧ line = (text.toList.splitOn '\n').length) := by
  obtain ⟨ds, hds, hl, hc⟩ := after_of_placeIn hplace
  rw [Pos.advance_eq] at hl hc
  subst hl hc
  rw [hmark] at hds
  obtain ⟨row, hrow, hle⟩ := exists_row_of_prefix hds
  dsimp only at hline hplain ⊢
  refine ⟨Nat.le_add_right .., row, ?_, Nat.le_add_right .., by omega, ?_⟩
  · rw [Nat.add_sub_cancel_left]
    exact hrow
  · rw [snippet_of_line hline, Text.lines]
    rw [Nat.add_comm] at hplain
    rcases lines_getElem? hrow hplain with hshown | ⟨hshown, hempty, hlast⟩
    · exact .inl (by rw [hshown]; rfl)
    · exact .inr ⟨by rw [hshown]; rfl, hempty, by omega⟩

/-- A fault at the start of the second line of a file. -/
def onSecondLine : Diagnostic :=
  { severity := .warning, message := "document skipped", line := some 2, column := some 1 }

/-- An open string below a comment with a tab is shown. -/
theorem open_string_shown : PlaceIn (tokenize "//\ta\n\"c") 2 1
    ∧ onSecondLine.snippet (Text.lines "//\ta\n\"c") = ["    2 | \"c", "      | ^"] := by
  have hplace : PlaceIn (tokenize "//\ta\n\"c") 2 1 := ⟨rfl, rfl⟩
  obtain ⟨-, row, hrow, -, -, hshown⟩ :=
    Diagnostic.snippet_shows_row (by decide) hplace (d := onSecondLine) rfl (by
      change ∀ row ∈ ["//\ta".toList, "\"c".toList], _
      simp [Text.isLineEnd])
  cases hrow
  exact ⟨hplace, hshown.resolve_right (by decide)⟩

/-- A form feed ends a line that is shown and none that is counted, so a line too early is shown
for an open string below it. -/
theorem open_string_not_shown : PlaceIn (tokenize "// a\x0cb\n\"c") 2 1
    ∧ onSecondLine.snippet (Text.lines "// a\x0cb\n\"c") = ["    2 | b", "      | ^"]
    ∧ ("// a\x0cb\n\"c".toList.splitOn '\n')[1]? = some "\"c".toList :=
  ⟨⟨rfl, rfl⟩, by decide, by decide⟩

end SourceBundle
