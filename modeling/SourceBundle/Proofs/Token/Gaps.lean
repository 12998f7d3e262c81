/-
Gaps made of blank lines. They may stand before a text or not: its
tokens are the same (`tokensOf_blankLines`, `tokensOf_newline`), since
after a line feed the text stands at the start of a line, and whether
it does matters to a number sign alone, which starts no lexeme.
-/
import SourceBundle.Proofs.Text.BlankLines
import SourceBundle.Proofs.Token.Tokens

namespace SourceBundle

open List Text

variable {cs gap line more : List Char} {d k n : Nat} {p : Pos} {fresh : Bool} {ts : List Token}

-- ===== gap lengths

/-- A gap mode, with `d` characters more before it. -/
def GapMode.after (d : Nat) : GapMode → GapMode
  | .between => .between
  | .line => .line
  | .block start => .block (start + d)

/-- How a gap ends, with `d` characters more before it. -/
def gapAfter (d : Nat) : Except FaultAt Nat → Except FaultAt Nat
  | .ok k => .ok (k + d)
  | .error f => .error (f.1, f.2 + d)

theorem gapFrom_add (mode : GapMode) (fresh : Bool) (n d : Nat) (cs : List Char) :
    gapFrom (mode.after d) fresh (n + d) cs = gapAfter d (gapFrom mode fresh n cs) := by
  fun_induction gapFrom mode fresh n cs
  case case1 | case7 | case11 => rfl
  case case2 ih | case3 ih | case12 ih =>
    rw [GapMode.after, gapFrom, ← ih, Nat.add_right_comm]
    rfl
  case case4 hline hblock hblank ih =>
    rw [GapMode.after, gapFrom.eq_4 _ _ _ _ hline hblock, if_pos hblank, ← ih, Nat.add_right_comm]
    rfl
  case case5 hline hblock hblank hhash ih =>
    rw [GapMode.after, gapFrom.eq_4 _ _ _ _ hline hblock, if_neg hblank, if_pos hhash, ← ih,
      Nat.add_right_comm]
    rfl
  case case6 hline hblock hblank hhash =>
    rw [GapMode.after, gapFrom.eq_4 _ _ _ _ hline hblock, if_neg hblank, if_neg hhash]
    rfl
  case case8 ih =>
    rw [GapMode.after, gapFrom, if_pos rfl, ← ih, Nat.add_right_comm]
    rfl
  case case9 =>
    rw [GapMode.after, gapFrom, if_neg (by decide), if_pos rfl]
    rfl
  case case10 hend hnul ih =>
    rw [GapMode.after, gapFrom, if_neg hend, if_neg hnul, ← ih, Nat.add_right_comm]
    rfl
  case case13 hclose ih =>
    rw [GapMode.after, gapFrom.eq_9 _ _ _ _ _ hclose, ← ih, Nat.add_right_comm]
    rfl

/-- A line of blanks leads to the start of the next line. -/
theorem gapFrom_line (hline : ∀ c ∈ line, isGapBlank c = true) (fresh : Bool) (n : Nat)
    (cs : List Char) :
    gapFrom .between fresh n (line ++ '\n' :: cs)
      = gapFrom .between true (n + (line.length + 1)) cs := by
  induction line generalizing fresh n with
  | nil => rfl
  | cons c line ih =>
    have hc := hline c (mem_cons_self ..)
    rw [cons_append, gapFrom_cons (ne_slash_of_isGapBlank hc), if_pos hc,
      ih fun c hmem => hline c (mem_cons_of_mem _ hmem), length_cons]
    congr 1
    omega

/-- At the start of a line a gap is as it is elsewhere, unless it ends before a number sign. -/
theorem gapFrom_fresh (h : gapFrom .between false n cs = .ok k)
    (hhash : ∀ rest, cs.drop (k - n) ≠ '#' :: rest) : gapFrom .between true n cs = .ok k := by
  generalize hmode : GapMode.between = mode at h
  generalize hfresh : false = fresh at h
  fun_induction gapFrom mode fresh n cs with
  | case1 => exact h
  | case2 | case3 =>
    rw [gapFrom]
    exact h
  | case4 fresh n c cs hline hblock hblank ih =>
    subst hfresh
    rw [Bool.and_false, Bool.or_false] at h ih
    rw [gapFrom.eq_4 _ _ _ _ hline hblock, if_pos hblank]
    by_cases hspace : c = ' ' ∨ c = '\t'
    · have hend : c ≠ '\n' := by rintro rfl; simp at hspace
      rw [decide_eq_false hend] at h ih
      rw [decide_eq_false hend, Bool.false_or, Bool.and_true, ← Bool.decide_or,
        decide_eq_true hspace]
      refine ih (fun rest hdrop => hhash rest ?_) rfl rfl h
      rw [← hdrop, drop_sub_cons (gapFrom_le h).1]
    · rw [← Bool.decide_or, decide_eq_false hspace, Bool.false_and, Bool.or_false]
      exact h
  | case5 _ _ _ _ _ _ _ hsign =>
    subst hfresh
    rw [Bool.and_false] at hsign
    cases hsign
  | case6 fresh n c cs hline hblock hblank hsign =>
    cases h
    rw [gapFrom.eq_4 _ _ _ _ hline hblock, if_neg hblank, Bool.and_true, if_neg]
    rw [decide_eq_true_iff]
    rintro rfl
    rw [Nat.sub_self] at hhash
    exact hhash cs rfl
  | case7 | case8 | case9 | case10 | case11 | case12 | case13 => cases hmode

-- ===== tokens

/-- What a gap starts with may be left out. -/
theorem tokensOf_passed {front : List Char} {fresh fresh' : Bool} (p : Pos)
    (hgap : gapLength fresh (front ++ cs) = gapAfter front.length (gapLength fresh' cs)) :
    tokensOf p fresh (front ++ cs) = tokensOf (p.advance front) fresh' cs := by
  have htake : ∀ n, p.advance ((front ++ cs).take (n + front.length))
      = (p.advance front).advance (cs.take n) := by
    intro n
    rw [Nat.add_comm, take_length_add_append, Pos.advance_append]
  have hdrop : ∀ n, (front ++ cs).drop (n + front.length) = cs.drop n := by
    intro n
    rw [Nat.add_comm, drop_length_add_append]
  cases hrest : gapLength fresh' cs with
  | error f =>
    rw [hrest] at hgap
    rw [tokensOf_of_gap_error hgap, tokensOf_of_gap_error hrest, LexError.place, LexError.place,
      htake]
  | ok gap =>
    rw [hrest] at hgap
    by_cases hend : cs.drop gap = []
    · rw [tokensOf_of_end hgap (by rw [hdrop]; exact hend), tokensOf_of_end hrest hend, htake]
    · rw [tokensOf_of_token hgap (by rw [hdrop]; exact hend), tokensOf_of_token hrest hend]
      simp only [Nat.add_right_comm gap front.length, htake, hdrop]

/-- Blanks in front that lead to the start of a line may be left out. -/
theorem tokensOf_newline (hline : ∀ c ∈ line, isGapBlank c = true) (p : Pos) (fresh : Bool)
    (cs : List Char) :
    tokensOf p fresh (line ++ '\n' :: cs) = tokensOf (p.advance (line ++ ['\n'])) true cs := by
  have hcs : line ++ '\n' :: cs = line ++ ['\n'] ++ cs := by rw [append_assoc]; rfl
  rw [hcs]
  refine tokensOf_passed p ?_
  rw [← hcs, gapLength, gapFrom_line hline, gapLength, ← gapFrom_add, length_append]
  rfl

/-- A blank is one that gaps are made of, or it is stray. -/
theorem isGapBlank_of_isBlank {c : Char} (h : isBlank c = true) :
    isGapBlank c = true ∨ c ∈ strayChars := by
  have hall : ∀ n ∈ [9, 10, 11, 12, 13, 28, 29, 30, 31, 32, 0x85, 0xA0, 0x1680, 0x2000, 0x2001,
      0x2002, 0x2003, 0x2004, 0x2005, 0x2006, 0x2007, 0x2008, 0x2009, 0x200A, 0x2028, 0x2029,
      0x202F, 0x205F, 0x3000], isGapBlank (Char.ofNat n) = true ∨ Char.ofNat n ∈ strayChars := by
    decide
  rw [← Char.ofNat_toNat c]
  refine hall c.toNat ?_
  unfold isBlank CharRanges.has blankRanges at h
  simp only [mem_cons, not_mem_nil, or_false]
  split at h <;> simp at h <;> omega

/-- Where tokens can be read, no stray character stands in place of the first. -/
theorem notMem_strayChars {c : Char} (hgap : gapLength fresh (line ++ c :: cs) = .ok line.length)
    (h : tokensOf p fresh (line ++ c :: cs) = .ok ts) : c ∉ strayChars := by
  intro hc
  rcases tokensOf_eq_ok h with ⟨gap, hgap', hnil, -⟩ | ⟨gap, t, n, rest, hgap', -, htoken, -⟩
  · cases hgap.symm.trans hgap'
    rw [drop_left] at hnil
    cases hnil
  · cases hgap.symm.trans hgap'
    rw [drop_left] at htoken
    obtain ⟨l, hl, -⟩ := tokenAt_eq_ok htoken
    rw [lexeme_stray hc] at hl
    cases hl

/-- What gaps are made of is passed over, and the gap ends where neither that nor a comment or
directive stands. -/
theorem gapFrom_blanks {c : Char} (hline : ∀ c ∈ line, isGapBlank c = true)
    (hblank : isGapBlank c = false) (hslash : c ≠ '/') (hhash : c ≠ '#') (fresh : Bool) (n : Nat)
    (cs : List Char) : gapFrom .between fresh n (line ++ c :: cs) = .ok (n + line.length) := by
  induction line generalizing fresh n with
  | nil =>
    rw [nil_append, gapFrom_cons hslash, hblank, decide_eq_false hhash]
    rfl
  | cons d line ih =>
    have hd := hline d (mem_cons_self ..)
    rw [cons_append, gapFrom_cons (ne_slash_of_isGapBlank hd), if_pos hd,
      ih fun c hmem => hline c (mem_cons_of_mem _ hmem), length_cons]
    congr 1
    omega

theorem stray_plain : ∀ c ∈ strayChars, isGapBlank c = false ∧ c ≠ '/' :=
  forall_mem_of_all (by decide)

/-- Where tokens can be read, blanks in front are those that gaps are made of. -/
theorem isGapBlank_of_tokensOf (hline : ∀ c ∈ line, isBlank c = true)
    (h : tokensOf p fresh (line ++ cs) = .ok ts) : ∀ c ∈ line, isGapBlank c = true := by
  have hsplit := takeWhile_append_dropWhile (p := isGapBlank) (l := line)
  cases hrest : line.dropWhile isGapBlank with
  | nil =>
    rw [hrest, append_nil] at hsplit
    rw [← hsplit]
    exact all_eq_true.1 all_takeWhile
  | cons c rest =>
    -- a blank of another sort would be stray
    have hfront := all_eq_true.1 (all_takeWhile (p := isGapBlank) (l := line))
    have hc : isGapBlank c = false := by
      have := head?_dropWhile_not isGapBlank line
      rw [hrest] at this
      exact this
    rw [hrest] at hsplit
    rw [← hsplit, append_assoc, cons_append] at h
    have hblank : isBlank c = true := hline c (by rw [← hsplit]; simp)
    rcases isGapBlank_of_isBlank hblank with hgap | hstray
    · rw [hgap] at hc
      cases hc
    · have hhash : c ≠ '#' := by rintro rfl; cases hblank
      refine absurd hstray (notMem_strayChars ?_ h)
      rw [gapLength, gapFrom_blanks hfront hc (stray_plain c hstray).2 hhash, Nat.zero_add]

/-- A text whose tokens can be read has the same ones at the start of a line. -/
theorem tokensOf_fresh (h : tokensOf p fresh cs = .ok ts) : tokensOf p true cs = .ok ts := by
  cases fresh with
  | true => exact h
  | false =>
    rcases tokensOf_eq_ok h with ⟨gap, hgap, hcs, rfl⟩
      | ⟨gap, t, n, rest, hgap, hcs, htoken, hrest, rfl⟩
    · exact tokensOf_of_end (gapFrom_fresh hgap fun _ h => by cases hcs.symm.trans h) hcs
    · have hhash : ∀ rest, cs.drop (gap - 0) ≠ '#' :: rest := by
        intro rest hdrop
        rw [Nat.sub_zero] at hdrop
        rw [hdrop] at htoken
        obtain ⟨l, hl, -⟩ := tokenAt_eq_ok htoken
        rw [lexeme_stray (by decide)] at hl
        cases hl
      rw [tokensOf_cons (gapFrom_fresh hgap hhash) hcs htoken, hrest]
      rfl

/-- Blank lines in front of a text may be left out. -/
theorem tokensOf_blankLines (hgap : BlankLines gap) (h : tokensOf p fresh (gap ++ cs) = .ok ts) :
    tokensOf (p.advance gap) true cs = .ok ts := by
  induction hgap generalizing p fresh with
  | nil => exact tokensOf_fresh h
  | @cons line gap hline _ _ ih =>
    rw [append_assoc, cons_append] at h
    rw [tokensOf_newline (isGapBlank_of_tokensOf hline h)] at h
    rw [show line ++ '\n' :: gap = line ++ ['\n'] ++ gap by simp, Pos.advance_append]
    exact ih h

/-- A text whose tokens can be read does not start with a byte order mark. -/
theorem stripMark_of_tokensOf (h : tokensOf p true cs = .ok ts) : stripMark cs = cs := by
  unfold stripMark
  split
  next cs =>
    have hgap : gapLength true ([] ++ '\ufeff' :: cs) = .ok ([] : List Char).length :=
      gapFrom_blanks (by simp) (by decide) (by decide) (by decide) true 0 cs
    exact absurd (by decide) (notMem_strayChars hgap h)
  next => rfl

end SourceBundle
