/-
Tokens with a single space between each two. A lexeme ends where its
source goes on with something that is no part of it, and it ends as well
before a space or at the end of a text (`lexeme_recut`). So the stretches
of the tokens of a source, joined by spaces, are read as the same tokens,
with the same tokens in their holes (`tokenizeChars_respaced`). Comments,
directives and blanks bear on the places of tokens only.
-/
import SourceBundle.Proofs.Token.Gaps
import SourceBundle.Proofs.Token.Tiling

namespace SourceBundle

open List Text

variable {source pre cs u a rest more : List Char} {fresh : Bool} {k n : Nat} {p : Pos} {t : Token}
  {ts : List Token}

/-- The stretches of the tokens of a source, a space between each two. The end token is left out. -/
def respaced (source : List Char) (ts : List Token) : List Char :=
  [' '].intercalate ((ts.filter (·.kind ≠ .eof)).map fun t => stretchOf source t.start t.stop)

/-- Where a gap ends no other starts. -/
theorem gapLength_drop {mode : GapMode} (h : gapFrom mode fresh n cs = .ok k) :
    gapLength false (cs.drop (k - n)) = .ok 0 := by
  fun_induction gapFrom mode fresh n cs with
  | case1 | case7 => rw [drop_nil]; rfl
  | case2 _ _ _ ih | case3 _ _ _ ih | case12 _ _ _ _ ih =>
    have hle := (gapFrom_le h).1
    rw [drop_sub_cons (by omega), drop_sub_cons hle]
    exact ih h
  | case4 _ _ _ _ _ _ _ ih | case5 _ _ _ _ _ _ _ _ ih | case8 _ _ _ ih | case10 _ _ _ _ _ _ ih
    | case13 _ _ _ _ _ _ ih =>
    rw [drop_sub_cons (gapFrom_le h).1]
    exact ih h
  | case6 fresh n c cs hline hblock hblank hhash =>
    cases h
    rw [Nat.sub_self, drop_zero, gapLength, gapFrom.eq_4 _ _ _ _ hline hblock, if_neg hblank,
      Bool.and_false]
    rfl
  | case9 =>
    cases h
    rw [Nat.sub_self]
    rfl
  | case11 => cases h

/-- A token is read from its own characters before a stop, or nothing. -/
theorem tokensOf_stretch (ha : a ≠ []) (hgap : gapLength fresh (u ++ (a ++ rest)) = .ok u.length)
    (htoken : tokenOf p (a ++ rest) = .ok (t, a.length)) (hmore : Stops more) (p' : Pos) :
    ∃ t', Alike t t'
      ∧ tokensOf p' false (a ++ more) = (tokensOf (p'.advance a) false more).map (t' :: ·) := by
  have hne : a ++ rest ≠ [] := fun h => ha (append_eq_nil_iff.1 h).1
  obtain ⟨t₁, halone, halike₁⟩ := tokenOf_recut p' hne htoken (.ends _)
  rw [take_left, ← append_nil a] at halone
  obtain ⟨t', hbefore, halike⟩ := tokenOf_recut p' (by rwa [append_nil]) halone
    (.stops (Nat.le_of_eq (by rw [append_nil])) .nil hmore)
  have hnone : gapLength false (a ++ rest) = .ok 0 := by
    have hrest := gapLength_drop hgap
    rwa [Nat.sub_zero, drop_left] at hrest
  have hnone' : gapLength false (a ++ more) = .ok 0 :=
    gapFrom_append hnone (by rw [Nat.zero_add]; exact length_pos_iff.2 ha) (.inl hmore)
  refine ⟨t', halike₁.trans halike, ?_⟩
  rw [append_nil] at hbefore
  exact tokensOf_append (u := []) ha hnone' hbefore

theorem tokensOf_space (p : Pos) (cs : List Char) :
    tokensOf p false ([' '] ++ cs) = tokensOf (p.advance [' ']) false cs := by
  refine tokensOf_passed p ?_
  rw [gapLength, gapLength, ← gapFrom_add]
  rfl

/-- What follows the first token in a text with spaces between them. -/
theorem exists_respaced_cons (source : List Char) (ht : t.kind ≠ .eof) (ts : List Token) (p : Pos) :
    ∃ more p', Stops more ∧ respaced source (t :: ts) = stretchOf source t.start t.stop ++ more
      ∧ tokensOf p false more = tokensOf p' false (respaced source ts) := by
  unfold respaced
  rw [filter_cons_of_pos (by simpa using ht), map_cons]
  cases (ts.filter (·.kind ≠ .eof)).map fun t => stretchOf source t.start t.stop with
  | nil => exact ⟨[], p, .nil, by simp, rfl⟩
  | cons b bs =>
    refine ⟨' ' :: [' '].intercalate (b :: bs), p.advance [' '], .cons (by decide), ?_,
      tokensOf_space p _⟩
    rw [intercalate_cons_cons, append_assoc]
    rfl

theorem tokensOf_respaced (hsource : source = pre ++ cs)
    (h : tokensOf (({} : Pos).advance pre) fresh cs = .ok ts) (p' : Pos) :
    ∃ ts', tokensOf p' false (respaced source ts) = .ok ts' ∧ Alike ts ts' := by
  induction ts generalizing pre cs fresh p' with
  | nil => exact absurd rfl (tokensOf_closed h).ne_nil
  | cons t ts ih =>
    by_cases ht : t.kind = .eof
    · -- the end is all that is left
      rcases tokensOf_eq_ok h with ⟨gap, -, -, heq⟩ | ⟨_, _, _, rest, _, _, _, hrest, heq⟩
      · cases heq
        exact ⟨[Token.eof p'], rfl, rfl⟩
      · cases heq
        exact absurd ((Token.closed_cons_eof ht).1 (tokensOf_closed h))
          (tokensOf_closed hrest).ne_nil
    · obtain ⟨u, a, rest, rfl, ha, hgap, htoken, hts⟩ := tokensOf_cons_eq_ok h ht
      rw [← Pos.advance_append] at htoken hts
      rw [← append_assoc pre] at hts
      have hafter : source = pre ++ u ++ a ++ rest := by
        rw [hsource]
        simp only [append_assoc]
      have hstretch : stretchOf source t.start t.stop = a := by
        obtain ⟨hstart, -, -⟩ := tokenAt_place htoken
        obtain ⟨-, -, -, -, -, -, hstop⟩ := tokenAt_eq_ok htoken
        rw [hstart, hstop, Pos.offset_advance, Nat.zero_add, ← length_append]
        exact stretchOf_between (hafter.trans (append_assoc ..))
      obtain ⟨more, q, hmore, hrespaced, hnext⟩ := exists_respaced_cons source ht ts (p'.advance a)
      obtain ⟨t', halike, htokens⟩ := tokensOf_stretch ha hgap htoken hmore p'
      obtain ⟨ts', hts', halikes⟩ := ih hafter hts q
      refine ⟨t' :: ts', ?_, alike_cons.2 ⟨halike, halikes⟩⟩
      rw [hrespaced, hstretch, htokens, hnext, hts']
      rfl

/-- The stretches of the tokens of a source, once the byte order mark that may open it is dropped,
are read as these tokens again with single spaces between them. -/
theorem tokenizeChars_respaced {tokens : List Token} (h : tokenizeChars source = .ok tokens) :
    ∃ tokens', tokenizeChars (respaced (stripMark source) tokens) = .ok tokens'
      ∧ Alike tokens tokens' := by
  rw [tokenizeChars_eq] at h
  obtain ⟨tokens', htokens', halike⟩ := tokensOf_respaced (nil_append (stripMark source)).symm h {}
  have hfresh := tokensOf_fresh htokens'
  refine ⟨tokens', ?_, halike⟩
  rw [tokenizeChars_eq, stripMark_of_tokensOf hfresh]
  exact hfresh

/-- A question mark before a number that starts with a point, a hole with a comment and a comment
at the end. -/
theorem tokenizeChars_respaced_question : ∃ tokens tokens',
    tokenizeChars "a?.5:$\"\x7bb/**/+c\x7d\"//d".toList = .ok tokens
      ∧ tokenizeChars "a ? .5 : $\"\x7bb/**/+c\x7d\"".toList = .ok tokens'
      ∧ Alike tokens tokens' := by
  have htokens : tokenizeChars "a?.5:$\"\x7bb/**/+c\x7d\"//d".toList = .ok _ := rfl
  obtain ⟨tokens', htokens', halike⟩ := tokenizeChars_respaced htokens
  exact ⟨_, tokens', htokens, htokens', halike⟩

end SourceBundle
