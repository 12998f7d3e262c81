/-
Tokens tile the source they are read from. From the front of a source to
its end, gaps and tokens follow each other without overlap: a gap is made
of blanks, comments and directives, a token has the characters of its
stretch as its text and the line and column of its first character, and
the end token stands where the source ends (`tokenizeChars_tiles`).

The tokens of a hole tile a stretch of the same source. It opens after
the brace of the hole, ends before what closes its expression, and lies
strictly inside the literal. Offsets are those of the whole source, since
a hole is read at its own place: `tiles_of_tokensOf` takes any stretch of
a source, the whole of it and a hole alike, by induction on its length.
-/
import Mathlib.Data.List.Induction
import SourceBundle.Proofs.Text.BlankLines
import SourceBundle.Proofs.Token.Tokens

namespace SourceBundle

open List Text

variable {source pre cs : List Char} {fresh last : Bool} {k n : Nat}

-- ===== gaps

/-- What opens a part of a gap that goes on to the end of its line: a comment, or a directive with
nothing but blanks before it in its line. -/
def OpensLine (fresh : Bool) (opener : List Char) : Prop :=
  opener = ['/', '/'] ∨ (fresh = true ∧ opener = ['#'])

/-- Blanks, comments and directives. `fresh` says that only spaces and tabs stand between here and
the start of the line, `last` that nothing follows the gap, so that its last line needs no end. -/
inductive Gap (last : Bool) : (fresh : Bool) → List Char → Prop
  | nil {fresh : Bool} : Gap last fresh []
  | blank {fresh : Bool} {c : Char} {cs : List Char} : isGapBlank c = true →
      Gap last (c = '\n' || ((c = ' ' || c = '\t') && fresh)) cs → Gap last fresh (c :: cs)
  | line {fresh : Bool} {opener body cs : List Char} : OpensLine fresh opener → '\n' ∉ body →
      Gap last true cs → Gap last fresh (opener ++ (body ++ '\n' :: cs))
  | lastLine {fresh : Bool} {opener body : List Char} : last = true → OpensLine fresh opener →
      '\n' ∉ body → Gap last fresh (opener ++ body)
  | block {fresh : Bool} {body cs : List Char} : ¬ ['*', '/'] <:+: body ++ ['*'] →
      Gap last false cs → Gap last fresh ('/' :: '*' :: (body ++ '*' :: '/' :: cs))

/-- The rest of a gap, from inside one of its parts. -/
def GapMode.Rest (last fresh : Bool) (g : List Char) : GapMode → Prop
  | .between => Gap last fresh g
  | .line => (∃ body rest, g = body ++ '\n' :: rest ∧ '\n' ∉ body ∧ Gap last true rest)
      ∨ (last = true ∧ '\n' ∉ g)
  | .block _ => ∃ body rest, g = body ++ '*' :: '/' :: rest ∧ ¬ ['*', '/'] <:+: body ++ ['*']
      ∧ Gap last false rest

theorem Gap.of_line {opener g : List Char} (hopener : OpensLine fresh opener)
    (h : GapMode.Rest last false g .line) : Gap last fresh (opener ++ g) := by
  rcases h with ⟨body, rest, rfl, hbody, hrest⟩ | ⟨hlast, hg⟩
  · exact .line hopener hbody hrest
  · exact .lastLine hlast hopener hg

/-- A block comment does not close at a character before which none of it closes. -/
theorem not_infix_cons {c : Char} {body : List Char} (h : ¬ ['*', '/'] <:+: body ++ ['*'])
    (hc : ∀ rest, c = '*' → body ++ ['*'] ≠ '/' :: rest) :
    ¬ ['*', '/'] <:+: c :: (body ++ ['*']) := by
  rw [infix_cons_iff]
  rintro (⟨rest, hrest⟩ | hinfix)
  · obtain ⟨hstar, hslash⟩ := List.cons.inj hrest
    exact hc rest hstar.symm hslash.symm
  · exact h hinfix

/-- A gap that is read is one, if it ends before a character that is not NUL or ends with the
text. -/
theorem rest_of_gapFrom {mode : GapMode} (h : gapFrom mode fresh n cs = .ok k)
    (hend : last = true ∨ ∃ c, (cs.drop (k - n)).head? = some c ∧ c ≠ '\x00') :
    GapMode.Rest last fresh (cs.take (k - n)) mode := by
  fun_induction gapFrom mode fresh n cs with
  | case1 =>
    rw [take_nil]
    exact .nil
  | case2 fresh n cs ih =>
    have hle := (gapFrom_le h).1
    have hlt : n + 1 ≤ k := by omega
    rw [drop_sub_cons hlt, drop_sub_cons hle] at hend
    rw [take_sub_cons hlt, take_sub_cons hle]
    exact Gap.of_line (.inl rfl) (ih h hend)
  | case3 fresh n cs ih =>
    have hle := (gapFrom_le h).1
    have hlt : n + 1 ≤ k := by omega
    rw [drop_sub_cons hlt, drop_sub_cons hle] at hend
    rw [take_sub_cons hlt, take_sub_cons hle]
    obtain ⟨body, rest, hg, hbody, hrest⟩ := ih h hend
    rw [hg]
    exact .block hbody hrest
  | case4 fresh n c cs _ _ hblank ih =>
    rw [drop_sub_cons (gapFrom_le h).1] at hend
    rw [take_sub_cons (gapFrom_le h).1]
    exact .blank hblank (ih h hend)
  | case5 fresh n c cs _ _ _ hhash ih =>
    rw [drop_sub_cons (gapFrom_le h).1] at hend
    rw [take_sub_cons (gapFrom_le h).1]
    obtain ⟨hc, hfresh⟩ := Bool.and_eq_true_iff.1 hhash
    cases of_decide_eq_true hc
    exact Gap.of_line (.inr ⟨hfresh, rfl⟩) (ih h hend)
  | case6 fresh n =>
    cases h
    rw [Nat.sub_self]
    exact .nil
  | case7 fresh n =>
    rw [take_nil]
    refine .inr ⟨hend.resolve_right ?_, not_mem_nil⟩
    rintro ⟨c, hc, -⟩
    rw [drop_nil] at hc
    cases hc
  | case8 fresh n cs ih =>
    rw [drop_sub_cons (gapFrom_le h).1] at hend
    rw [take_sub_cons (gapFrom_le h).1]
    exact .inl ⟨[], _, rfl, not_mem_nil, ih h hend⟩
  | case9 fresh n cs hnul =>
    cases h
    rw [Nat.sub_self] at hend ⊢
    refine .inr ⟨hend.resolve_right ?_, not_mem_nil⟩
    rintro ⟨c, hc, hne⟩
    cases hc
    exact hne rfl
  | case10 fresh n c cs hnewline _ ih =>
    rw [drop_sub_cons (gapFrom_le h).1] at hend
    rw [take_sub_cons (gapFrom_le h).1]
    have hmem : ∀ {body : List Char}, '\n' ∉ body → '\n' ∉ c :: body :=
      fun hbody hmem => (mem_cons.1 hmem).elim (fun hc => hnewline hc.symm) hbody
    rcases ih h hend with ⟨body, rest, hg, hbody, hrest⟩ | ⟨hlast, hg⟩
    · rw [hg]
      exact .inl ⟨c :: body, rest, rfl, hmem hbody, hrest⟩
    · exact .inr ⟨hlast, hmem hg⟩
  | case11 => cases h
  | case12 fresh start n cs ih =>
    have hle := (gapFrom_le h).1
    have hlt : n + 1 ≤ k := by omega
    rw [drop_sub_cons hlt, drop_sub_cons hle] at hend
    rw [take_sub_cons hlt, take_sub_cons hle]
    exact ⟨[], _, rfl, by decide, ih h hend⟩
  | case13 fresh start n c cs hclose ih =>
    rw [drop_sub_cons (gapFrom_le h).1] at hend
    rw [take_sub_cons (gapFrom_le h).1]
    obtain ⟨body, rest, hg, hbody, hrest⟩ := ih h hend
    rw [hg]
    refine ⟨c :: body, rest, rfl, not_infix_cons hbody fun tail hc hslash => ?_, hrest⟩
    -- then the comment closes here
    have hcs : cs = '/' :: (tail ++ '/' :: rest ++ cs.drop (k - (n + 1))) := by
      rw [← cons_append, ← cons_append, ← hslash, append_assoc body]
      exact hg ▸ (take_append_drop _ cs).symm
    exact hclose _ hc hcs

/-- No token starts with NUL. -/
theorem lexeme_nul : lexeme ('\x00' :: cs) = .error (.unexpected '\x00', 0) := rfl

/-- The gap before a token, or before the end. -/
theorem gap_of_gapLength {gap : Nat} (h : gapLength fresh cs = .ok gap)
    (hend : last = true ∨ ∃ l, cs.drop gap ≠ [] ∧ lexeme (cs.drop gap) = .ok l) :
    Gap last fresh (cs.take gap) := by
  suffices hrest : GapMode.Rest last fresh (cs.take (gap - 0)) .between from hrest
  refine rest_of_gapFrom h (hend.imp_right ?_)
  rintro ⟨l, hcs, hl⟩
  obtain ⟨c, rest, hdrop⟩ := exists_cons_of_ne_nil hcs
  rw [Nat.sub_zero, hdrop]
  refine ⟨c, rfl, ?_⟩
  rintro rfl
  rw [hdrop, lexeme_nul] at hl
  cases hl

-- ===== positions

/-- The line of an offset. -/
def lineAt (source : List Char) (offset : Nat) : Nat :=
  1 + (source.take offset).count '\n'

/-- The column of an offset: how far it is from the newline before it, or from the front. -/
def columnAt (source : List Char) (offset : Nat) : Nat :=
  1 + ((source.take offset).reverse.takeWhile (· ≠ '\n')).length

/-- The place after some characters of a source. -/
theorem Pos.advance_eq (cs : List Char) : ({} : Pos).advance cs
    = ⟨1 + cs.count '\n', 1 + (cs.reverse.takeWhile (· ≠ '\n')).length, cs.length⟩ := by
  induction cs using List.reverseRecOn with
  | nil => rfl
  | append_singleton cs c ih =>
    rw [Pos.advance_append, ih]
    show Pos.step _ c = _
    rw [Pos.step, reverse_append, reverse_singleton, singleton_append,
      count_append, length_append, length_singleton]
    split
    next hc =>
      subst hc
      rw [takeWhile_cons_of_neg (by decide)]
      rfl
    next hc =>
      rw [takeWhile_cons_of_pos (by simpa using hc), count_singleton, length_cons]
      simp [hc, Nat.add_assoc]

-- ===== holes

/-- What ends the expression of a hole. -/
def holeEnds : List Char := [',', ':', '\x7d']

/-- Ranges of holes in a text, in order between two places: each opens after a brace and ends
before what ends an expression. -/
def Spaced (cs : List Char) (hi : Nat) : (lo : Nat) → List HoleRange → Prop
  | _, [] => True
  | lo, hole :: holes => lo < hole.start ∧ hole.start + hole.length < hi
      ∧ cs[hole.start - 1]? = some '\x7b' ∧ (∃ c ∈ holeEnds, cs[hole.start + hole.length]? = some c)
      ∧ Spaced cs hi (hole.start + hole.length) holes

/-- The expression of a hole ends before a comma, a colon or the brace. -/
theorem holeFrom_end {skip : Nat} {depth : Int} {expression : Option Nat} {extent : HoleExtent}
    (h : holeFrom skip depth expression n cs = .ok extent) (hpre : pre.length = n)
    (he : ∀ e ∈ expression, ∃ c ∈ holeEnds, (pre ++ cs)[e]? = some c) :
    ∃ c ∈ holeEnds, (pre ++ cs)[extent.expression]? = some c := by
  have hget : ∀ {pre cs : List Char} {c : Char} {n : Nat}, pre.length = n →
      (pre ++ c :: cs)[n]? = some c := by
    rintro pre cs c n rfl
    rw [getElem?_append_right (Nat.le_refl _), Nat.sub_self]
    rfl
  fun_induction holeFrom skip depth expression n cs generalizing pre
  case case1 | case3 | case4 | case6 => cases h
  case case2 ih | case5 ih | case7 ih | case8 ih | case9 ih | case11 ih | case13 ih =>
    rw [append_cons] at he ⊢
    exact ih h (by rw [length_append, hpre, length_singleton]) he
  case case10 expression n cs _ _ _ _ _ =>
    cases h
    cases expression with
    | none => exact ⟨'\x7d', by decide, hget hpre⟩
    | some e => exact he e rfl
  case case12 depth expression n c cs _ _ _ _ _ _ hcolon ih =>
    have hc : c ∈ holeEnds := by
      have hcolon := (Bool.and_eq_true_iff.1 (Bool.and_eq_true_iff.1 hcolon).1).1
      rcases Bool.or_eq_true_iff.1 hcolon with hc | hc <;> cases of_decide_eq_true hc <;> decide
    have hn : (pre ++ c :: cs)[n]? = some c := hget hpre
    rw [append_cons] at hn ⊢
    refine ih h (by rw [length_append, hpre, length_singleton]) fun e he => ?_
    cases he
    exact ⟨c, hc, hn⟩

/-- The holes of a literal stand in order in it. -/
theorem interpolatedFrom_spaced {verbatim : Bool} {skip lo : Nat}
    (hk : (interpolatedFrom verbatim skip n cs).length = .ok k) (hpre : pre.length = n)
    (hlo : lo ≤ n + skip) :
    Spaced (pre ++ cs) k lo (interpolatedFrom verbatim skip n cs).holes := by
  fun_induction interpolatedFrom verbatim skip n cs generalizing pre lo
  case case1 | case3 | case6 | case8 => trivial
  case case2 ih | case4 ih | case5 ih | case7 ih | case10 ih | case11 ih =>
    rw [append_cons]
    exact ih hk (by rw [length_append, hpre, length_singleton]) (by omega)
  case case9 n cs _ extent hextent _ _ _ _ ih =>
    have hlt := (interpolatedFrom_lt hk).1
    have hexpression := expression_lt_total hextent fun e he => absurd he (Option.not_mem_none e)
    have hlength : (pre ++ ['\x7b']).length = n + 1 := by
      rw [length_append, hpre, length_singleton]
    obtain ⟨c, hc, hget⟩ : ∃ c ∈ holeEnds, ([] ++ cs)[extent.expression]? = some c :=
      holeFrom_end hextent rfl fun e he => absurd he (Option.not_mem_none e)
    refine ⟨show lo < n + 1 by omega, show n + 1 + extent.expression < k by omega, ?_,
      ⟨c, hc, ?_⟩, ?_⟩
    · rw [Nat.add_sub_cancel, ← hpre, getElem?_append_right (Nat.le_refl _), Nat.sub_self]
      rfl
    · rw [append_cons, ← hlength, getElem?_append_right (Nat.le_add_right _ _),
        Nat.add_sub_cancel_left]
      exact hget
    · rw [append_cons]
      exact ih hk hlength (show n + 1 + extent.expression ≤ _ by omega)

-- ===== the tiling

/-- The text of a token is its characters, an `@` in front of an identifier left out. -/
def Token.IsWritten (t : Token) (cs : List Char) : Prop :=
  t.text = String.ofList (cs.drop (if t.kind = .ident ∧ cs.head? = some '@' then 1 else 0))

mutual

/-- Gaps and tokens follow each other from one offset of a source to another, and the end token
stands at the latter. `fresh` says that the first gap may open with a directive. -/
def Tiles (source : List Char) : (fresh : Bool) → (start stop : Nat) → List Token → Prop
  | _, _, _, [] => False
  | fresh, start, stop, t :: ts =>
    start ≤ t.start ∧ t.start ≤ t.stop ∧ t.stop ≤ stop
      ∧ t.line = lineAt source t.start ∧ t.column = columnAt source t.start
      ∧ if t.kind = .eof then
          ts = [] ∧ t.text = "" ∧ t.start = stop ∧ Gap true fresh (stretchOf source start t.start)
        else
          t.start < t.stop ∧ t.IsWritten (stretchOf source t.start t.stop)
            ∧ Gap false fresh (stretchOf source start t.start)
            ∧ HolesInside source t ∧ Tiles source false t.stop stop ts
termination_by structural _ _ _ ts => ts

/-- The tokens of each hole tile a stretch strictly inside the token. -/
def HolesInside (source : List Char) : Token → Prop
  | { holes := some hs, start, stop, .. } => HolesTile source stop start hs
  | { holes := none, .. } => True
termination_by structural t => t

/-- The tokens of holes tile stretches of a source in order between two offsets, each of which
opens after a brace and ends before what ends an expression. -/
def HolesTile (source : List Char) (hi : Nat) : (lo : Nat) → List (List Token) → Prop
  | _, [] => True
  | lo, h :: hs => ∃ start stop, lo < start ∧ stop < hi ∧ source[start - 1]? = some '\x7b'
      ∧ (∃ c ∈ holeEnds, source[stop]? = some c) ∧ Tiles source true start stop h
      ∧ HolesTile source hi stop hs
termination_by structural _ hs => hs

end

variable {ts : List Token} {t : Token} {post : List Char}

theorem holesInside_iff :
    HolesInside source t ↔ ∀ hs, t.holes = some hs → HolesTile source t.stop t.start hs := by
  obtain ⟨kind, text, line, column, start, stop, holes, dotless⟩ := t
  cases holes with
  | none => exact ⟨nofun, fun _ => trivial⟩
  | some hs =>
    refine ⟨fun h hs' heq => ?_, fun h => h hs rfl⟩
    cases heq
    exact h

/-- Only what is written after `@` hides a character, and it is an identifier. -/
theorem hidden_eq {l : Lexeme} (h : lexeme cs = .ok l) (hn : l.length = .ok n) :
    l.hidden = if l.kind = .ident ∧ (cs.take n).head? = some '@' then 1 else 0 := by
  by_cases hident : l.kind = .ident
  · rcases lexeme_word h (.inl hident) with ⟨c, rest, rfl, hstart, rfl⟩
      | ⟨d, rest, rfl, hstart, rfl⟩
    · cases hn
      refine (if_neg ?_).symm
      rintro ⟨-, hhead⟩
      rw [nameLength, Nat.add_comm, take_succ_cons] at hhead
      cases hhead
      exact absurd hstart (by decide)
    · cases hn
      rw [Nat.add_comm, take_succ_cons]
      rfl
  · rw [if_neg fun hname => hident hname.1]
    cases l with
    | escapedName => exact absurd rfl hident
    | plain | interpolated => rfl

/-- A token that is read at a place of a source is written there. -/
theorem tokenOf_isWritten {p : Pos} (h : tokenOf p cs = .ok (t, n)) : t.IsWritten (cs.take n) := by
  obtain ⟨l, hl, hn, -, hkind, htext, -⟩ := tokenAt_eq_ok h
  rw [Token.IsWritten, htext, hkind, ← hidden_eq hl hn]

/-- What stands between two parts of a source is a stretch of it. -/
theorem stretchOf_between {a : List Char} (hsource : source = pre ++ (a ++ post)) :
    stretchOf source pre.length (pre ++ a).length = a := by
  rw [hsource, stretchOf, drop_left, length_append, Nat.add_sub_cancel_left, take_left]

/-- Reading goes on at the place after what was read. -/
theorem place_advance {more : List Char} (hsource : source = pre ++ more) :
    (({} : Pos).advance pre).offset = pre.length
    ∧ (({} : Pos).advance pre).line = lineAt source pre.length
    ∧ (({} : Pos).advance pre).column = columnAt source pre.length := by
  rw [lineAt, columnAt, hsource, take_left, Pos.advance_eq]
  exact ⟨rfl, rfl, rfl⟩

/-- The end token after a gap. -/
theorem tiles_end {gap : Nat} (hsource : source = pre ++ (cs ++ post))
    (hgap : gapLength fresh cs = .ok gap) (hcs : cs.drop gap = []) :
    Tiles source fresh pre.length (pre.length + cs.length)
      [Token.eof ((({} : Pos).advance pre).advance (cs.take gap))] := by
  have hall : cs.take gap = cs := by
    rw [← append_nil (cs.take gap), ← hcs, take_append_drop]
  have hgap : Gap true fresh (cs.take gap) := gap_of_gapLength hgap (.inl rfl)
  rw [hall] at hgap ⊢
  rw [← Pos.advance_append]
  obtain ⟨hoffset, hline, hcolumn⟩ := place_advance (hsource.trans (append_assoc ..).symm)
  have hstart : (Token.eof (({} : Pos).advance (pre ++ cs))).start = (pre ++ cs).length := hoffset
  have hstop : (Token.eof (({} : Pos).advance (pre ++ cs))).stop = (pre ++ cs).length := hoffset
  rw [← length_append, Tiles, if_pos (show (Token.eof _).kind = .eof from rfl), hstart, hstop,
    stretchOf_between hsource]
  exact ⟨by rw [length_append]; omega, Nat.le_refl _, Nat.le_refl _, hline, hcolumn, rfl, rfl,
    rfl, hgap⟩

/-- What reading a shorter stretch of a source makes of it tiles it. -/
def TilesBelow (source : List Char) (bound : Nat) : Prop :=
  ∀ pre text post ts, text.length < bound → source = pre ++ (text ++ post) →
    tokensOf (({} : Pos).advance pre) true text = .ok ts →
    Tiles source true pre.length (pre.length + text.length) ts

theorem eq_ok_of_bind_some {α ε : Type} {x : Except ε α} {a : α}
    (h : (x >>= fun a => pure (some a)) = .ok (some a)) : x = .ok a := by
  cases x with
  | error e => cases h
  | ok b =>
    cases h
    rfl

/-- The tokens of the holes of a literal tile their ranges. -/
theorem holesTile_of_mapM {hi lo : Nat} {holes : List HoleRange} {hs : List (List Token)}
    (hsource : source = pre ++ (cs ++ post)) (hspaced : Spaced cs hi lo holes)
    (hhi : hi ≤ cs.length)
    (hbelow : TilesBelow source cs.length)
    (h : holes.mapM (fun hole => tokensOf ((({} : Pos).advance pre).advance (cs.take hole.start))
      true ((cs.drop hole.start).take hole.length)) = .ok hs) :
    HolesTile source (pre.length + hi) (pre.length + lo) hs := by
  have hget : ∀ {i : Nat} {c : Char}, cs[i]? = some c → source[pre.length + i]? = some c := by
    intro i c hc
    obtain ⟨hi, -⟩ := List.getElem?_eq_some_iff.1 hc
    rw [hsource, getElem?_append_right (Nat.le_add_right _ _), Nat.add_sub_cancel_left,
      getElem?_append_left hi, hc]
  induction holes generalizing lo hs with
  | nil =>
    cases h
    trivial
  | cons hole holes ih =>
    obtain ⟨ts, hs', hts, hmap, rfl⟩ := mapM_cons_eq_ok h
    obtain ⟨hlo, hstop, hopen, ⟨c, hc, hclose⟩, hrest⟩ := hspaced
    have hpre : (pre ++ cs.take hole.start).length = pre.length + hole.start := by
      rw [length_append, length_take, Nat.min_eq_left (by omega)]
    have htext : ((cs.drop hole.start).take hole.length).length = hole.length := by
      rw [length_take, length_drop, Nat.min_eq_left (by omega)]
    have htiles := hbelow (pre ++ cs.take hole.start) ((cs.drop hole.start).take hole.length)
      ((cs.drop hole.start).drop hole.length ++ post) ts (by omega) ?_ ?_
    · rw [hpre, htext] at htiles
      refine ⟨_, _, by omega, by omega, ?_, ⟨c, hc, ?_⟩, htiles, ?_⟩
      · rw [Nat.add_sub_assoc (by omega)]
        exact hget hopen
      · rw [Nat.add_assoc]
        exact hget hclose
      · rw [Nat.add_assoc]
        exact ih hrest hmap
    · have hcut : cs = cs.take hole.start ++ ((cs.drop hole.start).take hole.length
          ++ (cs.drop hole.start).drop hole.length) := by
        rw [take_append_drop, take_append_drop]
      rw [hsource]
      conv_lhs => rw [hcut]
      simp only [append_assoc]
    · rw [Pos.advance_append]
      exact hts

/-- The holes of a token that is read at a place of a source tile stretches inside it. -/
theorem holesInside_of_tokenOf (hsource : source = pre ++ (cs ++ post))
    (hbelow : TilesBelow source cs.length) (hcs : cs ≠ [])
    (h : tokenOf (({} : Pos).advance pre) cs = .ok (t, n)) : HolesInside source t := by
  rw [holesInside_iff]
  intro hs hhs
  obtain ⟨hstart, -, -⟩ := tokenAt_place h
  obtain ⟨l, hl, hn, hholes, -, -, hstop⟩ := tokenAt_eq_ok h
  rw [hhs] at hholes
  cases l with
  | plain => cases hholes
  | escapedName => cases hholes
  | interpolated extent =>
    have hle := (tokenAt_le hcs h).2
    obtain ⟨verbatim, m, rfl⟩ := interpolated_of_lexeme hl
    have hlt := interpolatedFrom_lt hn
    have hfront : (cs.take (m + 1)).length = m + 1 := by
      rw [length_drop] at hlt
      rw [length_take, Nat.min_eq_left (by omega)]
    have hspaced := interpolatedFrom_spaced hn hfront (Nat.zero_le _)
    rw [take_append_drop] at hspaced
    obtain ⟨hoffset, -, -⟩ := place_advance hsource
    rw [hstop, hstart, hoffset]
    exact holesTile_of_mapM hsource hspaced hle hbelow (eq_ok_of_bind_some hholes)

/-- A gap, a token, and what follows it. -/
theorem tiles_token {u a rest : List Char} (hsource : source = pre ++ (u ++ (a ++ rest) ++ post))
    (hgap : gapLength fresh (u ++ (a ++ rest)) = .ok u.length) (ha : a ≠ []) (hkind : t.kind ≠ .eof)
    (htoken : tokenOf (({} : Pos).advance (pre ++ u)) (a ++ rest) = .ok (t, a.length))
    (hbelow : TilesBelow source (a ++ rest).length)
    (htiles : Tiles source false (pre ++ u ++ a).length ((pre ++ u ++ a).length + rest.length) ts) :
    Tiles source fresh pre.length (pre.length + (u ++ (a ++ rest)).length) (t :: ts) := by
  have hgapped : source = pre ++ (u ++ (a ++ rest ++ post)) := by
    rw [hsource, append_assoc u]
  have hfront : source = pre ++ u ++ (a ++ rest ++ post) := by
    rw [hgapped, append_assoc pre]
  obtain ⟨hstart, hline, hcolumn⟩ := tokenAt_place htoken
  obtain ⟨l, hl, -, -, -, -, hstop⟩ := tokenAt_eq_ok htoken
  obtain ⟨hoffset, hline', hcolumn'⟩ := place_advance hfront
  rw [hoffset] at hstart hstop
  rw [← length_append] at hstop
  have hgap : Gap false fresh ((u ++ (a ++ rest)).take u.length) :=
    gap_of_gapLength hgap (.inr ⟨l, by simp [ha], by rwa [drop_left]⟩)
  rw [take_left] at hgap
  have hwritten := tokenOf_isWritten htoken
  rw [take_left] at hwritten
  have hholes := holesInside_of_tokenOf hfront hbelow (by simp [ha]) htoken
  have hpos := length_pos_iff.2 ha
  have hpre : (pre ++ u).length = pre.length + u.length := length_append
  have hend : (pre ++ u ++ a).length = (pre ++ u).length + a.length := length_append
  have htotal : pre.length + (u ++ (a ++ rest)).length = (pre ++ u ++ a).length + rest.length := by
    rw [hend, hpre, length_append, length_append]
    omega
  rw [Tiles, if_neg hkind, hstart, hstop, htotal, stretchOf_between hgapped,
    stretchOf_between (hfront.trans (by rw [append_assoc a]))]
  exact ⟨by omega, by omega, by omega, hline.trans hline', hcolumn.trans hcolumn', by omega,
    hwritten, hgap, hholes, htiles⟩

/-- The tokens of a stretch of a source tile it. -/
theorem tiles_of_tokensOf (hsource : source = pre ++ (cs ++ post))
    (h : tokensOf (({} : Pos).advance pre) fresh cs = .ok ts) :
    Tiles source fresh pre.length (pre.length + cs.length) ts := by
  -- a hole and what follows a token are both shorter
  induction hlength : cs.length using Nat.strongRecOn generalizing pre cs post fresh ts with
  | ind m ih =>
  subst hlength
  rcases tokensOf_eq_ok h with ⟨gap, hgap, hcs, rfl⟩ | ⟨_, t, _, rest, _, _, _, hrest, rfl⟩
  · exact tiles_end hsource hgap hcs
  · have hkind : t.kind ≠ .eof := by
      intro heof
      have hnil := (Token.closed_cons_eof heof).1 (tokensOf_closed h)
      exact (tokensOf_closed hrest).ne_nil hnil
    obtain ⟨u, a, rest, rfl, ha, hgap, htoken, hmore⟩ := tokensOf_cons_eq_ok h hkind
    have hpos := length_pos_iff.2 ha
    have hafter : source = pre ++ u ++ a ++ (rest ++ post) := by
      rw [hsource]
      simp only [append_assoc]
    rw [← Pos.advance_append] at htoken
    rw [← Pos.advance_append, ← append_assoc] at hmore
    have hbelow : TilesBelow source (a ++ rest).length := by
      intro pre' text post' ts' htext hsource' hts'
      refine ih text.length ?_ hsource' hts' rfl
      rw [length_append]
      omega
    have hless : rest.length < (u ++ (a ++ rest)).length := by
      rw [length_append, length_append]
      omega
    exact tiles_token hsource hgap ha hkind htoken hbelow (ih rest.length hless hafter hmore rfl)

/-- The tokens of a source tile it, once the byte order mark that may open it is dropped. -/
theorem tokenizeChars_tiles {tokens : List Token} (h : tokenizeChars source = .ok tokens) :
    Tiles (stripMark source) true 0 (stripMark source).length tokens := by
  rw [tokenizeChars_eq] at h
  have hsource : stripMark source = [] ++ (stripMark source ++ []) := (append_nil _).symm
  have htiles := tiles_of_tokensOf hsource h
  rwa [length_nil, Nat.zero_add] at htiles

/-- A source with a mark at its front, a directive, comments, a name after `@` and a hole that has
a format. -/
theorem tokenizeChars_tiles_hole : ∃ tokens,
    tokenizeChars "\ufeff#if X\n/* a */ @b($\"\x7bc:x\x7d\"); // d".toList = .ok tokens
      ∧ Tiles "#if X\n/* a */ @b($\"\x7bc:x\x7d\"); // d".toList true 0 32 tokens := by
  have htokens : tokenizeChars "\ufeff#if X\n/* a */ @b($\"\x7bc:x\x7d\"); // d".toList
      = .ok _ := rfl
  exact ⟨_, htokens, tokenizeChars_tiles htokens⟩

end SourceBundle
