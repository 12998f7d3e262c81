/-
The tokens of a text, without the bound on steps. Each step passes over
a gap and takes one token (`tokensOf_eq_ok`, `tokensOf_cons`), so that
the tokens of a text are those of its front and then those of its rest.

Where a text stands does not matter to its tokens but for their offsets,
and up to a closing brace or a semicolon neither does what follows
(`tokensOf_split`).
-/
import Mathlib.Data.List.Forall2
import SourceBundle.Proofs.Parse.Simulation
import SourceBundle.Proofs.Token.Lexemes
import SourceBundle.Text.Blank

namespace SourceBundle

open List Text

variable {w cs cs' more more' : List Char} {k n : Nat} {p q : Pos} {fresh : Bool} {t : Token}
  {ts : List Token} {inner inner' : Pos → List Char → Except LexError (List Token)}

-- ===== positions

@[simp] theorem Pos.offset_advance (p : Pos) (cs : List Char) :
    (p.advance cs).offset = p.offset + cs.length := by
  induction cs generalizing p with
  | nil => rfl
  | cons c cs ih =>
    show ((p.step c).advance cs).offset = _
    rw [ih, length_cons, Pos.step]
    split <;> simp only <;> omega

theorem Pos.advance_append (p : Pos) (cs ds : List Char) :
    p.advance (cs ++ ds) = (p.advance cs).advance ds :=
  foldl_append

-- ===== one token

/-- An interpolated literal is read on after its marks and its quote. -/
theorem interpolated_of_lexeme {extent : InterpolatedExtent}
    (h : lexeme cs = .ok (.interpolated extent)) :
    ∃ verbatim m, extent = interpolatedFrom verbatim 0 (m + 1) (cs.drop (m + 1)) := by
  have hmarked : markedString cs = .ok (.interpolated extent) := by
    by_cases hcs : cs = []
    · rw [hcs] at h
      cases h
    cases lexed_of_lexeme hcs h with
    | marked _ hmarked => exact hmarked
    | quoted hquoted => cases plainString_kind hquoted
  unfold markedString at hmarked
  dsimp only at hmarked
  split at hmarked
  · obtain ⟨n, -, heq⟩ := bind_length_eq_ok hmarked
    cases heq
  split at hmarked
  · cases hmarked
    exact ⟨_, _, by rw [drop_drop]⟩
  · obtain ⟨n, -, heq⟩ := bind_length_eq_ok hmarked
    cases heq

/-- The holes of a literal stand inside it. -/
theorem holes_of_lexeme {extent : InterpolatedExtent} {hole : HoleRange}
    (h : lexeme cs = .ok (.interpolated extent)) (hhole : hole ∈ extent.holes) :
    1 ≤ hole.start ∧ ∀ {n}, extent.length = .ok n → hole.start + hole.length < n := by
  obtain ⟨verbatim, m, rfl⟩ := interpolated_of_lexeme h
  have := start_of_mem_holes hhole
  exact ⟨by omega, stop_of_mem_holes hhole⟩

/-- A token is cut from its text. -/
theorem tokenAt_eq_cut (h : tokenAt inner p cs = .ok (t, n)) :
    ∃ l, ∃ (hl : lexeme cs = .ok l) (hn : l.length = .ok n), ∃ holes,
      holeTokens inner p cs l.holes = .ok holes
      ∧ t = Token.cut l.kind p cs l.hidden n (dotless_of_lexeme hl hn) holes := by
  unfold tokenAt at h
  split at h
  next => cases h
  next l hl =>
    cases hholes : holeTokens inner p cs l.holes with
    | error e =>
      rw [hholes] at h
      cases h
    | ok holes =>
      rw [hholes] at h
      dsimp only [bind, Except.bind] at h
      split at h
      next => cases h
      next n hn =>
        cases h
        exact ⟨l, hl, hn, holes, hholes, rfl⟩

/-- What a token is made of. -/
theorem tokenAt_eq_ok (h : tokenAt inner p cs = .ok (t, n)) :
    ∃ l, lexeme cs = .ok l ∧ l.length = .ok n ∧ holeTokens inner p cs l.holes = .ok t.holes
      ∧ t.kind = l.kind ∧ t.text = String.ofList ((cs.take n).drop l.hidden)
      ∧ t.stop = p.offset + n := by
  obtain ⟨l, hl, hn, holes, hholes, rfl⟩ := tokenAt_eq_cut h
  exact ⟨l, hl, hn, hholes, rfl, rfl, rfl⟩

/-- Where a token starts. -/
theorem tokenAt_place (h : tokenAt inner p cs = .ok (t, n)) :
    t.start = p.offset ∧ t.line = p.line ∧ t.column = p.column := by
  obtain ⟨l, hl, hn, holes, hholes, rfl⟩ := tokenAt_eq_cut h
  exact ⟨rfl, rfl, rfl⟩

/-- A lexeme whose holes can be read makes a token. -/
theorem tokenAt_ok {l : Lexeme} {holes : Option (List (List Token))} (hl : lexeme cs = .ok l)
    (hn : l.length = .ok n) (hholes : holeTokens inner p cs l.holes = .ok holes) :
    ∃ t, tokenAt inner p cs = .ok (t, n) ∧ t.kind = l.kind
      ∧ t.text = String.ofList ((cs.take n).drop l.hidden) ∧ t.holes = holes
      ∧ t.stop = p.offset + n := by
  unfold tokenAt
  split
  next heq => cases hl.symm.trans heq
  next l' heq =>
    cases hl.symm.trans heq
    rw [hholes]
    dsimp only [bind, Except.bind]
    split
    next heq => cases hn.symm.trans heq
    next n' heq =>
      cases hn.symm.trans heq
      exact ⟨_, rfl, rfl, rfl, rfl, rfl⟩

theorem tokenAt_le (hcs : cs ≠ []) (h : tokenAt inner p cs = .ok (t, n)) :
    1 ≤ n ∧ n ≤ cs.length := by
  obtain ⟨l, hl, hn, -⟩ := tokenAt_eq_ok h
  exact lexeme_le hcs hl hn

/-- The holes of a literal are shorter than the text it stands in. -/
theorem holeTokens_congr {l : Lexeme} (hcs : cs ≠ []) (hl : lexeme cs = .ok l)
    (h : ∀ q text, text.length < cs.length → inner q text = inner' q text) :
    holeTokens inner p cs l.holes = holeTokens inner' p cs l.holes := by
  have hpos := length_pos_iff.2 hcs
  cases l with
  | plain kind n => rfl
  | escapedName n => rfl
  | interpolated extent =>
    have hstart : ∀ hole ∈ extent.holes, 1 ≤ hole.start :=
      fun hole hhole => (holes_of_lexeme hl hhole).1
    show (do return some (← extent.holes.mapM _)) = (do return some (← extent.holes.mapM _))
    generalize extent.holes = holes at hstart
    suffices hmap : holes.mapM (fun hole =>
          inner (p.advance (cs.take hole.start)) ((cs.drop hole.start).take hole.length))
        = holes.mapM (fun hole =>
          inner' (p.advance (cs.take hole.start)) ((cs.drop hole.start).take hole.length)) by
      rw [hmap]
    induction holes with
    | nil => rfl
    | cons hole holes ih =>
      rw [mapM_cons, mapM_cons, ih fun hole hhole => hstart hole (mem_cons_of_mem _ hhole),
        h]
      have := hstart hole (mem_cons_self ..)
      rw [length_take, length_drop]
      omega

theorem tokenAt_congr (hcs : cs ≠ [])
    (h : ∀ q text, text.length < cs.length → inner q text = inner' q text) :
    tokenAt inner p cs = tokenAt inner' p cs := by
  unfold tokenAt
  split
  next => rfl
  next l hl => rw [holeTokens_congr hcs hl h]

-- ===== all tokens

/-- More steps than there are characters are as good as any other number of them. -/
theorem tokensFrom_congr {b b' : Nat} (hb : cs.length < b) (hb' : cs.length < b') :
    tokensFrom b p fresh cs = tokensFrom b' p fresh cs := by
  induction hn : cs.length using Nat.strongRecOn generalizing b b' p fresh cs with
  | ind n ih =>
  subst hn
  obtain ⟨b, rfl⟩ : ∃ c, b = c + 1 := ⟨b - 1, by omega⟩
  obtain ⟨b', rfl⟩ : ∃ c, b' = c + 1 := ⟨b' - 1, by omega⟩
  rw [tokensFrom, tokensFrom]
  split
  next => rfl
  next gap hgap =>
    dsimp only
    split
    next => rfl
    next hempty =>
      have hcs : cs.drop gap ≠ [] := by simpa using hempty
      have hlength : (cs.drop gap).length ≤ cs.length := by rw [length_drop]; omega
      have hsame : tokenAt (tokensFrom b · true ·) (p.advance (cs.take gap)) (cs.drop gap)
          = tokenAt (tokensFrom b' · true ·) (p.advance (cs.take gap)) (cs.drop gap) :=
        tokenAt_congr hcs fun q text htext =>
          ih text.length (by omega) (by omega) (by omega) rfl
      rw [hsame]
      cases htoken : tokenAt (tokensFrom b' · true ·) (p.advance (cs.take gap)) (cs.drop gap) with
      | error e => rfl
      | ok r =>
        obtain ⟨t, n⟩ := r
        have hle := tokenAt_le hcs htoken
        have hshort : ((cs.drop gap).drop n).length < cs.length := by
          rw [length_drop]
          omega
        have hrest : ∀ q, tokensFrom b q false ((cs.drop gap).drop n)
            = tokensFrom b' q false ((cs.drop gap).drop n) :=
          fun q => ih _ hshort (by omega) (by omega) rfl
        show (tokensFrom b _ false ((cs.drop gap).drop n) >>= fun more => pure (t :: more))
          = tokensFrom b' _ false ((cs.drop gap).drop n) >>= fun more => pure (t :: more)
        rw [hrest]

/-- The tokens of a text that starts at a place. -/
def tokensOf (p : Pos) (fresh : Bool) (cs : List Char) : Except LexError (List Token) :=
  tokensFrom (cs.length + 1) p fresh cs

theorem tokenizeChars_eq (cs : List Char) : tokenizeChars cs = tokensOf {} true (stripMark cs) :=
  rfl

/-- The token at the front of a text, its holes read in full. -/
def tokenOf (p : Pos) (cs : List Char) : Except LexError (Token × Nat) :=
  tokenAt (tokensOf · true ·) p cs

section

variable {gap : Nat}

theorem tokensOf_of_gap_error {f : FaultAt} (h : gapLength fresh cs = .error f) :
    tokensOf p fresh cs = .error (LexError.place p cs f) := by
  rw [tokensOf, tokensFrom, h]

theorem tokensOf_of_end (h : gapLength fresh cs = .ok gap) (hcs : cs.drop gap = []) :
    tokensOf p fresh cs = .ok [Token.eof (p.advance (cs.take gap))] := by
  rw [tokensOf, tokensFrom, h]
  dsimp only
  rw [if_pos (by rw [hcs]; rfl)]

/-- One token, and then the rest. -/
theorem tokensOf_of_token (h : gapLength fresh cs = .ok gap) (hcs : cs.drop gap ≠ []) :
    tokensOf p fresh cs = do
      let r ← tokenOf (p.advance (cs.take gap)) (cs.drop gap)
      let more ← tokensOf (p.advance (cs.take (gap + r.2))) false (cs.drop (gap + r.2))
      return r.1 :: more := by
  have hlength : (cs.drop gap).length ≤ cs.length := by rw [length_drop]; omega
  have hsame : tokenAt (tokensFrom cs.length · true ·) (p.advance (cs.take gap)) (cs.drop gap)
      = tokenOf (p.advance (cs.take gap)) (cs.drop gap) :=
    tokenAt_congr hcs fun q text htext => tokensFrom_congr (by omega) (by omega)
  rw [tokensOf, tokensFrom, h]
  dsimp only
  rw [if_neg (by simpa using hcs), hsame]
  cases htoken : tokenOf (p.advance (cs.take gap)) (cs.drop gap) with
  | error e => rfl
  | ok r =>
    obtain ⟨t, n⟩ := r
    have hle := tokenAt_le hcs htoken
    have hrest : ∀ q, tokensFrom cs.length q false ((cs.drop gap).drop n)
        = tokensOf q false (cs.drop (gap + n)) := by
      intro q
      rw [drop_drop]
      exact tokensFrom_congr (by rw [length_drop] at *; omega) (by omega)
    have hplace : (p.advance (cs.take gap)).advance ((cs.drop gap).take n)
        = p.advance (cs.take (gap + n)) := by
      rw [← Pos.advance_append, take_add]
    show (tokensFrom cs.length ((p.advance (cs.take gap)).advance ((cs.drop gap).take n)) false
        ((cs.drop gap).drop n) >>= fun more => pure (t :: more)) = _
    rw [hrest, hplace]
    rfl

end

/-- A text is all gap, or a gap, a token and the rest. -/
theorem tokensOf_eq_ok (h : tokensOf p fresh cs = .ok ts) :
    (∃ gap, gapLength fresh cs = .ok gap ∧ cs.drop gap = []
        ∧ ts = [Token.eof (p.advance (cs.take gap))])
      ∨ ∃ gap t n more, gapLength fresh cs = .ok gap ∧ cs.drop gap ≠ []
        ∧ tokenOf (p.advance (cs.take gap)) (cs.drop gap) = .ok (t, n)
        ∧ tokensOf (p.advance (cs.take (gap + n))) false (cs.drop (gap + n)) = .ok more
        ∧ ts = t :: more := by
  cases hgap : gapLength fresh cs with
  | error f =>
    rw [tokensOf_of_gap_error hgap] at h
    cases h
  | ok gap =>
    by_cases hcs : cs.drop gap = []
    · rw [tokensOf_of_end hgap hcs] at h
      cases h
      exact .inl ⟨gap, rfl, hcs, rfl⟩
    · rw [tokensOf_of_token hgap hcs] at h
      cases htoken : tokenOf (p.advance (cs.take gap)) (cs.drop gap) with
      | error e =>
        rw [htoken] at h
        cases h
      | ok r =>
        obtain ⟨t, n⟩ := r
        rw [htoken] at h
        cases hmore : tokensOf (p.advance (cs.take (gap + n))) false (cs.drop (gap + n)) with
        | error e =>
          dsimp only [bind, Except.bind] at h
          rw [hmore] at h
          cases h
        | ok more =>
          dsimp only [bind, Except.bind] at h
          rw [hmore] at h
          cases h
          exact .inr ⟨gap, t, n, more, rfl, hcs, htoken, hmore, rfl⟩

theorem tokensOf_cons {gap : Nat} (hgap : gapLength fresh cs = .ok gap) (hcs : cs.drop gap ≠ [])
    (htoken : tokenOf (p.advance (cs.take gap)) (cs.drop gap) = .ok (t, n)) :
    tokensOf p fresh cs = (tokensOf (p.advance (cs.take (gap + n))) false (cs.drop (gap + n))).map
      (t :: ·) := by
  rw [tokensOf_of_token hgap hcs, htoken]
  dsimp only [bind, Except.bind]
  cases tokensOf (p.advance (cs.take (gap + n))) false (cs.drop (gap + n)) <;> rfl

-- ===== elsewhere

/-- What a reader makes of texts shorter than a bound does not depend on where they stand. -/
def PlaceFree (inner : Pos → List Char → Except LexError (List Token)) (bound : Nat) : Prop :=
  ∀ q q' text ts, text.length < bound → inner q text = .ok ts →
    ∃ ts', inner q' text = .ok ts' ∧ Alike ts ts'

theorem mapM_cons_eq_ok {α β ε : Type} {f : α → Except ε β} {a : α} {as : List α} {bs : List β}
    (h : (a :: as).mapM f = .ok bs) :
    ∃ b bs', f a = .ok b ∧ as.mapM f = .ok bs' ∧ bs = b :: bs' := by
  rw [mapM_cons] at h
  cases hb : f a with
  | error e =>
    rw [hb] at h
    cases h
  | ok b =>
    rw [hb] at h
    cases hbs : as.mapM f with
    | error e =>
      rw [hbs] at h
      cases h
    | ok bs' =>
      rw [hbs] at h
      cases h
      exact ⟨b, bs', rfl, rfl, rfl⟩

theorem mapM_alike {f g : HoleRange → Except LexError (List Token)} {holes : List HoleRange}
    {hs : List (List Token)} (h : holes.mapM f = .ok hs)
    (hfg : ∀ hole ∈ holes, ∀ ts, f hole = .ok ts → ∃ ts', g hole = .ok ts' ∧ Alike ts ts') :
    ∃ hs', holes.mapM g = .ok hs' ∧ Alike hs hs' := by
  induction holes generalizing hs with
  | nil =>
    cases h
    exact ⟨[], rfl, rfl⟩
  | cons hole holes ih =>
    obtain ⟨ts, rest, hts, hrest, rfl⟩ := mapM_cons_eq_ok h
    obtain ⟨ts', hts', halike⟩ := hfg hole (mem_cons_self ..) ts hts
    obtain ⟨rest', hrest', halike'⟩ :=
      ih hrest fun hole hmem => hfg hole (mem_cons_of_mem _ hmem)
    refine ⟨ts' :: rest', ?_, alike_cons.2 ⟨halike, halike'⟩⟩
    rw [mapM_cons, hts', hrest']
    rfl

/-- The holes of a literal, read elsewhere. -/
theorem holeTokens_alike {l : Lexeme} {holes : Option (List (List Token))} (p' : Pos)
    (hl : lexeme cs = .ok l) (hn : l.length = .ok n) (hle : n ≤ cs.length)
    (hsame : cs'.take n = cs.take n) (hinner : PlaceFree inner cs.length)
    (h : holeTokens inner p cs l.holes = .ok holes) :
    ∃ holes', holeTokens inner p' cs' l.holes = .ok holes' ∧ Alike holes holes' := by
  cases l with
  | plain kind n =>
    cases h
    exact ⟨none, rfl, rfl⟩
  | escapedName n =>
    cases h
    exact ⟨none, rfl, rfl⟩
  | interpolated extent =>
    have hinside : ∀ hole ∈ extent.holes, 1 ≤ hole.start ∧ hole.start + hole.length < n :=
      fun hole hhole => (holes_of_lexeme hl hhole).imp_right fun h => h hn
    cases hread : extent.holes.mapM fun hole => inner (p.advance (cs.take hole.start))
        ((cs.drop hole.start).take hole.length) with
    | error e =>
      rw [Lexeme.holes, holeTokens, hread] at h
      cases h
    | ok hs =>
      rw [Lexeme.holes, holeTokens, hread] at h
      cases h
      obtain ⟨hs', hread', halike⟩ := mapM_alike (g := fun hole =>
        inner (p'.advance (cs'.take hole.start))
          ((cs'.drop hole.start).take hole.length)) hread fun hole hhole ts hts => by
        obtain ⟨hstart, hstop⟩ := hinside hole hhole
        -- the hole lies in the part that both texts have in common
        have hhole : ∀ cs : List Char, (cs.drop hole.start).take hole.length
            = ((cs.take n).drop hole.start).take hole.length := by
          intro cs
          rw [drop_take, take_take, Nat.min_eq_left (by omega)]
        rw [hhole, hsame, ← hhole]
        refine hinner _ _ _ ts ?_ hts
        rw [length_take, length_drop]
        omega
      refine ⟨some hs', ?_, alike_some.2 halike⟩
      rw [Lexeme.holes, holeTokens, hread']
      rfl

theorem tokenAt_recut (p' : Pos) (hcs : cs ≠ []) (h : tokenAt inner p cs = .ok (t, n))
    (hcut : Recut n cs cs') (hinner : PlaceFree inner cs.length) :
    ∃ t', tokenAt inner p' cs' = .ok (t', n) ∧ Alike t t' := by
  obtain ⟨l, hl, hn, hholes, hkind, htext, -⟩ := tokenAt_eq_ok h
  have hsame := hcut.take_eq (Nat.le_refl n)
  obtain ⟨holes, hholes', halike⟩ :=
    holeTokens_alike p' hl hn (tokenAt_le hcs h).2 hsame hinner hholes
  obtain ⟨t', ht', hkind', htext', rfl, -⟩ := tokenAt_ok (lexeme_recut hcs hl hn hcut) hn hholes'
  exact ⟨t', ht', alike_token.2 ⟨hkind.trans hkind'.symm, by rw [htext, htext', hsame], halike⟩⟩

/-- Tokens do not depend on where their text stands, but for their offsets. -/
theorem tokensOf_alike (p' : Pos) (h : tokensOf p fresh cs = .ok ts) :
    ∃ ts', tokensOf p' fresh cs = .ok ts' ∧ Alike ts ts' := by
  induction hlength : cs.length using Nat.strongRecOn generalizing p p' fresh cs ts with
  | ind n ih =>
  subst hlength
  rcases tokensOf_eq_ok h with ⟨gap, hgap, hcs, rfl⟩
    | ⟨gap, t, n, rest, hgap, hcs, htoken, hrest, rfl⟩
  · exact ⟨_, tokensOf_of_end hgap hcs, rfl⟩
  · have hle := tokenAt_le hcs htoken
    rw [length_drop] at hle
    have hfree : PlaceFree (tokensOf · true ·) (cs.drop gap).length := by
      intro q q' text ts htext hts
      rw [length_drop] at htext
      exact ih text.length (by omega) q' hts rfl
    obtain ⟨t', htoken', halike⟩ := tokenAt_recut (p'.advance (cs.take gap)) hcs htoken
      (.refl (by rw [length_drop]; omega)) hfree
    obtain ⟨rest', hrest', hrestAlike⟩ := ih _ (by rw [length_drop]; omega)
      (p'.advance (cs.take (gap + n))) hrest rfl
    refine ⟨t' :: rest', ?_, alike_cons.2 ⟨halike, hrestAlike⟩⟩
    rw [tokensOf_cons hgap hcs htoken', hrest']
    rfl

/-- A token stays as it is elsewhere, and in a text that it does not tell from its own. -/
theorem tokenOf_recut (p' : Pos) (hcs : cs ≠ []) (h : tokenOf p cs = .ok (t, n))
    (hcut : Recut n cs cs') : ∃ t', tokenOf p' cs' = .ok (t', n) ∧ Alike t t' :=
  tokenAt_recut p' hcs h hcut fun _ q' _ _ _ hts => tokensOf_alike q' hts

-- ===== kinds

theorem isBarrier_ofWord (word : String) : (Kind.ofWord word).isBarrier = false := by
  have hall : ∀ o ∈ branchWords, o.2.isBarrier = false := by decide
  unfold Kind.ofWord
  split
  next kind hlookup =>
    obtain ⟨before, after, hwords, -⟩ := lookup_eq_some_iff.1 hlookup
    exact hall (word, kind) (by rw [hwords]; simp)
  next =>
    split
    · rfl
    · split <;> rfl

theorem isBarrier_compound {text : String} {kind : Kind}
    (h : compoundOperator? cs = some (text, kind)) : kind.isBarrier = false := by
  have hall : ∀ o ∈ compoundOperators, o.2.isBarrier = false := by decide
  exact hall _ (mem_of_find?_eq_some h)

/-- A closing brace or a semicolon stands alone, and nothing else is of a barrier's kind. -/
theorem lexeme_barrier {l : Lexeme} (hcs : cs ≠ []) (h : lexeme cs = .ok l)
    (hl : l.kind.isBarrier = true) :
    ∃ c rest k, cs = c :: rest ∧ Kind.ofMark? c = some k ∧ l = .plain k 1 := by
  cases lexed_of_lexeme hcs h with
  | marked _ hm => rcases markedString_kind hm with hkind | hkind <;> rw [hkind] at hl <;> cases hl
  | quoted hq =>
    rw [plainString_kind hq] at hl
    cases hl
  | char | escaped | number => cases hl
  | name => exact absurd hl (by rw [Lexeme.kind, isBarrier_ofWord]; exact Bool.false_ne_true)
  | compound ho =>
    exact absurd hl (by rw [Lexeme.kind, isBarrier_compound ho]; exact Bool.false_ne_true)
  | mark hk => exact ⟨_, _, _, rfl, hk, rfl⟩

/-- Characters that no lexeme starts with: the number sign, the byte order mark and the blanks
that no gap is made of. -/
def strayChars : List Char :=
  ['#', '\ufeff', '\x1c', '\x1d', '\x1e', '\x1f', '\u0085', '\u00a0', '\u1680', '\u2000',
   '\u2001', '\u2002', '\u2003', '\u2004', '\u2005', '\u2006', '\u2007', '\u2008', '\u2009',
   '\u200a', '\u2028', '\u2029', '\u202f', '\u205f', '\u3000']

/-- A stop is a lexeme of its own, if it is one at all, and a stray character is none. -/
theorem lexeme_alone {c : Char} (hc : c ∈ stopChars ++ strayChars) (rest : List Char) :
    lexeme (c :: rest) = match Kind.ofMark? c with
      | some k => .ok (.plain k 1)
      | none => .error (.unexpected c, 0) := by
  have hplain : ∀ c ∈ stopChars ++ strayChars, isStringMark c = false ∧ c ≠ '"' ∧ c ≠ '\'' ∧ c ≠ '@'
      ∧ isNameStart c = false ∧ c ≠ '.' ∧ c ≠ '?' ∧ isDigit c = false :=
    forall_mem_of_all (by decide +kernel)
  obtain ⟨hmark, hquote, hchar, hat, hname, hpoint, hquestion, hdigit⟩ := hplain c hc
  have hmarked : startsMarkedString (c :: rest) = false := by
    rw [startsMarkedString, hmark, Bool.false_and]
  have hnumber : startsNumber (c :: rest) = false := by
    rw [startsNumber.eq_2 _ _ fun _ _ h _ => hpoint h, hdigit]
  have hbefore : questionBeforeNumber (c :: rest) = false :=
    questionBeforeNumber.eq_2 _ fun _ _ h => hquestion (List.cons.inj h).1
  have hcompound : compoundOperator? (c :: rest) = none := by
    refine find?_eq_none.2 fun o ho hopens => ?_
    have hall : ∀ o ∈ compoundOperators,
        (o.1.toList.head?.any fun d => d ∉ stopChars ++ strayChars) = true := by decide
    have hmarks : ∀ o ∈ compoundOperators, ∃ d ∈ o.1.toList.head?, d ∉ stopChars ++ strayChars :=
      fun o ho => by simpa [Option.any_eq_true] using hall o ho
    obtain ⟨d, hd, hstop⟩ := hmarks o ho
    obtain ⟨cs, hcs⟩ := List.isPrefixOf_iff_prefix.1 hopens
    cases htext : o.1.toList with
    | nil => rw [htext] at hd; cases hd
    | cons e es =>
      rw [htext] at hd hcs
      cases hd
      rw [cons_append, List.cons.injEq] at hcs
      exact hstop (hcs.1 ▸ hc)
  unfold lexeme
  dsimp only
  rw [if_neg (by rw [hmarked]; exact Bool.false_ne_true), if_neg hquote, if_neg hchar,
    if_neg (by simp [hat]), if_neg (by rw [hname]; exact Bool.false_ne_true),
    if_neg (by rw [hnumber]; exact Bool.false_ne_true),
    if_neg (by rw [hbefore]; exact Bool.false_ne_true)]
  cases Kind.ofMark? c <;> simp only [hcompound]

theorem lexeme_mark {c : Char} {k : Kind} (hc : c ∈ stopChars) (hk : Kind.ofMark? c = some k)
    (rest : List Char) : lexeme (c :: rest) = .ok (.plain k 1) := by
  rw [lexeme_alone (mem_append_left _ hc), hk]

theorem lexeme_stray {c : Char} (hc : c ∈ strayChars) (rest : List Char) :
    lexeme (c :: rest) = .error (.unexpected c, 0) := by
  have hnone : ∀ c ∈ strayChars, Kind.ofMark? c = none := forall_mem_of_all (by decide)
  rw [lexeme_alone (mem_append_right _ hc), hnone c hc]

theorem ofMark?_isBarrier {c : Char} {k : Kind} (h : Kind.ofMark? c = some k)
    (hk : k.isBarrier = true) : c ∈ stopChars ∧ k ≠ .eof := by
  unfold Kind.ofMark? at h
  split at h <;> cases h <;> first | decide | cases hk

-- ===== closed

theorem holesClosed_of {t : Token} (h : ∀ hs, t.holes = some hs → Token.AllClosed hs) :
    t.HolesClosed := by
  obtain ⟨_, _, _, _, _, _, holes, _⟩ := t
  cases holes with
  | none => trivial
  | some hs => exact h hs rfl

theorem mapM_allClosed {f : HoleRange → Except LexError (List Token)} {holes : List HoleRange}
    {hs : List (List Token)} (h : holes.mapM f = .ok hs)
    (hf : ∀ hole ∈ holes, ∀ ts, f hole = .ok ts → Token.Closed ts) : Token.AllClosed hs := by
  induction holes generalizing hs with
  | nil =>
    cases h
    trivial
  | cons hole holes ih =>
    obtain ⟨ts, rest, hts, hrest, rfl⟩ := mapM_cons_eq_ok h
    exact ⟨hf hole (mem_cons_self ..) ts hts,
      ih hrest fun hole hmem => hf hole (mem_cons_of_mem _ hmem)⟩

/-- The holes of a literal are closed if all shorter texts give closed tokens. -/
theorem holeTokens_closed {l : Lexeme} {hs : List (List Token)} (hcs : cs ≠ [])
    (hl : lexeme cs = .ok l) (h : holeTokens inner p cs l.holes = .ok (some hs))
    (hinner : ∀ q text ts, text.length < cs.length → inner q text = .ok ts → Token.Closed ts) :
    Token.AllClosed hs := by
  have hpos := length_pos_iff.2 hcs
  cases l with
  | plain kind n => cases h
  | escapedName n => cases h
  | interpolated extent =>
    cases hread : extent.holes.mapM fun hole => inner (p.advance (cs.take hole.start))
        ((cs.drop hole.start).take hole.length) with
    | error e =>
      rw [Lexeme.holes, holeTokens, hread] at h
      cases h
    | ok hs' =>
      rw [Lexeme.holes, holeTokens, hread] at h
      cases h
      refine mapM_allClosed hread fun hole hhole ts hts => hinner _ _ ts ?_ hts
      have := (holes_of_lexeme hl hhole).1
      rw [length_take, length_drop]
      omega

/-- The tokens of a text are closed by an end token. -/
theorem tokensOf_closed (h : tokensOf p fresh cs = .ok ts) : Token.Closed ts := by
  induction hlength : cs.length using Nat.strongRecOn generalizing p fresh cs ts with
  | ind n ih =>
  subst hlength
  rcases tokensOf_eq_ok h with ⟨gap, hgap, hcs, rfl⟩
    | ⟨gap, t, n, rest, hgap, hcs, htoken, hrest, rfl⟩
  · exact (Token.closed_cons_eof rfl).2 rfl
  · have hle := tokenAt_le hcs htoken
    rw [length_drop] at hle
    obtain ⟨l, hl, -, hholes, hkind, -⟩ := tokenAt_eq_ok htoken
    have hne : t.kind ≠ .eof := by
      intro heof
      obtain ⟨c, cs, k, -, hmark, rfl⟩ := lexeme_barrier hcs hl (by rw [← hkind, heof]; rfl)
      rw [hkind] at heof
      exact (ofMark?_isBarrier hmark (by rw [show k = _ from heof]; rfl)).2 heof
    refine (Token.closed_cons hne).2 ⟨holesClosed_of fun hs hhs => ?_, ?_⟩
    · rw [hhs] at hholes
      refine holeTokens_closed hcs hl hholes fun q text ts htext hts => ih _ ?_ hts rfl
      rw [length_drop] at htext
      omega
    · exact ih _ (by rw [length_drop]; omega) hrest rfl

/-- No token that is followed by others is the end. -/
theorem Token.Closed.ne_eof {l us : List Token} {z : Token} (h : Token.Closed (l ++ z :: us))
    (hus : us ≠ []) : z.kind ≠ .eof := by
  induction l with
  | nil => exact fun hz => hus ((Token.closed_cons_eof hz).1 h)
  | cons t l ih =>
    by_cases ht : t.kind = .eof
    · have := (Token.closed_cons_eof ht).1 h
      simp at this
    · exact ih ((Token.closed_cons ht).1 h).2

-- ===== split

/-- The tokens of a gap, a lexeme and the rest. -/
theorem tokensOf_append {u a rest : List Char} (ha : a ≠ [])
    (hgap : gapLength fresh (u ++ (a ++ rest)) = .ok u.length)
    (htoken : tokenOf (p.advance u) (a ++ rest) = .ok (t, a.length)) :
    tokensOf p fresh (u ++ (a ++ rest))
      = (tokensOf (p.advance (u ++ a)) false rest).map (t :: ·) := by
  have hne : (u ++ (a ++ rest)).drop u.length ≠ [] := by
    rw [drop_left]
    exact fun h => ha (append_eq_nil_iff.1 h).1
  rw [tokensOf_cons (t := t) (n := a.length) hgap hne
      (by rw [take_left, drop_left]; exact htoken),
    ← append_assoc, take_left' (length_append ..),
    drop_left' (length_append ..)]

/-- A text with a token that is not the end is a gap, the lexeme of the first token and the
rest. -/
theorem tokensOf_cons_eq_ok (h : tokensOf p fresh cs = .ok (t :: ts)) (ht : t.kind ≠ .eof) :
    ∃ u a rest, cs = u ++ (a ++ rest) ∧ a ≠ [] ∧ gapLength fresh cs = .ok u.length
      ∧ tokenOf (p.advance u) (a ++ rest) = .ok (t, a.length)
      ∧ tokensOf (p.advance (u ++ a)) false rest = .ok ts := by
  rcases tokensOf_eq_ok h with ⟨gap, -, -, heq⟩ | ⟨gap, t, n, more, hgap, hcs, htoken, hmore, heq⟩
  · rw [(List.cons.inj heq).1] at ht
    exact absurd rfl ht
  · cases heq
    have hle := tokenAt_le hcs htoken
    have hlength := hle.2
    rw [length_drop] at hlength
    refine ⟨cs.take gap, (cs.drop gap).take n, cs.drop (gap + n), ?_, ?_, ?_, ?_, ?_⟩
    · rw [← drop_drop, take_append_drop, take_append_drop]
    · intro hnil
      have := congrArg List.length hnil
      rw [length_take, length_drop, length_nil] at this
      omega
    · rw [length_take, Nat.min_eq_left (by omega)]
      exact hgap
    · rw [← drop_drop, take_append_drop, length_take, Nat.min_eq_left hle.2]
      exact htoken
    · rw [← take_add]
      exact hmore

theorem stop_of_tokenOf {u a : List Char} (h : tokenOf (p.advance u) cs = .ok (t, a.length)) :
    t.stop = p.offset + (u ++ a).length := by
  obtain ⟨-, -, -, -, -, -, hstop⟩ := tokenAt_eq_ok h
  rw [hstop, Pos.offset_advance, length_append, Nat.add_assoc]

theorem Guarded.append_left (h : Guarded w more) (v : List Char) : Guarded (v ++ w) more :=
  h.imp_right fun ⟨c, hc, hstop⟩ => ⟨c, by rw [getLast?_append, Option.mem_def.1 hc]; rfl, hstop⟩

/-- A lexeme does not see past a text that ends with a stop, or that one follows. -/
theorem Recut.guarded {a : List Char} (h : Guarded w more) (h' : Guarded w more') :
    Recut a.length (a ++ (w ++ more)) (a ++ (w ++ more')) := by
  by_cases hw : ∃ c ∈ w.getLast?, c ∈ stopChars
  · obtain ⟨c, hc, hstop⟩ := hw
    obtain ⟨w, rfl⟩ := getLast?_eq_some_iff.1 hc
    rw [append_assoc w, append_assoc w, ← append_assoc a, ← append_assoc a]
    exact .stops (by rw [length_append]; omega) (.cons hstop) (.cons hstop)
  · rw [← append_assoc, ← append_assoc]
    exact .stops (by rw [length_append]; omega) (h.resolve_right hw) (h'.resolve_right hw)

/-- Two tokens that are alike and end equally far, at most `L`, from where their texts start. -/
def Token.Shifted (o o' L : Nat) (x y : Token) : Prop :=
  Alike x y ∧ ∃ i ≤ L, x.stop = o + i ∧ y.stop = o' + i

theorem Token.Shifted.add {o o' L : Nat} {x y : Token} (d : Nat)
    (h : Token.Shifted (o + d) (o' + d) L x y) : Token.Shifted o o' (d + L) x y := by
  obtain ⟨halike, i, hi, hx, hy⟩ := h
  exact ⟨halike, d + i, by omega, by omega, by omega⟩

/-- A front `w` of a text that gives the tokens `vs`: it gives the same ones wherever it stands and
whatever follows it, as far as `F` says. -/
structure Front (F : List Char → Prop) (p : Pos) (fresh : Bool) (w : List Char) (vs : List Token) :
    Prop where
  guarded : ∀ more, F more → Guarded w more
  moved : ∀ p' more, F more → ∃ vs', Forall₂ (Token.Shifted p.offset p'.offset w.length) vs vs'
    ∧ tokensOf p' fresh (w ++ more) = (tokensOf (p'.advance w) false more).map (vs' ++ ·)

theorem Front.nil : Front Stops p false [] [] := by
  refine ⟨fun _ h => .inl h, fun p' more _ => ⟨[], .nil, ?_⟩⟩
  show tokensOf p' false more = (tokensOf p' false more).map _
  cases tokensOf p' false more <;> rfl

/-- The token of a mark that stands alone. -/
theorem tokenOf_mark {c : Char} {k : Kind} (hc : c ∈ stopChars) (hk : Kind.ofMark? c = some k)
    (p : Pos) (rest : List Char) :
    ∃ t, tokenOf p (c :: rest) = .ok (t, 1) ∧ t.kind = k ∧ t.text = String.ofList [c]
      ∧ t.holes = none ∧ t.stop = p.offset + 1 :=
  tokenAt_ok (lexeme_mark hc hk rest) rfl rfl

/-- A text up to a closing brace or a semicolon. -/
theorem front_of_mark {u : List Char} {c : Char} {k : Kind} {x : Token} (hc : c ∈ stopChars)
    (hk : Kind.ofMark? c = some k) (hgap : gapLength fresh (u ++ c :: more) = .ok u.length)
    (hx : tokenOf (p.advance u) (c :: more) = .ok (x, 1)) :
    Front (fun _ => True) p fresh (u ++ [c]) [x] := by
  refine ⟨fun _ _ => .inr ⟨c, by simp, hc⟩, fun p' more' _ => ?_⟩
  obtain ⟨t, ht, hkind, htext, hholes, htstop⟩ := tokenOf_mark hc hk (p.advance u) more
  cases ht.symm.trans hx
  obtain ⟨y, hy, hkind', htext', hholes', hystop⟩ := tokenOf_mark hc hk (p'.advance u) more'
  have hgap' : gapLength fresh (u ++ [c] ++ more') = .ok u.length := by
    have hlong : gapLength fresh (u ++ [c] ++ more) = .ok u.length := by
      rw [append_assoc]
      exact hgap
    refine gapFrom_append hlong ?_ (.inr ⟨c, by simp, hc⟩)
    · rw [length_append, length_singleton]
      omega
  have halike : Alike x y := by
    rw [alike_token]
    exact ⟨hkind.trans hkind'.symm, htext.trans htext'.symm, by rw [hholes, hholes']⟩
  have hlength : (u ++ [c]).length = u.length + 1 := length_append
  rw [Pos.offset_advance] at htstop hystop
  refine ⟨[y], .cons ⟨halike, _, Nat.le_refl _, ?_, ?_⟩ .nil, ?_⟩
  · rw [htstop, hlength, Nat.add_assoc]
  · rw [hystop, hlength, Nat.add_assoc]
  · rw [append_assoc] at hgap' ⊢
    exact tokensOf_append (cons_ne_nil c []) hgap' hy

/-- A token before a front belongs to it. -/
theorem Front.cons {F : List Char → Prop} {u a : List Char} {vs : List Token} (ha : a ≠ [])
    (hgap : gapLength fresh (u ++ (a ++ (w ++ more))) = .ok u.length)
    (ht : tokenOf (p.advance u) (a ++ (w ++ more)) = .ok (t, a.length)) (hmore : F more)
    (h : Front F (p.advance (u ++ a)) false w vs) : Front F p fresh (u ++ a ++ w) (t :: vs) := by
  refine ⟨fun _ hF => (h.guarded _ hF).append_left _, fun p' more' hF => ?_⟩
  obtain ⟨vs', hvs, htokens⟩ := h.moved (p'.advance (u ++ a)) more' hF
  -- neither the gap nor the token goes on into what follows
  have hgap' : gapLength fresh (u ++ (a ++ (w ++ more'))) = .ok u.length := by
    rw [← append_assoc a, ← append_assoc] at hgap ⊢
    refine gapFrom_append hgap ?_ (((h.guarded _ hF).append_left a).append_left u)
    have := length_pos_iff.2 ha
    simp only [length_append]
    omega
  obtain ⟨t', ht', halike⟩ := tokenOf_recut (p'.advance u) (by simp [ha]) ht
    (.guarded (h.guarded _ hmore) (h.guarded _ hF))
  have hlength : (u ++ a ++ w).length = (u ++ a).length + w.length := length_append
  refine ⟨t' :: vs', .cons ⟨halike, (u ++ a).length, by omega, stop_of_tokenOf ht,
    stop_of_tokenOf ht'⟩ ?_, ?_⟩
  · simp only [Pos.offset_advance] at hvs
    rw [hlength]
    exact hvs.imp fun _ _ h => h.add _
  · rw [Pos.advance_append p' (u ++ a), append_assoc, append_assoc, tokensOf_append ha hgap' ht',
      htokens]
    cases tokensOf _ false more' <;> rfl

/-- The tokens up to one that is not the end are those of a front of the text, which does not depend
on what follows if the last of them is a closing brace or a semicolon, and on no more than a stop
there if one follows. -/
theorem tokensOf_split {v ys : List Token} {x : Token}
    (h : tokensOf p fresh cs = .ok (v ++ x :: ys)) (heof : x.kind ≠ .eof) :
    ∃ w tail, cs = w ++ tail ∧ x.stop = p.offset + w.length
      ∧ tokensOf (p.advance w) false tail = .ok ys
      ∧ (x.kind.isBarrier = true → Front (fun _ => True) p fresh w (v ++ [x])
        ∧ ∃ c ∈ w.getLast?, isBlank c = false)
      ∧ (Stops tail → Front Stops p fresh w (v ++ [x])) := by
  induction v generalizing p fresh cs with
  | nil =>
    obtain ⟨u, a, rest, rfl, ha, hgap, htoken, hys⟩ := tokensOf_cons_eq_ok h heof
    refine ⟨u ++ a, rest, (append_assoc ..).symm, stop_of_tokenOf htoken, hys, fun hx => ?_,
      fun hrest => ?_⟩
    · obtain ⟨l, hl, hn, -, hkind, -⟩ := tokenAt_eq_ok htoken
      obtain ⟨c, cs, k, hcs, hk, rfl⟩ := lexeme_barrier (by simp [ha]) hl (hkind ▸ hx)
      have hlength : a.length = 1 := (Except.ok.inj hn).symm
      obtain ⟨d, rfl⟩ := length_eq_one_iff.1 hlength
      cases hcs
      have hc := (ofMark?_isBarrier hk (by rw [← show x.kind = k from hkind]; exact hx)).1
      have hblank : ∀ c ∈ stopChars, (Kind.ofMark? c).isSome = true → isBlank c = false :=
        forall_mem_of_all (by decide)
      exact ⟨front_of_mark hc hk hgap htoken, c, by simp, hblank c hc (by rw [hk]; rfl)⟩
    · have hfront := Front.nil.cons (w := []) ha hgap htoken hrest
      rwa [append_nil] at hfront
  | cons t v ih =>
    have ht := Token.Closed.ne_eof (l := []) (tokensOf_closed h) (by simp)
    obtain ⟨u, a, rest, rfl, ha, hgap, htoken, hrest⟩ := tokensOf_cons_eq_ok h ht
    obtain ⟨w, tail, rfl, hstop, hys, hmark, hstops⟩ := ih hrest
    refine ⟨u ++ a ++ w, tail, by simp, ?_, by rwa [Pos.advance_append], fun hx => ?_,
      fun htail => (hstops htail).cons ha hgap htoken htail⟩
    · rw [hstop, Pos.offset_advance, Nat.add_assoc,
        show (u ++ a ++ w).length = (u ++ a).length + w.length from length_append]
    · obtain ⟨hfront, c, hc, hblank⟩ := hmark hx
      refine ⟨hfront.cons ha hgap htoken trivial, c, ?_, hblank⟩
      rw [getLast?_append, Option.mem_def.1 hc]
      rfl

/-- Tokens that end with a text before a stop, or nothing, are those of a front. -/
theorem Front.of_stops {vs zs : List Token} (h : tokensOf p fresh (w ++ more) = .ok (vs ++ zs))
    (hmore : Stops more) (hzs : zs ≠ []) (hne : vs ≠ [])
    (hlast : ∀ x ∈ vs.getLast?, x.stop = p.offset + w.length) : Front Stops p fresh w vs := by
  obtain ⟨v, x, rfl⟩ := (eq_nil_or_concat' vs).resolve_left hne
  rw [append_assoc, singleton_append] at h
  obtain ⟨w', tail, hsplit, hstop, -, -, hfront⟩ :=
    tokensOf_split h ((tokensOf_closed h).ne_eof hzs)
  have hlength : w.length = w'.length := by
    have := hlast x getLast?_concat
    omega
  obtain ⟨rfl, rfl⟩ := append_inj hsplit hlength
  exact hfront hmore

end SourceBundle
