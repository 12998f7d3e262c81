/-
Strings written as literals, and read again.

A regular literal escapes what would end it, a verbatim one doubles its
quotes. Each is to be read as one token, wherever it stands, before
nothing or before a character that no lexeme goes on with (`ReadsWhole`).
That is so of every regular literal. A verbatim literal of a text that
opens with a quote opens with three quotes, and is taken for a raw one:
as many quotes as open it have to close it. So it is read whole exactly
if the text has runs of as many quotes at both ends and no longer one
between them (`Fenced`), and this is told from the runs of quotes in the
doubled text (`quotes_infix_doubled_iff`).
-/
import SourceBundle.Proofs.Token.Tokens

namespace SourceBundle

open List Text

variable {s body rest tail u : List Char} {c : Char} {k m n : Nat} {p : Pos}

-- ===== writing

/-- The text with its quotes doubled. -/
def doubled (s : List Char) : List Char :=
  s.flatMap fun c => if c = '"' then ['"', '"'] else [c]

/-- The verbatim literal of a text. -/
def verbatimLiteral (s : List Char) : List Char :=
  '@' :: '"' :: (doubled s ++ ['"'])

/-- A character as it is written in a regular literal. -/
def escaped (c : Char) : List Char :=
  if c = '"' || c = '\\' then ['\\', c] else if c = '\n' then ['\\', 'n'] else [c]

/-- The regular literal of a text. -/
def regularLiteral (s : List Char) : List Char :=
  '"' :: (s.flatMap escaped ++ ['"'])

/-- The token of a string that is written at a place. -/
def Token.stringAt (p : Pos) (lit : List Char) : Token :=
  { kind := .string, text := String.ofList lit, line := p.line, column := p.column,
    start := p.offset, stop := p.offset + lit.length, dotless := nofun }

/-- A literal that stands before some text is read as one string, and reading goes on right behind
it. -/
structure ReadsWhole (lit rest : List Char) : Prop where
  token : ∀ p : Pos, tokenOf p (lit ++ rest) = .ok (.stringAt p lit, lit.length)
  tokens : ∀ (p : Pos) (fresh : Bool), tokensOf p fresh (lit ++ rest)
    = (tokensOf (p.advance lit) false rest).map (.stringAt p lit :: ·)

-- ===== one token

theorem tokenOf_string {lit : List Char}
    (hl : lexeme (lit ++ rest) = .ok (.plain .string lit.length)) (p : Pos) :
    tokenOf p (lit ++ rest) = .ok (.stringAt p lit, lit.length) := by
  obtain ⟨t, ht, -⟩ : ∃ t, tokenOf p (lit ++ rest) = .ok (t, lit.length) ∧ _ :=
    tokenAt_ok hl rfl rfl
  obtain ⟨l, hl', hn, holes, hholes, rfl⟩ := tokenAt_eq_cut ht
  cases hl.symm.trans hl'
  cases hholes
  rw [ht]
  unfold Token.cut Token.stringAt
  simp only [Lexeme.kind, Lexeme.hidden, drop_zero, take_left']

/-- A literal is read whole where a stop follows, exactly if it is a lexeme on its own. -/
theorem readsWhole_iff (hc : ∀ fresh cs, gapLength fresh (c :: cs) = .ok 0) (hrest : Stops rest) :
    ReadsWhole (c :: u) rest ↔ lexeme (c :: u) = .ok (.plain .string (c :: u).length) := by
  constructor
  · intro h
    obtain ⟨l, hl, hn, -, hkind, -⟩ := tokenAt_eq_ok (h.token {})
    have halone := lexeme_recut (by simp) hl hn (.stops (Nat.le_refl _) hrest .nil)
    rw [append_nil] at halone
    cases l with
    | plain kind n =>
      cases hn
      cases hkind
      exact halone
    | escapedName n => cases hkind
    | interpolated extent => cases hkind
  · intro hl
    have hthere : lexeme (c :: u ++ rest) = .ok (.plain .string (c :: u).length) := by
      have halone : lexeme (c :: u ++ []) = .ok (.plain .string (c :: u).length) := by
        rw [append_nil]
        exact hl
      exact lexeme_recut (by simp) halone rfl (.stops (Nat.le_refl _) .nil hrest)
    refine ⟨tokenOf_string hthere, fun p fresh => ?_⟩
    have hgap : gapLength fresh (c :: u ++ rest) = .ok 0 := hc fresh (u ++ rest)
    have hnext := tokensOf_cons (p := p) hgap (cons_ne_nil c _) (tokenOf_string hthere _)
    rwa [Nat.zero_add, take_left, drop_left] at hnext

-- ===== regular literals

theorem escapedLength?_escaped (hs : '\x00' ∉ s) :
    escapedLength? '"' (s.flatMap escaped ++ ['"']) = some ((s.flatMap escaped).length + 1) := by
  induction s with
  | nil => rfl
  | cons c s ih =>
    obtain ⟨hc, hs⟩ := not_or.1 (mt mem_cons.2 hs)
    have hstep : ∀ d, escapedLength? '"' ('\\' :: d :: (s.flatMap escaped ++ ['"']))
        = some ((s.flatMap escaped).length + 1 + 2) := by
      intro d
      rw [escapedLength?, ih hs]
      rfl
    rw [flatMap_cons, append_assoc, length_append, escaped]
    split
    · rw [cons_append, cons_append, nil_append, hstep]
      simp only [length_cons, length_nil]
      congr 1
      omega
    next hplain =>
    split
    · rw [cons_append, cons_append, nil_append, hstep]
      simp only [length_cons, length_nil]
      congr 1
      omega
    next hline =>
    simp only [Bool.or_eq_true, decide_eq_true_eq, not_or] at hplain
    rw [singleton_append, escapedLength?_cons hplain.2, if_neg (by simp [Ne.symm hc, hline]),
      if_neg hplain.1, ih hs]
    simp only [length_cons, length_nil, Option.map_some]
    congr 1
    omega

theorem lexeme_regularLiteral (hs : '\x00' ∉ s) :
    lexeme (regularLiteral s) = .ok (.plain .string (regularLiteral s).length) := by
  have hraw : opensRaw (regularLiteral s) = false := by
    cases s with
    | nil => rfl
    | cons c s =>
      have hfirst : ∃ d ds, escaped c = d :: ds ∧ d ≠ '"' := by
        unfold escaped
        split
        · exact ⟨_, _, rfl, by decide⟩
        next hplain =>
        split
        · exact ⟨_, _, rfl, by decide⟩
        · simp only [Bool.or_eq_true, decide_eq_true_eq, not_or] at hplain
          exact ⟨_, _, rfl, hplain.1⟩
      obtain ⟨d, ds, hd, hquote⟩ := hfirst
      rw [regularLiteral, flatMap_cons, hd]
      simp [opensRaw, List.isPrefixOf, Ne.symm hquote]
  have hlength : 1 + ((s.flatMap escaped).length + 1) = (regularLiteral s).length := by
    rw [regularLiteral, length_cons, length_append, length_singleton]
    omega
  show plainString (regularLiteral s) = _
  rw [plainString_ok hraw (escapedLength?_escaped hs), hlength, drop_length]
  rfl

-- ===== doubled quotes

/-- A run of quotes. -/
abbrev quotes (n : Nat) : List Char :=
  List.replicate n '"'

theorem doubled_append (s t : List Char) : doubled (s ++ t) = doubled s ++ doubled t :=
  flatMap_append

theorem doubled_quote_cons (s : List Char) : doubled ('"' :: s) = '"' :: '"' :: doubled s :=
  rfl

theorem doubled_cons (hc : c ≠ '"') (s : List Char) : doubled (c :: s) = c :: doubled s := by
  rw [doubled, flatMap_cons, if_neg hc]
  rfl

theorem doubled_quotes (n : Nat) : doubled (quotes n) = quotes (2 * n) := by
  induction n with
  | zero => rfl
  | succ n ih =>
    rw [quotes, replicate_succ, doubled_quote_cons, ih, ← replicate_succ,
      ← replicate_succ]
    rfl

theorem verbatimLength?_doubled (hs : '\x00' ∉ s) :
    verbatimLength? (doubled s ++ ['"']) = some ((doubled s).length + 1) := by
  induction s with
  | nil => rfl
  | cons c s ih =>
    obtain ⟨hc, hmore⟩ := not_or.1 (mt mem_cons.2 hs)
    by_cases hquote : c = '"'
    · subst hquote
      rw [doubled_quote_cons, cons_append, cons_append, verbatimLength?, ih hmore]
      rfl
    · rw [doubled_cons hquote, cons_append, verbatimLength?, if_neg hquote,
        if_neg (Ne.symm hc), ih hmore]
      · rfl
      · exact fun _ h _ => hquote h

/-- The doubled text starts with an odd run of quotes just if the text starts with the run that is
doubled to one more. -/
theorem quotes_prefix_of_doubled (h : quotes (2 * k + 1) <+: doubled s) : quotes (k + 1) <+: s := by
  induction k generalizing s with
  | zero =>
    cases s with
    | nil => exact absurd (prefix_nil.1 h) (cons_ne_nil _ _)
    | cons c s =>
      by_cases hc : c = '"'
      · subst hc
        exact prefix_append ['"'] s
      · rw [doubled_cons hc] at h
        exact absurd (cons_prefix_cons.1 h).1.symm hc
  | succ k ih =>
    cases s with
    | nil => exact absurd (prefix_nil.1 h) (cons_ne_nil _ _)
    | cons c s =>
      by_cases hc : c = '"'
      · subst hc
        rw [doubled_quote_cons] at h
        have hrest := (cons_prefix_cons.1 (cons_prefix_cons.1 h).2).2
        exact cons_prefix_cons.2 ⟨rfl, ih hrest⟩
      · rw [doubled_cons hc] at h
        exact absurd (cons_prefix_cons.1 h).1.symm hc

/-- The doubled text has an odd run of quotes just if the text has the run that is doubled to one
more. -/
theorem quotes_infix_doubled_iff : quotes (2 * k + 1) <:+: doubled s ↔ quotes (k + 1) <:+: s := by
  constructor
  · intro h
    induction s with
    | nil => exact absurd (infix_nil.1 h) (cons_ne_nil _ _)
    | cons c s ih =>
      by_cases hc : c = '"'
      · subst hc
        rw [doubled_quote_cons] at h
        rcases infix_cons_iff.1 h with h | h
        · exact (quotes_prefix_of_doubled h).isInfix
        rcases infix_cons_iff.1 h with h | h
        · -- the run starts at the second of two quotes
          cases k with
          | zero => exact (prefix_append ['"'] s).isInfix
          | succ k =>
            have hrest : quotes (2 * k + 1 + 1) <+: doubled s := (cons_prefix_cons.1 h).2
            have hshort : quotes (2 * k + 1) <+: quotes (2 * k + 1 + 1) :=
              ⟨['"'], (replicate_succ' ..).symm⟩
            have hprefix := quotes_prefix_of_doubled (hshort.trans hrest)
            exact (cons_prefix_cons.2 ⟨rfl, hprefix⟩).isInfix
        · exact (ih h).trans (suffix_cons _ s).isInfix
      · rw [doubled_cons hc] at h
        rcases infix_cons_iff.1 h with h | h
        · exact absurd (cons_prefix_cons.1 h).1.symm hc
        · exact (ih h).trans (suffix_cons _ s).isInfix
  · rintro ⟨front, back, rfl⟩
    rw [doubled_append, doubled_append, doubled_quotes]
    refine List.IsInfix.trans ?_ (infix_append _ _ _)
    exact ⟨[], ['"'], by rw [nil_append, ← replicate_succ']; rfl⟩

-- ===== raw literals

theorem rawTailLength?_quotes (hn : 0 < n) (rest : List Char) :
    rawTailLength? n (quotes n ++ rest) = some n := by
  obtain ⟨n, rfl⟩ := Nat.exists_eq_add_one.2 hn
  have hprefix : (quotes (n + 1)).isPrefixOf (quotes (n + 1) ++ rest) = true :=
    List.isPrefixOf_iff_prefix.2 (prefix_append _ _)
  exact if_pos hprefix

/-- Where no run of quotes starts is passed over. -/
theorem rawTailLength?_append
    (h : ∀ a b, u = a ++ b → b ≠ [] → ¬ quotes n <+: b ++ tail) :
    rawTailLength? n (u ++ tail) = (rawTailLength? n tail).map (u.length + ·) := by
  induction u with
  | nil => simp
  | cons c u ih =>
    have hhere : ¬ (quotes n).isPrefixOf (c :: (u ++ tail)) = true := fun hprefix =>
      h [] (c :: u) rfl (cons_ne_nil c u) (List.isPrefixOf_iff_prefix.1 hprefix)
    have hrest := ih fun a b hab hb => h (c :: a) b (congrArg (c :: ·) hab) hb
    rw [cons_append, rawTailLength?, if_neg hhere, hrest, Option.map_map]
    refine congrArg (Option.map · _) (funext fun j => ?_)
    rw [Function.comp_apply, length_cons]
    omega

/-- A run of quotes inside ends the literal there. -/
theorem exists_rawTailLength? (hn : 0 < n) (h : quotes n <:+: u) (tail : List Char) :
    ∃ j ≤ u.length, rawTailLength? n (u ++ tail) = some j := by
  induction u with
  | nil =>
    have hnil := congrArg List.length (infix_nil.1 h)
    rw [length_replicate, length_nil] at hnil
    omega
  | cons c u ih =>
    have hle := h.length_le
    rw [length_replicate] at hle
    rw [cons_append, rawTailLength?]
    split
    · exact ⟨n, hle, rfl⟩
    next hhere =>
    rcases infix_cons_iff.1 h with hprefix | hinfix
    · have hlonger : quotes n <+: c :: u ++ tail := hprefix.trans (prefix_append _ _)
      exact absurd (List.isPrefixOf_iff_prefix.2 hlonger) hhere
    · obtain ⟨j, hj, hlength⟩ := ih hinfix
      exact ⟨j + 1, Nat.succ_le_succ hj, by rw [hlength]; rfl⟩

-- ===== verbatim literals

/-- The text stands between two runs of as many quotes, with no longer run of them inside. -/
def Fenced (s : List Char) : Prop :=
  ∃ k body, s = quotes k ++ body ++ quotes k ∧ body ≠ [] ∧ body.head? ≠ some '"'
    ∧ body.getLast? ≠ some '"' ∧ ¬ quotes (k + 1) <:+: body

theorem exists_quotes_append (s : List Char) :
    ∃ k t, s = quotes k ++ t ∧ t.head? ≠ some '"' := by
  induction s with
  | nil => exact ⟨0, [], rfl, nofun⟩
  | cons c s ih =>
    by_cases hc : c = '"'
    · obtain ⟨k, t, rfl, ht⟩ := ih
      exact ⟨k + 1, t, by rw [hc]; rfl, ht⟩
    · exact ⟨0, c :: s, rfl, fun h => hc (Option.some.inj h)⟩

/-- A text is a run of quotes, or has such runs at its ends and something between them. -/
theorem exists_quotes (s : List Char) : (∃ k, s = quotes k)
    ∨ ∃ k body m, s = quotes k ++ body ++ quotes m ∧ body ≠ [] ∧ body.head? ≠ some '"'
      ∧ body.getLast? ≠ some '"' := by
  obtain ⟨k, t, rfl, ht⟩ := exists_quotes_append s
  obtain ⟨m, b, hb, hlast⟩ := exists_quotes_append t.reverse
  have htb : t = b.reverse ++ quotes m := by
    rw [← reverse_reverse t, hb, reverse_append, reverse_replicate]
  subst htb
  cases hbody : b.reverse with
  | nil =>
    rw [hbody, nil_append] at ht
    cases m with
    | zero => exact .inl ⟨k, append_nil _⟩
    | succ m => exact absurd rfl ht
  | cons d ds =>
    rw [hbody] at ht
    refine .inr ⟨k, d :: ds, m, (append_assoc ..).symm, cons_ne_nil d ds, ht, ?_⟩
    rwa [← hbody, getLast?_reverse]

/-- What follows the quotes that open a raw literal. -/
theorem rawLength?_quotes (hu : u.head? ≠ some '"') :
    rawLength? (quotes n ++ u) = (rawTailLength? n u).map (n + ·) := by
  have hquotes : (quotes n ++ u).takeWhile (· = '"') = quotes n := by
    rw [takeWhile_append_of_pos fun c hc => decide_eq_true (eq_of_mem_replicate hc)]
    cases u with
    | nil => exact append_nil _
    | cons c u =>
      have hc : c ≠ '"' := fun h => hu (congrArg some h)
      rw [takeWhile_cons_of_neg (by simpa using hc), append_nil]
  unfold rawLength?
  rw [hquotes]
  dsimp only
  rw [drop_left, length_replicate]

theorem head?_doubled_append (hbody : body ≠ []) (hfirst : body.head? ≠ some '"')
    (t : List Char) : (doubled body ++ t).head? ≠ some '"' := by
  cases body with
  | nil => exact absurd rfl hbody
  | cons c body =>
    have hc : c ≠ '"' := fun h => hfirst (congrArg some h)
    rw [doubled_cons hc]
    exact fun h => hc (Option.some.inj h)

theorem getLast?_doubled (hbody : body ≠ []) (hlast : body.getLast? ≠ some '"') :
    (doubled body).getLast? ≠ some '"' := by
  obtain ⟨b, c, rfl⟩ := (eq_nil_or_concat' body).resolve_left hbody
  have hc : c ≠ '"' := fun h => hlast (by rw [getLast?_concat, h])
  rw [doubled_append, doubled_cons hc]
  show (doubled b ++ [c]).getLast? ≠ some '"'
  rw [getLast?_concat]
  exact fun h => hc (Option.some.inj h)

/-- A run of quotes does not go on behind a text that ends otherwise. -/
theorem quotes_prefix_of_append (hu : u ≠ []) (hlast : u.getLast? ≠ some '"')
    (h : quotes n <+: u ++ tail) : quotes n <+: u := by
  rcases Nat.le_total n u.length with hle | hle
  · exact prefix_of_prefix_length_le h (prefix_append u tail)
      (by rwa [length_replicate])
  · have hwithin : u <+: quotes n := prefix_of_prefix_length_le (prefix_append u tail) h
      (by rwa [length_replicate])
    have hquote := eq_of_mem_replicate (hwithin.subset (getLast_mem hu))
    exact absurd (by rw [getLast?_eq_some_getLast hu, hquote]) hlast

/-- The literal of a text between runs of quotes, read as a raw one, ends where it ends just if
the runs are of one length and there is no longer one between them. -/
theorem rawLength?_doubled_iff (hbody : body ≠ []) (hfirst : body.head? ≠ some '"')
    (hlast : body.getLast? ≠ some '"') :
    rawLength? (quotes (2 * k + 1) ++ (doubled body ++ quotes (2 * m + 1)))
        = some (2 * k + 1 + ((doubled body).length + (2 * m + 1)))
      ↔ k = m ∧ ¬ quotes (k + 1) <:+: body := by
  have hpos : 0 < 2 * k + 1 := Nat.succ_pos _
  rw [rawLength?_quotes (head?_doubled_append hbody hfirst _)]
  by_cases hrun : quotes (k + 1) <:+: body
  · obtain ⟨j, hj, hlength⟩ :=
      exists_rawTailLength? hpos (quotes_infix_doubled_iff.2 hrun) (quotes (2 * m + 1))
    rw [hlength]
    simp only [hrun, not_true, and_false, iff_false, Option.map_some, Option.some.injEq]
    omega
  · have hskip : ∀ a b, doubled body = a ++ b → b ≠ [] →
        ¬ quotes (2 * k + 1) <+: b ++ quotes (2 * m + 1) := by
      intro a b hab hb hprefix
      have hend : b.getLast? ≠ some '"' := by
        rw [← getLast?_append_of_ne_nil a hb, ← hab]
        exact getLast?_doubled hbody hlast
      have hinfix : quotes (2 * k + 1) <:+: doubled body := by
        rw [hab]
        exact (quotes_prefix_of_append hb hend hprefix).isInfix.trans
          (suffix_append a b).isInfix
      exact hrun (quotes_infix_doubled_iff.1 hinfix)
    rw [rawTailLength?_append hskip, Option.map_map]
    constructor
    · intro h
      obtain ⟨j, hj, hsum⟩ := Option.map_eq_some_iff.1 h
      rw [Function.comp_apply] at hsum
      have hle := le_rawTailLength? hj
      refine ⟨?_, hrun⟩
      rcases Nat.lt_or_ge k m with hlt | hge
      · -- the closing run is longer, and ends the literal before its last quotes
        have hsplit : quotes (2 * m + 1) = quotes (2 * k + 1) ++ quotes (2 * (m - k)) := by
          rw [← replicate_add]
          congr 1
          omega
        rw [hsplit, rawTailLength?_quotes hpos] at hj
        cases hj
        omega
      · omega
    · rintro ⟨rfl, -⟩
      have hclose := rawTailLength?_quotes hpos []
      rw [append_nil] at hclose
      rw [hclose]
      rfl

/-- A literal with the mark `@` is raw if three quotes open it, and verbatim otherwise. -/
theorem lexeme_verbatim (u : List Char) : lexeme ('@' :: '"' :: u)
    = if opensRaw ('"' :: u) then do
        let n ← closedOr .unterminatedRaw (rawLength? ('"' :: u))
        return .plain .string (1 + n)
      else do
        let n ← closedOr .unterminatedVerbatim (verbatimLength? u)
        return .plain .string (1 + 1 + n) := by
  rfl

theorem opensRaw_doubled (s : List Char) :
    opensRaw ('"' :: (doubled s ++ ['"'])) = true ↔ s.head? = some '"' := by
  cases s with
  | nil => exact ⟨nofun, nofun⟩
  | cons c s =>
    by_cases hc : c = '"'
    · subst hc
      exact ⟨fun _ => rfl, fun _ => rfl⟩
    · rw [doubled_cons hc]
      simp [opensRaw, List.isPrefixOf, hc, Ne.symm hc]

/-- The runs of quotes in a verbatim literal are those at the ends of its text, doubled and with one
more. -/
theorem quoted_doubled_between {k m : Nat} {body : List Char}
    (h : s = quotes k ++ body ++ quotes m) :
    '"' :: (doubled s ++ ['"']) = quotes (2 * k + 1) ++ (doubled body ++ quotes (2 * m + 1))
      ∧ (doubled s).length + 2 = 2 * k + 1 + ((doubled body).length + (2 * m + 1)) := by
  subst h
  rw [doubled_append, doubled_append, doubled_quotes, doubled_quotes]
  constructor
  · rw [append_assoc, append_assoc, ← replicate_succ', ← cons_append,
      ← replicate_succ]
  · simp only [length_append, length_replicate]
    omega

/-- Read as a raw literal, a verbatim one is whole exactly if its text is fenced. -/
theorem rawLength?_quoted_doubled_iff : rawLength? ('"' :: (doubled s ++ ['"']))
    = some ((doubled s).length + 2) ↔ Fenced s := by
  constructor
  · intro h
    rcases exists_quotes s with ⟨k, rfl⟩ | ⟨k, body, m, hends, hbody, hfirst, hlast⟩
    · -- all quotes open the literal, and none is left to close it
      rw [doubled_quotes, ← replicate_succ', ← replicate_succ,
        ← append_nil (List.replicate ..), rawLength?_quotes (u := []) (by simp)] at h
      cases h
    · obtain ⟨hlit, hsum⟩ := quoted_doubled_between hends
      rw [hlit, hsum, rawLength?_doubled_iff hbody hfirst hlast] at h
      obtain ⟨rfl, hrun⟩ := h
      exact ⟨k, body, hends, hbody, hfirst, hlast, hrun⟩
  · rintro ⟨k, body, hends, hbody, hfirst, hlast, hrun⟩
    obtain ⟨hlit, hsum⟩ := quoted_doubled_between hends
    rw [hlit, hsum, rawLength?_doubled_iff hbody hfirst hlast]
    exact ⟨rfl, hrun⟩

theorem lexeme_verbatimLiteral_iff (hs : '\x00' ∉ s) :
    lexeme (verbatimLiteral s) = .ok (.plain .string (verbatimLiteral s).length)
      ↔ s.head? ≠ some '"' ∨ Fenced s := by
  have hlength : (verbatimLiteral s).length = 1 + ((doubled s).length + 2) := by
    rw [verbatimLiteral, length_cons, length_cons, length_append,
      length_singleton]
    omega
  rw [hlength, verbatimLiteral, lexeme_verbatim]
  by_cases hopens : s.head? = some '"'
  · rw [if_pos ((opensRaw_doubled s).2 hopens), ← rawLength?_quoted_doubled_iff]
    simp only [hopens, not_true, ne_eq, false_or]
    cases rawLength? ('"' :: (doubled s ++ ['"'])) with
    | none => exact ⟨nofun, nofun⟩
    | some n =>
      constructor
      · intro h
        have hn := Lexeme.plain.inj (Except.ok.inj h)
        exact congrArg some (Nat.add_left_cancel hn.2)
      · intro h
        rw [Option.some.inj h]
        rfl
  · rw [if_neg (mt (opensRaw_doubled s).1 hopens), verbatimLength?_doubled hs]
    refine iff_of_true ?_ (.inl hopens)
    show Except.ok (Lexeme.plain Kind.string (1 + 1 + ((doubled s).length + 1))) = _
    congr 2
    omega

/-- Every regular literal is read as one string, wherever it stands before a space, another stop
or nothing. A verbatim literal is exactly if its text does not open with a quote, or stands between
runs of as many quotes with no longer run inside. -/
theorem literals_read (hs : '\x00' ∉ s) (hrest : Stops rest) :
    ReadsWhole (regularLiteral s) rest
      ∧ (ReadsWhole (verbatimLiteral s) rest ↔ s.head? ≠ some '"' ∨ Fenced s) := by
  refine ⟨(readsWhole_iff (fun _ _ => rfl) hrest).2 (lexeme_regularLiteral hs), ?_⟩
  rw [← lexeme_verbatimLiteral_iff hs]
  exact readsWhole_iff (fun _ _ => rfl) hrest

/-- A text with quotes and backslashes at its end, and one between two quotes. -/
theorem literals_read_path : ReadsWhole (regularLiteral ['"', 'a', '\n', '\\']) [' ', 'b']
    ∧ ReadsWhole (verbatimLiteral ['c', '"', '\\']) [' ', 'b']
    ∧ ReadsWhole (verbatimLiteral ['"', 'a', '"']) [' ', 'b'] := by
  have hstops : Stops [' ', 'b'] := .cons (by decide)
  refine ⟨(literals_read (by decide) hstops).1, ?_, ?_⟩
  · exact (literals_read (by decide) hstops).2.2 (.inl (by decide))
  · refine (literals_read (by decide) hstops).2.2 (.inr ⟨1, ['a'], rfl, by decide, ?_⟩)
    decide

/-- The verbatim literal of one quote is not read at all. -/
theorem verbatimLiteral_quote_lost : '\x00' ∉ ['"'] ∧ Stops []
    ∧ tokenizeChars (verbatimLiteral ['"']) = .error ⟨.unterminatedRaw, 1, 1⟩
    ∧ ¬ ReadsWhole (verbatimLiteral ['"']) [] := by
  have herror : tokensOf {} true (verbatimLiteral ['"']) = .error ⟨.unterminatedRaw, 1, 1⟩ := by rfl
  refine ⟨by decide, .nil, herror, fun h => ?_⟩
  have hread := h.tokens {} true
  rw [append_nil, herror] at hread
  cases hread

end SourceBundle
