/-
What a text is read as, before whatever follows it. The sign of a token
is its kind and its text. A text spells signs before a tail
(`Spells`) if it is read as tokens of these signs wherever it stands
and whatever the tokens of the tail are.

A piece of text (`Piece`) spells its signs before every tail with some
property, and says what a tail with it in front starts with, so that
pieces are put together (`Piece.append`). A lexeme depends on the tail
through its first character only: a name must not go on there, and a mark
must not make an operator with it (`Apart`). Where a stop follows nothing
can go on, so that a fixed text may be read on its own (`Piece.fixed`).
-/
import SourceBundle.Proofs.Token.Gaps

namespace SourceBundle

open List Text

-- ===== spellings

/-- What a token is to the grammar, and how it is written. -/
abbrev Sign := Kind × String

/-- The sign of a token. -/
def Token.sign (t : Token) : Sign :=
  (t.kind, t.text)

/-- A text is read as tokens of these signs before a tail that can be read. The last of them ends
with the text. -/
def Spells (w : List Char) (signs : List Sign) (tail : List Char) : Prop :=
  ∀ p zs, tokensOf (p.advance w) false tail = .ok zs →
    ∃ vs, tokensOf p false (w ++ tail) = .ok (vs ++ zs) ∧ vs.map Token.sign = signs
      ∧ ∀ x ∈ vs.getLast?, x.stop = p.offset + w.length

variable {w w' g a tail tail' : List Char} {signs signs' : List Sign} {c d : Char} {k : Kind}

theorem Spells.nil : Spells [] [] tail :=
  fun _ _ htail => ⟨[], htail, rfl, nofun⟩

/-- One text after another. The second has tokens, or it is empty. -/
theorem Spells.append (h : Spells w signs (w' ++ tail)) (h' : Spells w' signs' tail)
    (hne : signs' = [] → w' = []) : Spells (w ++ w') (signs ++ signs') tail := by
  intro p zs htail
  rw [Pos.advance_append] at htail
  obtain ⟨us, hus, rfl, hlast'⟩ := h' _ _ htail
  obtain ⟨vs, hvs, rfl, hlast⟩ := h _ _ hus
  refine ⟨vs ++ us, by rw [append_assoc, hvs, append_assoc], map_append, ?_⟩
  intro x hx
  by_cases hnone : us = []
  · rw [hne (by rw [hnone, map_nil]), append_nil]
    rw [hnone, append_nil] at hx
    exact hlast x hx
  · rw [getLast?_append_of_ne_nil _ hnone] at hx
    rw [hlast' x hx, Pos.offset_advance, length_append, Nat.add_assoc]

-- ===== gaps

/-- A character at which a gap ends. -/
def EndsGap (c : Char) : Prop :=
  isGapBlank c = false ∧ c ≠ '/' ∧ c ≠ '#'

instance (c : Char) : Decidable (EndsGap c) :=
  inferInstanceAs (Decidable (_ ∧ _))

theorem gapLength_blanks (hg : ∀ c ∈ g, isGapBlank c = true) (hc : EndsGap c) (rest : List Char) :
    gapLength false (g ++ c :: rest) = .ok g.length := by
  obtain ⟨hblank, hslash, hhash⟩ := hc
  rw [gapLength, gapFrom_blanks hg hblank hslash hhash, Nat.zero_add]

/-- A gap in front is passed over. -/
theorem Spells.gap (hg : ∀ c ∈ g, isGapBlank c = true) (hc : EndsGap c)
    (h : Spells (c :: a) signs tail) : Spells (g ++ c :: a) signs tail := by
  intro p zs htail
  rw [Pos.advance_append] at htail
  obtain ⟨vs, hvs, hsigns, hlast⟩ := h (p.advance g) zs htail
  refine ⟨vs, ?_, hsigns, fun x hx => ?_⟩
  · have hnone : gapLength false ([] ++ c :: (a ++ tail)) = .ok 0 := gapLength_blanks (by simp) hc _
    rw [append_assoc, tokensOf_passed p, hvs]
    rw [cons_append, gapLength_blanks hg hc, ← nil_append (c :: (a ++ tail)), hnone, gapAfter]
    exact congrArg Except.ok (Nat.zero_add _).symm
  · rw [hlast x hx, Pos.offset_advance, length_append, Nat.add_assoc]

theorem spells_lexeme (hc : EndsGap c) (hl : ∃ n, lexeme (c :: (a ++ tail)) = .ok (.plain k n)
    ∧ n = (c :: a).length) : Spells (c :: a) [(k, String.ofList (c :: a))] tail := by
  intro p zs htail
  obtain ⟨n, hl, rfl⟩ := hl
  obtain ⟨t, htoken, hkind, htext, -, hstop⟩ :
      ∃ t, tokenOf p (c :: (a ++ tail)) = .ok (t, (c :: a).length) ∧ _ := tokenAt_ok hl rfl rfl
  rw [← cons_append, take_left] at htext
  have htext : t.text = String.ofList (c :: a) := htext
  refine ⟨[t], ?_, ?_, ?_⟩
  · have hgap : gapLength false ([] ++ (c :: a ++ tail)) = .ok 0 :=
      gapLength_blanks (by simp) hc (a ++ tail)
    have htokens := tokensOf_append (u := []) (p := p) (cons_ne_nil c a) hgap htoken
    rw [nil_append, nil_append, htail] at htokens
    exact htokens
  · rw [map_singleton, Token.sign, hkind, htext]
    rfl
  · intro x hx
    rw [getLast?_singleton] at hx
    cases hx
    exact hstop

-- ===== pieces

/-- The first character of a text has a property. -/
def Opens (P : Char → Prop) (cs : List Char) : Prop :=
  ∃ c rest, cs = c :: rest ∧ P c

theorem Opens.imp {P Q : Char → Prop} (hPQ : ∀ c, P c → Q c) (h : Opens P tail) : Opens Q tail := by
  obtain ⟨c, rest, rfl, hc⟩ := h
  exact ⟨c, rest, rfl, hPQ c hc⟩

theorem Opens.of_eq {P : Char → Prop} (h : Opens (· = c) tail) (hc : P c) : Opens P tail := by
  obtain ⟨_, rest, rfl, rfl⟩ := h
  exact ⟨_, rest, rfl, hc⟩

theorem Opens.of_front {P : Char → Prop} (hc : P c) (h : c :: g <+: tail) : Opens P tail := by
  obtain ⟨rest, rfl⟩ := h
  exact ⟨c, g ++ rest, rfl, hc⟩

/-- A piece of text that is read as these signs before every tail with the property `B`; with such
a tail after it, it has the property `A`. It has signs, or it is empty, and it has no carriage
returns. -/
structure Piece (w : List Char) (signs : List Sign) (A B : List Char → Prop) : Prop where
  plain : '\r' ∉ w
  nil_iff : signs = [] ↔ w = []
  opens : ∀ {tail}, B tail → A (w ++ tail)
  spells : ∀ {tail}, B tail → Spells w signs tail

namespace Piece

variable {A A' B B' C : List Char → Prop} {P : Char → Prop}

theorem nil (h : ∀ tail, B tail → A tail) : Piece [] [] A B :=
  ⟨not_mem_nil, ⟨fun _ => rfl, fun _ => rfl⟩, fun ht => h _ ht, fun _ => .nil⟩

theorem imp (hA : ∀ tail, A tail → A' tail) (h : Piece w signs A B) : Piece w signs A' B :=
  ⟨h.plain, h.nil_iff, fun ht => hA _ (h.opens ht), h.spells⟩

theorem before (hB : ∀ tail, B' tail → B tail) (h : Piece w signs A B) : Piece w signs A B' :=
  ⟨h.plain, h.nil_iff, fun ht => h.opens (hB _ ht), fun ht => h.spells (hB _ ht)⟩

/-- One piece after another. -/
theorem append (h : Piece w signs A B) (h' : Piece w' signs' B' C) (hB : ∀ tail, B' tail → B tail) :
    Piece (w ++ w') (signs ++ signs') A C where
  plain := not_mem_append h.plain h'.plain
  nil_iff := by rw [append_eq_nil_iff, append_eq_nil_iff, h.nil_iff, h'.nil_iff]
  opens ht := by
    rw [append_assoc]
    exact h.opens (hB _ (h'.opens ht))
  spells ht := (h.spells (hB _ (h'.opens ht))).append (h'.spells ht) h'.nil_iff.1

/-- A piece with a gap in front. -/
theorem gap (h : Piece w signs (Opens P) B) (hg : ∀ c ∈ g, isGapBlank c = true) (hr : '\r' ∉ g)
    (hP : ∀ c, P c → EndsGap c) (hne : signs ≠ []) : Piece (g ++ w) signs (g <+: ·) B where
  plain := not_mem_append hr h.plain
  nil_iff := ⟨fun hnone => absurd hnone hne,
    fun hnone => h.nil_iff.2 (append_eq_nil_iff.1 hnone).2⟩
  opens _ := by
    rw [append_assoc]
    exact prefix_append _ _
  spells ht := by
    obtain ⟨c, a, rfl⟩ := exists_cons_of_ne_nil fun hnone => hne (h.nil_iff.2 hnone)
    obtain ⟨_, _, heq, hc⟩ := h.opens ht
    rw [← (cons.inj heq).1] at hc
    exact (h.spells ht).gap hg (hP c hc)

theorem spaced (h : Piece w signs (Opens P) B) (hP : ∀ c, P c → EndsGap c) (hne : signs ≠ []) :
    Piece ([' '] ++ w) signs (Opens (· = ' ')) B :=
  (h.gap (forall_mem_of_all (by decide)) (by decide) hP hne).imp fun _ h => .of_front rfl h

end Piece

-- ===== names

/-- The characters of a name. -/
def IsName : List Char → Prop
  | [] => False
  | c :: cs => isNameStart c = true ∧ ∀ d ∈ cs, isNamePart d = true

instance : DecidablePred IsName
  | [] => inferInstanceAs (Decidable False)
  | c :: _ => @instDecidableAnd (isNameStart c = true) _ inferInstance (List.decidableBAll ..)

theorem IsName.notMem {d : Char} (h : IsName w) (hd : isNamePart d = false)
    (hd' : isNameStart d = false) : d ∉ w := by
  cases w with
  | nil => exact h.elim
  | cons c cs =>
    intro hmem
    rcases mem_cons.1 hmem with rfl | hmem
    · exact absurd h.1 (by rw [hd']; exact Bool.false_ne_true)
    · exact absurd (h.2 d hmem) (by rw [hd]; exact Bool.false_ne_true)

/-- A name has no dot and no carriage return. -/
theorem IsName.dotless (h : IsName w) : '.' ∉ w :=
  h.notMem (by decide) (by decide)

theorem IsName.plain (h : IsName w) : '\r' ∉ w :=
  h.notMem (by decide) (by decide)

theorem ne_of_isNameStart (hc : isNameStart c = true) :
    isStringMark c = false ∧ c ≠ '"' ∧ c ≠ '\'' ∧ c ≠ '@' ∧ EndsGap c := by
  have hnone : ∀ d ∈ ['$', '@', '"', '\'', '/', '#', ' ', '\t', '\r', '\n', '\x0c', '\x0b'],
      isNameStart d = false := forall_mem_of_all (by decide)
  have hne : ∀ d ∈ ['$', '@', '"', '\'', '/', '#', ' ', '\t', '\r', '\n', '\x0c', '\x0b'],
      c ≠ d := by
    rintro d hd rfl
    rw [hnone c hd] at hc
    cases hc
  simp only [mem_cons, not_mem_nil, or_false, forall_eq_or_imp, forall_eq] at hne
  simp [isStringMark, EndsGap, isGapBlank, hne]

theorem endsGap_of_isNameStart (hc : isNameStart c = true) : EndsGap c :=
  (ne_of_isNameStart hc).2.2.2.2

/-- No name goes on at the front of a text. -/
abbrev EndsName : List Char → Prop :=
  Opens (isNamePart · = false)

theorem nameLength_name (ha : ∀ d ∈ a, isNamePart d = true) (htail : EndsName tail) :
    nameLength (c :: (a ++ tail)) = (c :: a).length := by
  have hstop : tail.takeWhile isNamePart = [] := by
    obtain ⟨d, rest, rfl, hd⟩ := htail
    rw [takeWhile_cons, hd]
    rfl
  rw [nameLength, drop_one, tail_cons, takeWhile_append_of_pos ha, hstop,
    append_nil, length_cons, Nat.add_comm]

theorem lexeme_name (hc : isNameStart c = true) (ha : ∀ d ∈ a, isNamePart d = true)
    (htail : EndsName tail) : lexeme (c :: (a ++ tail))
      = .ok (.plain (Kind.ofWord (String.ofList (c :: a))) (c :: a).length) := by
  obtain ⟨hmark, hquote, hchar, hat, -⟩ := ne_of_isNameStart hc
  have hmarked : startsMarkedString (c :: (a ++ tail)) = false := by
    rw [startsMarkedString, hmark, Bool.false_and]
  unfold lexeme
  dsimp only
  rw [if_neg (by rw [hmarked]; exact Bool.false_ne_true), if_neg hquote, if_neg hchar,
    if_neg (by simp [hat]), if_pos hc, nameLength_name ha htail, ← cons_append,
    take_left]

/-- The sign of a word written without a mark in front. -/
def wordSign (word : String) : Sign :=
  (Kind.ofWord word, word)

/-- A word is read as it is written. -/
theorem Piece.word {word : String} (h : IsName word.toList) :
    Piece word.toList [wordSign word] (Opens (isNameStart · = true)) EndsName := by
  obtain ⟨c, a, hchars⟩ : ∃ c a, word.toList = c :: a := by
    cases hword : word.toList with
    | nil => rw [hword] at h; exact h.elim
    | cons c a => exact ⟨c, a, rfl⟩
  have hsign : wordSign word
      = (Kind.ofWord (String.ofList (c :: a)), String.ofList (c :: a)) := by
    rw [← hchars, String.ofList_toList, wordSign]
  have hplain := h.plain
  rw [hchars] at h hplain
  obtain ⟨hc, ha⟩ := h
  rw [hchars, hsign]
  exact ⟨hplain, ⟨nofun, nofun⟩, fun _ => ⟨c, _, rfl, hc⟩,
    fun ht => spells_lexeme (endsGap_of_isNameStart hc) ⟨_, lexeme_name hc ha ht, rfl⟩⟩

theorem Piece.keyword (word : String) (k : Kind) (h : IsName word.toList)
    (hk : wordSign word = (k, word)) :
    Piece word.toList [(k, word)] (Opens (isNameStart · = true)) EndsName :=
  hk ▸ .word h

-- ===== marks

/-- No letter is a digit. -/
theorem isDigit_of_isLetter (h : isLetter c = true) : isDigit c = false := by
  have htable : (letterRanges.all fun r => (decimalRanges ++ nondecimalDigitRanges).all fun q =>
      Nat.blt r.2 q.1 || Nat.blt q.2 r.1) = true := by decide +kernel
  have hranges : ∀ r ∈ letterRanges, ∀ q ∈ decimalRanges ++ nondecimalDigitRanges,
      r.2 < q.1 ∨ q.2 < r.1 := by
    intro r hr q hq
    have hpair := all_eq_true.1 (all_eq_true.1 htable r hr) q hq
    rwa [Bool.or_eq_true, Nat.blt_eq, Nat.blt_eq] at hpair
  rw [Bool.eq_false_iff]
  intro hdigit
  unfold isLetter at h
  unfold isDigit at hdigit
  split at h
  next hascii =>
    rw [if_pos hascii] at hdigit
    have hle : ∀ a b : Char, a ≤ b ↔ a.toNat ≤ b.toNat := fun a b => Iff.rfl
    simp only [Bool.or_eq_true, Bool.and_eq_true, decide_eq_true_eq, hle] at h hdigit
    have hvalues : '0'.toNat = 48 ∧ '9'.toNat = 57 ∧ 'a'.toNat = 97 ∧ 'z'.toNat = 122
      ∧ 'A'.toNat = 65 ∧ 'Z'.toNat = 90 := by decide
    omega
  next hascii =>
    rw [if_neg hascii, CharRanges.has, CharRanges.has, ← any_append] at hdigit
    obtain ⟨r, hr, hin⟩ := any_eq_true.1 h
    obtain ⟨q, hq, hin'⟩ := any_eq_true.1 hdigit
    simp only [Bool.and_eq_true, decide_eq_true_eq] at hin hin'
    have := hranges r hr q hq
    omega

theorem isDigit_of_isNameStart (h : isNameStart c = true) : isDigit c = false := by
  rcases Bool.or_eq_true _ _ ▸ h with h | h
  · exact isDigit_of_isLetter h
  · rw [of_decide_eq_true h]
    decide

/-- A mark and the character after it make no operator and no number. -/
def Apart (c d : Char) : Prop :=
  isDigit d = false ∧ ∀ o ∈ compoundOperators, o.1.toList.take 2 ≠ [c, d]

instance (c d : Char) : Decidable (Apart c d) :=
  inferInstanceAs (Decidable (_ ∧ _))

theorem apart_of_isNameStart (h : isNameStart d = true) : Apart c d := by
  refine ⟨isDigit_of_isNameStart h, fun o ho htake => ?_⟩
  have hall : ∀ o ∈ compoundOperators, ∀ d ∈ o.1.toList[1]?, isNameStart d = false := by
    have hchecked : (compoundOperators.all fun o => o.1.toList[1]?.all fun d => !isNameStart d)
        = true := by decide
    intro o ho d hd
    have := all_eq_true.1 hchecked o ho
    rw [Option.mem_def.1 hd] at this
    simpa using this
  have hsecond : d ∈ o.1.toList[1]? := by
    have := congrArg (fun l : List Char => l[1]?) htake
    simpa using this
  rw [hall o ho d hsecond] at h
  cases h

/-- Every operator of several characters has at least two. -/
theorem compoundOperator?_eq_none (h : ∀ o ∈ compoundOperators, o.1.toList.take 2 ≠ [c, d])
    (rest : List Char) : compoundOperator? (c :: d :: rest) = none := by
  refine find?_eq_none.2 fun o ho hopens => h o ho ?_
  have hall : ∀ o ∈ compoundOperators, 2 ≤ o.1.toList.length := by decide
  have hlength := hall o ho
  obtain ⟨cs, hcs⟩ := List.isPrefixOf_iff_prefix.1 hopens
  have htake := congrArg (List.take 2) hcs
  rwa [take_append_of_le_length hlength] at htake

/-- The marks that may make an operator with what follows. -/
def joiningMarks : List Char :=
  ['.', '<', '>', '?', '=']

theorem lexeme_joining (hc : c ∈ joiningMarks) (hk : Kind.ofMark? c = some k) (hd : Apart c d)
    (rest : List Char) : lexeme (c :: d :: rest) = .ok (.plain k 1) := by
  have hplain : ∀ c ∈ joiningMarks, isStringMark c = false ∧ c ≠ '"' ∧ c ≠ '\'' ∧ c ≠ '@'
      ∧ isNameStart c = false ∧ isDigit c = false := forall_mem_of_all (by decide)
  obtain ⟨hmark, hquote, hchar, hat, hname, hdigit⟩ := hplain c hc
  have hmarked : startsMarkedString (c :: d :: rest) = false := by
    rw [startsMarkedString, hmark, Bool.false_and]
  have hnumber : startsNumber (c :: d :: rest) = false := by
    by_cases hpoint : c = '.'
    · subst hpoint
      exact hd.1
    · rw [startsNumber.eq_2 _ _ fun _ _ h _ => hpoint h, hdigit]
  have hbefore : questionBeforeNumber (c :: d :: rest) = false := by
    refine questionBeforeNumber.eq_2 _ fun _ _ h => ?_
    cases h
    exact hd.2 ("?.", .questionDot) (by decide) rfl
  unfold lexeme
  dsimp only
  rw [if_neg (by rw [hmarked]; exact Bool.false_ne_true), if_neg hquote, if_neg hchar,
    if_neg (by simp [hat]), if_neg (by rw [hname]; exact Bool.false_ne_true),
    if_neg (by rw [hnumber]; exact Bool.false_ne_true),
    if_neg (by rw [hbefore]; exact Bool.false_ne_true)]
  simp only [compoundOperator?_eq_none hd.2, hk]

namespace Piece

/-- A mark is no carriage return. -/
theorem plain_mark (hk : Kind.ofMark? c = some k) : '\r' ∉ [c] := by
  intro hc
  rw [← mem_singleton.1 hc] at hk
  cases hk

/-- A mark that joins with nothing. -/
theorem stop (c : Char) (k : Kind) (hc : c ∈ stopChars) (hk : Kind.ofMark? c = some k) :
    Piece [c] [(k, String.ofList [c])] (Opens (· = c)) fun _ => True := by
  have hends : ∀ c ∈ stopChars, (Kind.ofMark? c).isSome = true → EndsGap c :=
    forall_mem_of_all (by decide)
  exact ⟨plain_mark hk, ⟨nofun, nofun⟩, fun _ => ⟨c, _, rfl, rfl⟩, fun _ =>
    spells_lexeme (hends c hc (by rw [hk]; rfl)) ⟨1, lexeme_mark hc hk _, rfl⟩⟩

/-- A mark that does not join with what follows. -/
theorem joining (c : Char) (k : Kind) (hc : c ∈ joiningMarks) (hk : Kind.ofMark? c = some k) :
    Piece [c] [(k, String.ofList [c])] (Opens (· = c)) (Opens (Apart c)) := by
  have hends : ∀ c ∈ joiningMarks, EndsGap c := forall_mem_of_all (by decide)
  refine ⟨plain_mark hk, ⟨nofun, nofun⟩, fun _ => ⟨c, _, rfl, rfl⟩, ?_⟩
  rintro _ ⟨d, rest, rfl, hd⟩
  exact spells_lexeme (hends c hc) ⟨1, lexeme_joining hc hk hd rest, rfl⟩

/-- Two colons. -/
theorem colons : Piece [':', ':'] [(.doubleColon, "::")] (Opens (· = ':')) fun _ => True :=
  ⟨by decide, ⟨nofun, nofun⟩, fun _ => ⟨':', _, rfl, rfl⟩,
    fun _ => spells_lexeme (by decide) ⟨2, rfl, rfl⟩⟩

end Piece

-- ===== fixed texts

theorem Token.Shifted.sign_eq {o o' L : Nat} {vs vs' : List Token}
    (h : Forall₂ (Token.Shifted o o' L) vs vs') : vs'.map Token.sign = vs.map Token.sign := by
  induction h with
  | nil => rfl
  | cons hxy _ ih =>
    obtain ⟨hkind, htext, -⟩ := alike_token.1 hxy.1
    rw [map_cons, map_cons, ih, Token.sign, Token.sign, hkind, htext]

/-- The last of some tokens, and of those that they are moved to. -/
theorem Token.Shifted.getLast? {o o' L : Nat} {vs vs' : List Token}
    (h : Forall₂ (Token.Shifted o o' L) vs vs') :
    ∀ y ∈ vs'.getLast?, ∃ x ∈ vs.getLast?, Token.Shifted o o' L x y := by
  rw [← forall₂_reverse_iff] at h
  rw [← head?_reverse, ← head?_reverse]
  generalize vs.reverse = us, vs'.reverse = us' at h
  cases h with
  | nil => nofun
  | @cons x y _ _ hxy =>
    intro z hz
    cases hz
    exact ⟨x, rfl, hxy⟩

/-- Whether a text alone is read as tokens of these signs, of which the last ends with it. -/
def spellsAlone (w : List Char) (signs : List Sign) : Bool :=
  match tokensOf {} false w with
  | .ok ts => ts.dropLast.map Token.sign == signs && ts.dropLast.getLast?.any (·.stop == w.length)
  | .error _ => false

/-- A fixed text before a stop. -/
theorem Piece.fixed (h : spellsAlone w signs = true) (hr : '\r' ∉ w) (hsigns : signs ≠ [])
    (hw : w ≠ []) : Piece w signs (w <+: ·) (Opens (· ∈ stopChars)) := by
  refine ⟨hr, ⟨fun hnone => absurd hnone hsigns, fun hnone => absurd hnone hw⟩,
    fun _ => prefix_append _ _, ?_⟩
  rintro _ ⟨d, rest, rfl, hd⟩
  unfold spellsAlone at h
  split at h
  next ts hts =>
    obtain ⟨hsigns, hlast⟩ := Bool.and_eq_true_iff.1 h
    obtain ⟨x, hx, hstop⟩ := (Option.any_eq_true _ _).1 hlast
    have hne : ts.dropLast ≠ [] := by
      intro hnil
      rw [hnil] at hx
      cases hx
    have hend : ∀ y ∈ ts.dropLast.getLast?, y.stop = ({} : Pos).offset + w.length := by
      intro y hy
      cases hx.symm.trans hy
      rw [beq_iff_eq.1 hstop]
      exact (Nat.zero_add _).symm
    rw [← append_nil w] at hts
    rw [← dropLast_append_getLast (tokensOf_closed hts).ne_nil] at hts
    intro p zs hzs
    have hfront := Front.of_stops hts .nil (cons_ne_nil _ _) hne hend
    obtain ⟨vs, hvs, htokens⟩ := hfront.moved p (d :: rest) (.cons hd)
    rw [hzs] at htokens
    refine ⟨vs, htokens, (Token.Shifted.sign_eq hvs).trans (beq_iff_eq.1 hsigns), fun y hy => ?_⟩
    obtain ⟨x, hx, -, i, -, hi, hi'⟩ := Token.Shifted.getLast? hvs y hy
    have := hend x hx
    omega
  next => cases h

end SourceBundle
