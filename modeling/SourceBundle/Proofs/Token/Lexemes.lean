/-
How far lexemes reach. Names, numbers and marks end at the first
character that cannot go on with them, and no lexeme outside a literal
goes on with a blank, a bracket, a comma or a semicolon. So a lexeme does
not change when such a character, or nothing, follows in place of
another, nor when the text is cut off where it ends (`lexeme_recut`).

Whether a reader goes on is seen from the classes of the few characters
that come next (`opensWith`), and a length is put together from runs of
characters behind such guards (`Measures`).
-/
import SourceBundle.Proofs.Token.Extent

namespace SourceBundle

open List Text

variable {w cs cs' more more' : List Char} {k n : Nat} {f g : List Char → Nat}
  {fs : List (Char → Bool)} {l : Lexeme}

-- ===== fronts

/-- Whether the characters at the front of a text are of these classes. -/
def opensWith : List (Char → Bool) → List Char → Bool
  | [], _ => true
  | _ :: _, [] => false
  | f :: fs, c :: cs => f c && opensWith fs cs

/-- No stop is of one of the classes. -/
def stopFree (fs : List (Char → Bool)) : Bool :=
  fs.all fun f => stopChars.all fun c => !f c

theorem eq_false_of_stopFree (hfs : stopFree fs = true) :
    ∀ f ∈ fs, ∀ c ∈ stopChars, f c = false := by
  simpa [stopFree] using hfs

theorem opensWith_append (fs : List (Char → Bool)) (hfs : stopFree fs = true) (h : Stops more)
    (w : List Char) : opensWith fs (w ++ more) = opensWith fs w := by
  replace hfs := eq_false_of_stopFree hfs
  induction fs generalizing w with
  | nil => rfl
  | cons f fs ih =>
    match w, more with
    | c :: w, _ => exact congrArg (f c && ·) (ih w (forall_mem_cons.1 hfs).2)
    | [], [] => rfl
    | [], c :: more =>
      show (f c && opensWith fs more) = false
      rw [hfs f (mem_cons_self ..) c (h c rfl), Bool.false_and]

theorem opensWith_take (cs : List Char) (h : fs.length ≤ k) :
    opensWith fs (cs.take k) = opensWith fs cs := by
  induction fs generalizing k cs with
  | nil => rfl
  | cons f fs ih =>
    match k, cs with
    | k + 1, [] => rfl
    | k + 1, c :: cs => exact congrArg (f c && ·) (ih cs (Nat.le_of_succ_le_succ h))

theorem opensWith_of_take (h : opensWith fs (cs.take k) = true) : opensWith fs cs = true := by
  induction fs generalizing k cs with
  | nil => rfl
  | cons f fs ih =>
    match k, cs with
    | k + 1, c :: cs =>
      have h := Bool.and_eq_true_iff.1 h
      exact Bool.and_eq_true_iff.2 ⟨h.1, ih h.2⟩

theorem le_of_opensWith (h : opensWith fs cs = true) : fs.length ≤ cs.length := by
  induction fs generalizing cs with
  | nil => exact Nat.zero_le _
  | cons f fs ih =>
    match cs with
    | c :: cs => exact Nat.succ_le_succ (ih (Bool.and_eq_true_iff.1 h).2)

theorem isPrefixOf_eq_opensWith (o cs : List Char) :
    o.isPrefixOf cs = opensWith (o.map fun c d => c == d) cs := by
  induction o generalizing cs with
  | nil => rfl
  | cons c o ih =>
    cases cs with
    | nil => rfl
    | cons d cs => rw [isPrefixOf_cons_cons, ih]; rfl

-- ===== lengths

/-- A length that is read off the front of a text. It does not change if a stop follows the text,
nor if what it does not count is cut off. -/
structure Measures (f : List Char → Nat) : Prop where
  le : ∀ cs, f cs ≤ cs.length
  append : ∀ {more}, Stops more → ∀ w, f (w ++ more) = f w
  take : ∀ {cs k}, f cs ≤ k → f (cs.take k) = f cs

namespace Measures

theorem zero : Measures fun _ => 0 :=
  ⟨fun _ => Nat.zero_le _, fun _ _ => rfl, fun _ => rfl⟩

/-- A run of characters of a class. -/
theorem run {p : Char → Bool} (hp : stopFree [p] = true) :
    Measures fun cs => (cs.takeWhile p).length where
  le cs := (takeWhile_sublist p).length_le
  append h w := by
    rw [takeWhile_append_stops (eq_false_of_stopFree hp p (mem_singleton_self p)) h]
  take hk := by rw [← take_takeWhile, take_of_length_le hk]

/-- One length after another. -/
theorem andThen (hf : Measures f) (hg : Measures g) :
    Measures fun cs => f cs + g (cs.drop (f cs)) where
  le cs := by
    have := hf.le cs
    have := hg.le (cs.drop (f cs))
    rw [length_drop] at this
    omega
  append h w := by rw [hf.append h, drop_append_of_le_length (hf.le w), hg.append h]
  take hk := by
    rw [hf.take (by omega), drop_take, hg.take (by omega)]

/-- A length behind a guard, which is among the characters counted. -/
theorem guarded (fs : List (Char → Bool)) (hfs : stopFree fs = true)
    (hk : ∀ cs, opensWith fs cs = true → k ≤ fs.length ∧ fs.length ≤ k + f (cs.drop k))
    (hf : Measures f) (hg : Measures g) :
    Measures fun cs => if opensWith fs cs then k + f (cs.drop k) else g cs where
  le cs := by
    split
    next h =>
      have := (hk cs h).1
      have := le_of_opensWith h
      have := hf.le (cs.drop k)
      rw [length_drop] at this
      omega
    next => exact hg.le cs
  append h w := by
    rw [opensWith_append fs hfs h]
    split
    next hw =>
      have := (hk w hw).1
      have := le_of_opensWith hw
      rw [drop_append_of_le_length (by omega), hf.append h]
    next => exact hg.append h w
  take {cs m} hm := by
    by_cases h : opensWith fs cs = true
    · have := (hk cs h).2
      rw [if_pos h] at hm ⊢
      rw [opensWith_take cs (by omega), if_pos h, drop_take, hf.take (by omega)]
    · rw [if_neg h] at hm ⊢
      rw [if_neg fun htake => h (opensWith_of_take htake), hg.take hm]

end Measures

/-- What opens a run is part of it. -/
theorem succ_le_run (fs : List (Char → Bool)) {p q : Char → Bool}
    (hpq : ∀ c, p c = true → q c = true)
    (h : opensWith (fs ++ [p]) cs = true) :
    fs.length + 1 ≤ fs.length + ((cs.drop fs.length).takeWhile q).length := by
  induction fs generalizing cs with
  | nil =>
    match cs with
    | c :: cs => simp [hpq c (Bool.and_eq_true_iff.1 h).1]
  | cons f fs ih =>
    match cs with
    | c :: cs =>
      have := ih (Bool.and_eq_true_iff.1 h).2
      simp only [length_cons, drop_succ_cons] at this ⊢
      omega

/-- The letter of an exponent. -/
def isExponentMark (c : Char) : Bool :=
  c = 'e' || c = 'E'

/-- The sign of an exponent. -/
def isSign (c : Char) : Bool :=
  c = '+' || c = '-'

/-- What makes a number after a zero one of another radix. -/
def isRadixMark (c : Char) : Bool :=
  c = 'x' || c = 'X' || c = 'b' || c = 'B'

theorem fractionLength_eq (cs : List Char) :
    fractionLength cs = if opensWith [(· = '.'), isDigit] cs
      then 1 + ((cs.drop 1).takeWhile isGroupedDigit).length else 0 := by
  fun_cases fractionLength cs with
  | case1 d cs hd => simp [opensWith, hd]
  | case2 d cs hd => simp [opensWith, hd]
  | case3 cs hcs =>
    match cs with
    | [] | [_] => simp [opensWith]
    | c :: d :: cs =>
      have hc : c ≠ '.' := fun hc => hcs d cs (by rw [hc])
      simp [opensWith, hc]

theorem exponentLength_eq (cs : List Char) :
    exponentLength cs = if opensWith [isExponentMark, isDigit] cs
      then 1 + ((cs.drop 1).takeWhile isDigit).length
      else if opensWith [isExponentMark, isSign, isDigit] cs
      then 2 + ((cs.drop 2).takeWhile isDigit).length else 0 := by
  match cs with
  | [] => rfl
  | [e] => simp [exponentLength, opensWith]
  | [e, s] =>
    by_cases hs : isDigit s <;> simp [exponentLength, opensWith, isExponentMark, hs]
  | e :: s :: d :: cs =>
    by_cases he : isExponentMark e <;> by_cases hs : isDigit s <;>
      simp_all [exponentLength, opensWith, isExponentMark, isSign]

theorem hasRadixMark_eq (cs : List Char) :
    hasRadixMark cs = opensWith [(· = '0'), isRadixMark] cs := by
  fun_cases hasRadixMark cs with
  | case1 x cs => simp [opensWith, isRadixMark]
  | case2 cs hcs =>
    match cs with
    | [] | [_] => simp [opensWith]
    | c :: x :: cs =>
      have hc : c ≠ '0' := fun hc => hcs x cs (by rw [hc])
      simp [opensWith, hc]

theorem byteSuffixLength_eq (cs : List Char) : byteSuffixLength cs
    = if opensWith [fun c => c = 'u' || c = 'U', (· = '8')] cs then 2 + 0 else 0 := by
  fun_cases byteSuffixLength cs with
  | case1 u cs hu => simp_all [opensWith]
  | case2 u cs hu => simp_all [opensWith]
  | case3 cs hcs =>
    match cs with
    | [] | [_] => simp [opensWith]
    | u :: c :: cs =>
      have hc : c ≠ '8' := fun hc => hcs u cs (by rw [hc])
      simp [opensWith, hc]

theorem measures_fraction : Measures fractionLength := by
  rw [funext fractionLength_eq]
  refine .guarded _ (by decide) (fun cs h => ⟨by decide, ?_⟩) (.run (by decide)) .zero
  exact succ_le_run [(· = '.')] (fun c hc => by rw [isGroupedDigit, hc]; rfl) h

theorem measures_exponent : Measures exponentLength := by
  rw [funext exponentLength_eq]
  refine .guarded _ (by decide) (fun cs h => ⟨by decide, ?_⟩) (.run (by decide))
    (.guarded _ (by decide) (fun cs h => ⟨by decide, ?_⟩) (.run (by decide)) .zero)
  · exact succ_le_run [isExponentMark] (fun _ => id) h
  · exact succ_le_run [isExponentMark, isSign] (fun _ => id) h

theorem measures_byteSuffix : Measures byteSuffixLength := by
  rw [funext byteSuffixLength_eq]
  exact .guarded _ (by decide) (fun cs h => ⟨by decide, by decide⟩) .zero .zero

/-- A number is a radix mark and what follows it, or digits with a fraction, an exponent and a
suffix. -/
theorem measures_number : Measures numberLength := by
  have hdecimal : Measures fun cs => _ :=
    (((Measures.run (p := isGroupedDigit) (by decide)).andThen measures_fraction).andThen
      measures_exponent).andThen (.run (p := isNumberSuffix) (by decide))
  have hnumber := Measures.guarded (k := 2) [(· = '0'), isRadixMark] (by decide)
    (fun cs h => ⟨by decide, Nat.le_add_right ..⟩) (.run (p := isNamePart) (by decide)) hdecimal
  have heq : numberLength = fun cs => _ := funext fun cs => by
    rw [numberLength, hasRadixMark_eq]
  rw [heq]
  exact hnumber

theorem startsNumber_eq (cs : List Char) :
    startsNumber cs = (opensWith [isDigit] cs || opensWith [(· = '.'), isDigit] cs) := by
  fun_cases startsNumber cs with
  | case1 d cs =>
    have hpoint : isDigit '.' = false := rfl
    simp [opensWith, hpoint]
  | case2 c cs hpoint =>
    match cs with
    | [] => simp [opensWith]
    | d :: cs =>
      have hc : c ≠ '.' := fun hc => hpoint d cs hc rfl
      simp [opensWith, hc]
  | case3 => rfl

theorem questionBeforeNumber_eq (cs : List Char) :
    questionBeforeNumber cs = opensWith [(· = '?'), (· = '.'), isDigit] cs := by
  fun_cases questionBeforeNumber cs with
  | case1 d cs => simp [opensWith]
  | case2 cs hcs =>
    match cs with
    | [] | [_] | [_, _] => simp [opensWith]
    | c :: e :: d :: cs =>
      by_cases hc : c = '?'
      · have he : e ≠ '.' := fun he => hcs d cs (by rw [hc, he])
        simp [opensWith, he]
      · simp [opensWith, hc]

-- ===== cuts

/-- Texts that a lexeme of `n` characters does not tell apart: a stop, or nothing, follows in the
second in place of another, or the second ends where the lexeme does. -/
inductive Recut (n : Nat) : List Char → List Char → Prop
  | stops {w more more' : List Char} (hw : n ≤ w.length) (h : Stops more) (h' : Stops more') :
      Recut n (w ++ more) (w ++ more')
  | ends (cs : List Char) : Recut n cs (cs.take n)

namespace Recut

theorem refl (hn : n ≤ cs.length) : Recut n cs cs := by
  simpa using stops hn .nil .nil

theorem take_eq (h : Recut n cs cs') (hk : k ≤ n) : cs'.take k = cs.take k := by
  cases h with
  | stops hw =>
    rw [take_append_of_le_length (by omega), take_append_of_le_length (by omega)]
  | ends => rw [take_take, Nat.min_eq_left hk]

theorem drop (h : Recut n cs cs') (hk : k ≤ n) : Recut (n - k) (cs.drop k) (cs'.drop k) := by
  cases h with
  | stops hw h h' =>
    rw [drop_append_of_le_length (by omega), drop_append_of_le_length (by omega)]
    exact .stops (by rw [length_drop]; omega) h h'
  | ends =>
    rw [drop_take]
    exact .ends _

theorem opensWith_eq (h : Recut n cs cs') (fs : List (Char → Bool)) (hfs : stopFree fs = true)
    (hn : opensWith fs cs = true → fs.length ≤ n) : opensWith fs cs' = opensWith fs cs := by
  cases h with
  | stops hw h h' => rw [opensWith_append fs hfs h, opensWith_append fs hfs h']
  | ends =>
    by_cases hopens : opensWith fs cs = true
    · exact opensWith_take cs (hn hopens)
    · rw [Bool.eq_false_iff.2 hopens, Bool.eq_false_iff.2 (mt opensWith_of_take hopens)]

theorem measure (h : Recut n cs cs') (hf : Measures f) (hn : f cs ≤ n) : f cs' = f cs := by
  cases h with
  | stops hw h h' => rw [hf.append h, hf.append h']
  | ends => exact hf.take hn

theorem takeWhile_eq {p : Char → Bool} (h : Recut n cs cs') (hp : stopFree [p] = true)
    (hn : (cs.takeWhile p).length ≤ n) : cs'.takeWhile p = cs.takeWhile p := by
  have hlength := h.measure (.run hp) hn
  have hprefix := h.take_eq hn
  rw [← prefix_iff_eq_take.1 (List.takeWhile_prefix p)] at hprefix
  rw [← hlength, ← prefix_iff_eq_take.1 (List.takeWhile_prefix p)] at hprefix
  exact hprefix

theorem settled {f : List Char → Option Nat} (h : Recut n cs cs') (hf : Settled f)
    (hk : f cs = some k) (hn : k ≤ n) : f cs' = some k := by
  rw [← take_append_drop k cs', h.take_eq hn]
  exact (hf cs k hk).2 _

/-- No quote follows in place of something else. -/
theorem no_quote (h : Recut n cs cs') (hn : k ≤ n) (hquote : (cs.drop k).head? ≠ some '"') :
    (cs'.drop k).head? ≠ some '"' := by
  have hhead : ∀ cs : List Char, cs.head? = some '"' ↔ opensWith [(· = '"')] cs = true := by
    intro cs
    cases cs <;> simp [opensWith]
  rw [Ne, hhead] at hquote ⊢
  rwa [(h.drop hn).opensWith_eq _ (by decide) fun hopens => absurd hopens hquote]

theorem settledBeforeQuote {f : List Char → Option Nat} (h : Recut n cs cs')
    (hf : SettledBeforeQuote f) (hk : f cs = some k) (hn : k ≤ n) : f cs' = some k := by
  obtain ⟨-, hquote, hmore⟩ := hf cs k hk
  rw [← take_append_drop k cs', h.take_eq hn]
  exact hmore _ (h.no_quote hn hquote)

theorem rawLength (h : Recut n cs cs') (hraw : opensRaw cs = true) (hk : rawLength? cs = some k)
    (hn : k ≤ n) : rawLength? cs' = some k := by
  rw [← take_append_drop k cs', h.take_eq hn]
  exact rawLength?_take hraw hk _

theorem interpolated {verbatim : Bool} {m : Nat} (h : Recut n cs cs')
    (hk : (interpolatedFrom verbatim 0 m cs).length = .ok k) (hn : k ≤ m + n) :
    interpolatedFrom verbatim 0 m cs' = interpolatedFrom verbatim 0 m cs := by
  obtain ⟨hquote, hmore⟩ := interpolatedFrom_take hk
  rw [← take_append_drop (k - m) cs', h.take_eq (by omega)]
  exact hmore _ fun hverbatim => h.no_quote (by omega) (hquote hverbatim)

end Recut

-- ===== guards

theorem le_numberLength (h : startsNumber cs = true) :
    1 ≤ numberLength cs ∧ (opensWith [(· = '.'), isDigit] cs = true → 2 ≤ numberLength cs) := by
  have hgrouped : ∀ c, isDigit c = true → isGroupedDigit c = true := fun c hc => by
    rw [isGroupedDigit, hc]
    rfl
  unfold numberLength
  split
  · exact ⟨by omega, fun _ => by omega⟩
  dsimp only
  fun_cases startsNumber cs
  case case1 d cs _ =>
    have hd : isDigit d = true := h
    have hpoint : ('.' :: d :: cs).takeWhile isGroupedDigit = [] := rfl
    have hfraction : fractionLength ('.' :: d :: cs)
        = 1 + ((d :: cs).takeWhile isGroupedDigit).length := if_pos hd
    rw [hpoint, length_nil, drop_zero, hfraction, takeWhile_cons, if_pos (hgrouped d hd),
      length_cons]
    exact ⟨by omega, fun _ => by omega⟩
  case case2 c cs hpoint _ =>
    rw [startsNumber.eq_2 c cs hpoint] at h
    rw [takeWhile_cons, if_pos (hgrouped c h), length_cons]
    refine ⟨by omega, fun hopens => ?_⟩
    have hc : isDigit '.' = false := rfl
    simp only [opensWith, Bool.and_eq_true, decide_eq_true_eq] at hopens
    rw [hopens.1, hc] at h
    cases h
  case case3 => cases h

theorem Recut.opensRaw_eq (h : Recut n cs cs') (hn : opensRaw cs = true → 3 ≤ n) :
    opensRaw cs' = opensRaw cs := by
  have hopens : ∀ cs, opensRaw cs = opensWith (['"', '"', '"'].map fun c d => c == d) cs :=
    isPrefixOf_eq_opensWith _
  rw [hopens] at hn ⊢
  rw [hopens, h.opensWith_eq _ (by decide) hn]

theorem Recut.startsNumber_eq (h : Recut n cs cs')
    (hn : startsNumber cs = true → numberLength cs ≤ n) : startsNumber cs' = startsNumber cs := by
  have hlength : startsNumber cs = true →
      1 ≤ n ∧ (opensWith [(· = '.'), isDigit] cs = true → 2 ≤ n) := fun hstarts =>
    have hle := hn hstarts
    (le_numberLength hstarts).imp (by omega) fun h hpoint => Nat.le_trans (h hpoint) hle
  have hdigit := h.opensWith_eq [isDigit] (by decide)
  have hpoint := h.opensWith_eq [(· = '.'), isDigit] (by decide)
  rw [SourceBundle.startsNumber_eq] at hlength ⊢
  rw [SourceBundle.startsNumber_eq, hdigit fun hopens => (hlength (by rw [hopens]; rfl)).1,
    hpoint fun hopens => (hlength (by rw [hopens, Bool.or_true])).2 hopens]

theorem startsMarkedString_eq (cs : List Char) : startsMarkedString cs
    = (opensWith [isStringMark] cs && opensWith [(· = '"')] (cs.dropWhile isStringMark)) := by
  cases cs with
  | nil => rfl
  | cons c cs =>
    rw [startsMarkedString]
    cases (c :: cs).dropWhile isStringMark <;> simp [opensWith]

theorem opensWith_dropWhile_take (f p : Char → Bool) (cs : List Char) (k : Nat) :
    opensWith [f] ((cs.take k).dropWhile p)
      = (decide ((cs.takeWhile p).length < k) && opensWith [f] (cs.dropWhile p)) := by
  induction cs generalizing k with
  | nil => simp [opensWith]
  | cons c cs ih =>
    cases k with
    | zero => simp [opensWith]
    | succ k =>
      rw [take_succ_cons, dropWhile_cons, dropWhile_cons, takeWhile_cons]
      split
      · rw [ih, length_cons]
        simp only [Nat.succ_lt_succ_iff]
      · simp [opensWith]

theorem Recut.startsMarkedString_eq (h : Recut n cs cs') (hpos : 1 ≤ n)
    (hn : startsMarkedString cs = true → (cs.takeWhile isStringMark).length < n) :
    startsMarkedString cs' = startsMarkedString cs := by
  have hfirst := h.opensWith_eq [isStringMark] (by decide) fun _ => hpos
  rw [SourceBundle.startsMarkedString_eq] at hn ⊢
  rw [SourceBundle.startsMarkedString_eq, hfirst]
  cases h with
  | stops hw h h' =>
    have hstop : ∀ c ∈ stopChars, isStringMark c = false := forall_mem_of_all (by decide)
    rw [dropWhile_append_stops hstop h, dropWhile_append_stops hstop h',
      opensWith_append [(· = '"')] (by decide) h, opensWith_append [(· = '"')] (by decide) h']
  | ends =>
    rw [opensWith_dropWhile_take]
    cases hmark : opensWith [isStringMark] cs
      && opensWith [(· = '"')] (cs.dropWhile isStringMark) with
    | true => rw [decide_eq_true (hn hmark), Bool.true_and, hmark]
    | false => rw [Bool.and_left_comm, hmark, Bool.and_false]

/-- The operator that a lexeme is, and none where it is no operator. -/
theorem Recut.compoundOperator?_eq {o? : Option (String × Kind)} (h : Recut n cs cs')
    (ho : compoundOperator? cs = o?) (hn : ∀ o ∈ o?, o.1.length ≤ n) :
    compoundOperator? cs' = o? := by
  have hfree : ∀ o ∈ compoundOperators, stopFree (o.1.toList.map fun c d => c == d) = true := by
    decide
  unfold compoundOperator? at ho ⊢
  generalize compoundOperators = os at ho hfree
  induction os with
  | nil => exact ho
  | cons o os ih =>
    have hopens : o.1.toList.isPrefixOf cs' = o.1.toList.isPrefixOf cs := by
      rw [isPrefixOf_eq_opensWith, isPrefixOf_eq_opensWith]
      refine h.opensWith_eq _ (hfree o (mem_cons_self ..)) fun hopens => ?_
      rw [← isPrefixOf_eq_opensWith] at hopens
      rw [find?_cons, hopens] at ho
      rw [length_map, String.length_toList]
      exact hn o ho.symm
    rw [find?_cons] at ho ⊢
    rw [hopens]
    split
    next hopens => rwa [hopens] at ho
    next hopens =>
      rw [hopens] at ho
      exact ih ho fun o ho => hfree o (mem_cons_of_mem _ ho)

/-- A question mark before a number may be left alone. -/
theorem Recut.question (h : Recut 1 cs cs') (hquestion : questionBeforeNumber cs = true) :
    questionBeforeNumber cs' = true ∨ cs' = ['?'] := by
  cases h with
  | stops hw h h' =>
    rw [questionBeforeNumber_eq, opensWith_append _ (by decide) h] at hquestion
    rw [questionBeforeNumber_eq, opensWith_append _ (by decide) h']
    exact .inl hquestion
  | ends =>
    unfold questionBeforeNumber at hquestion
    split at hquestion
    · exact .inr rfl
    · cases hquestion

-- ===== lexemes

/-- The quoted part of a plain literal. -/
theorem plainString_eq_ok {l : Lexeme} (h : plainString cs = .ok l) :
    ∃ n, l = .plain .string (n + byteSuffixLength (cs.drop n))
      ∧ (opensRaw cs = true ∧ rawLength? cs = some n
        ∨ opensRaw cs = false ∧ ∃ k, escapedLength? '"' (cs.drop 1) = some k ∧ n = 1 + k) := by
  unfold plainString at h
  split at h
  next hraw =>
    obtain ⟨n, hn, rfl⟩ := bind_length_eq_ok h
    exact ⟨n, rfl, .inl ⟨hraw, closedOr_eq_ok hn⟩⟩
  next hraw =>
    obtain ⟨n, hn, rfl⟩ := bind_length_eq_ok h
    obtain ⟨k, hk, rfl⟩ := Option.map_eq_some_iff.1 (closedOr_eq_ok hn)
    exact ⟨1 + k, rfl, .inr ⟨Bool.eq_false_iff.2 hraw, k, hk, rfl⟩⟩

theorem plainString_ok_raw (hraw : opensRaw cs = true) (h : rawLength? cs = some n) :
    plainString cs = .ok (.plain .string (n + byteSuffixLength (cs.drop n))) := by
  unfold plainString
  rw [if_pos hraw, h]
  rfl

theorem plainString_ok (hraw : opensRaw cs = false) (h : escapedLength? '"' (cs.drop 1) = some k) :
    plainString cs = .ok (.plain .string (1 + k + byteSuffixLength (cs.drop (1 + k)))) := by
  unfold plainString
  rw [if_neg (Bool.eq_false_iff.1 hraw), h]
  rfl

theorem plainString_le {l : Lexeme} (h : plainString cs = .ok l) (hn : l.length = .ok n) :
    1 ≤ n ∧ n ≤ cs.length := by
  obtain ⟨k, rfl, hk⟩ := plainString_eq_ok h
  cases hn
  have hsuffix := measures_byteSuffix.le (cs.drop k)
  have hbounds : 1 ≤ k ∧ k ≤ cs.length := by
    rcases hk with ⟨hraw, hk⟩ | ⟨-, j, hj, rfl⟩
    · exact (rawLength?_le hraw hk).imp_left (Nat.le_trans (by decide))
    · have hle := (settled_escapedLength? '"' _ j hj).1
      have hpos := (settled_escapedLength? '"').pos rfl hj
      rw [length_drop] at hle
      omega
  rw [length_drop] at hsuffix
  omega

theorem plainString_recut (h : plainString cs = .ok l) (hn : l.length = .ok n)
    (hcut : Recut n cs cs') : plainString cs' = .ok l := by
  obtain ⟨k, rfl, hk⟩ := plainString_eq_ok h
  cases hn
  rw [← (hcut.drop (Nat.le_add_right k _)).measure measures_byteSuffix (by omega)]
  rcases hk with ⟨hraw, hk⟩ | ⟨hraw, j, hj, rfl⟩
  · refine plainString_ok_raw ?_ (hcut.rawLength hraw hk (Nat.le_add_right ..))
    have := (rawLength?_le hraw hk).1
    rwa [hcut.opensRaw_eq fun _ => by omega]
  · refine plainString_ok ?_
      ((hcut.drop (k := 1) (by omega)).settled (settled_escapedLength? '"') hj (by omega))
    rwa [hcut.opensRaw_eq fun h => absurd h (by rw [hraw]; decide)]

theorem markedString_le (h : markedString cs = .ok l) (hn : l.length = .ok n) :
    (cs.takeWhile isStringMark).length < n ∧ n ≤ cs.length := by
  have hle := (takeWhile_sublist isStringMark (l := cs)).length_le
  unfold markedString at h
  generalize cs.takeWhile isStringMark = marks at *
  dsimp only at h
  split at h
  next hraw =>
    obtain ⟨j, hj, rfl⟩ := bind_length_eq_ok h
    cases hn
    have hbounds := rawLength?_le hraw (closedOr_eq_ok hj)
    rw [length_drop] at hbounds
    omega
  next =>
    split at h
    · cases h
      have hbounds := interpolatedFrom_lt hn
      simp only [length_drop] at hbounds
      omega
    · obtain ⟨j, hj, rfl⟩ := bind_length_eq_ok h
      cases hn
      have hj := closedOr_eq_ok hj
      have hlength := (settled_verbatimLength? _ j hj).1
      have hne : cs.drop marks.length ≠ [] := by
        intro hnil
        rw [hnil] at hj
        cases hj
      have := length_pos_iff.2 hne
      simp only [length_drop] at hlength this
      omega

theorem markedString_recut (h : markedString cs = .ok l) (hn : l.length = .ok n)
    (hcut : Recut n cs cs') : markedString cs' = .ok l := by
  have hlt := (markedString_le h hn).1
  have hmarks : cs'.takeWhile isStringMark = _ := hcut.takeWhile_eq (by decide) (by omega)
  have hbody := hcut.drop (Nat.le_of_lt hlt)
  unfold markedString at h ⊢
  rw [hmarks]
  generalize cs.takeWhile isStringMark = marks at *
  dsimp only at h ⊢
  split at h
  next hraw =>
    obtain ⟨j, hj, rfl⟩ := bind_length_eq_ok h
    cases hn
    have hj := closedOr_eq_ok hj
    have hthree := (rawLength?_le hraw hj).1
    rw [hbody.opensRaw_eq fun _ => by omega, if_pos hraw, hbody.rawLength hraw hj (by omega)]
    rfl
  next hraw =>
    rw [hbody.opensRaw_eq fun h => absurd h hraw, if_neg hraw]
    have hquoted := hbody.drop (k := 1) (by omega)
    split at h
    next hdollar =>
      cases h
      rw [if_pos hdollar, hquoted.interpolated hn (by omega)]
    next hdollar =>
      obtain ⟨j, hj, rfl⟩ := bind_length_eq_ok h
      cases hn
      rw [if_neg hdollar,
        hquoted.settledBeforeQuote settled_verbatimLength? (closedOr_eq_ok hj) (by omega)]
      rfl

theorem nameLength_le {c : Char} : nameLength (c :: cs) ≤ cs.length + 1 := by
  have := (takeWhile_sublist isNamePart (l := cs)).length_le
  show 1 + (cs.takeWhile isNamePart).length ≤ _
  omega

theorem compoundOperator?_le {text : String} {kind : Kind}
    (h : compoundOperator? cs = some (text, kind)) : 1 ≤ text.length ∧ text.length ≤ cs.length := by
  have hall : ∀ o ∈ compoundOperators, 1 ≤ o.1.length := by decide
  refine ⟨hall _ (mem_of_find?_eq_some h), ?_⟩
  have hopens : text.toList.isPrefixOf cs = true :=
    find?_some (p := fun o : String × Kind => o.1.toList.isPrefixOf cs) h
  have hlength := (List.isPrefixOf_iff_prefix.1 hopens).length_le
  rwa [String.length_toList] at hlength

/-- A lexeme takes a character at least. -/
theorem lexeme_le (hcs : cs ≠ []) (h : lexeme cs = .ok l) (hn : l.length = .ok n) :
    1 ≤ n ∧ n ≤ cs.length := by
  cases lexed_of_lexeme hcs h with
  | marked _ hm => exact (markedString_le hm hn).imp_left Nat.one_le_of_lt
  | quoted hq => exact plainString_le hq hn
  | @char rest j hj =>
    cases hn
    have hlength := (settled_escapedLength? '\'' _ j hj).1
    rw [length_cons]
    omega
  | @escaped d rest _ =>
    cases hn
    have : nameLength (d :: rest) ≤ rest.length + 1 := nameLength_le
    simp only [length_cons] at this ⊢
    omega
  | name =>
    cases hn
    exact ⟨Nat.le_add_right 1 _, nameLength_le⟩
  | number hnumber =>
    cases hn
    exact ⟨(le_numberLength hnumber).1, measures_number.le _⟩
  | compound ho =>
    cases hn
    exact compoundOperator?_le ho
  | mark =>
    cases hn
    exact ⟨Nat.le_refl 1, Nat.succ_le_succ (Nat.zero_le _)⟩

/-- Texts that have a lexeme in common start in the same way. -/
theorem Recut.uncons (h : Recut n cs cs') (hpos : 1 ≤ n) (hcs : cs ≠ []) :
    ∃ c rest rest', cs = c :: rest ∧ cs' = c :: rest' ∧ Recut (n - 1) rest rest' := by
  have htake := h.take_eq hpos
  have hdrop := h.drop hpos
  match cs, cs' with
  | c :: rest, c' :: rest' =>
    cases htake
    exact ⟨c, rest, rest', rfl, rfl, hdrop⟩

/-- A lexeme stays as it is if a stop or nothing follows in place of another, and if its text ends
where it does. -/
theorem lexeme_recut (hcs : cs ≠ []) (h : lexeme cs = .ok l) (hn : l.length = .ok n)
    (hcut : Recut n cs cs') : lexeme cs' = .ok l := by
  have hpos := (lexeme_le hcs h hn).1
  obtain ⟨c, rest, rest', rfl, rfl, hrest⟩ := hcut.uncons hpos hcs
  unfold lexeme at h ⊢
  dsimp only at h ⊢
  split at h
  next hmarked =>
    rw [hcut.startsMarkedString_eq hpos fun _ => (markedString_le h hn).1, if_pos hmarked]
    exact markedString_recut h hn hcut
  next hmarked =>
  rw [hcut.startsMarkedString_eq hpos fun h => absurd h hmarked, if_neg hmarked]
  split at h
  next hquote =>
    rw [if_pos hquote]
    exact plainString_recut h hn hcut
  next hquote =>
  rw [if_neg hquote]
  split at h
  next hchar =>
    obtain ⟨j, hj, rfl⟩ := bind_length_eq_ok h
    cases hn
    rw [if_pos hchar, hrest.settled (settled_escapedLength? '\'') (closedOr_eq_ok hj) (by omega)]
    rfl
  next hchar =>
  rw [if_neg hchar]
  have hhead : ∀ cs : List Char, cs.head?.any isNameStart = opensWith [isNameStart] cs := by
    intro cs
    cases cs <;> simp [opensWith]
  rw [hhead] at h ⊢
  split at h
  next hescaped =>
    cases h
    cases hn
    have hname : nameLength rest' = nameLength rest :=
      congrArg (1 + ·) ((hrest.drop (k := 1) (by rw [nameLength]; omega)).measure (.run (by decide))
        (by rw [nameLength]; omega))
    rw [hrest.opensWith_eq _ (by decide) fun _ => by rw [nameLength]; simp, if_pos hescaped, hname]
  next hescaped =>
  have hescaped' : ¬ (c = '@' && opensWith [isNameStart] rest') = true := by
    intro hboth
    obtain ⟨hc, hopens⟩ := Bool.and_eq_true_iff.1 hboth
    rw [hc, Bool.true_and] at hescaped
    rw [hrest.opensWith_eq _ (by decide) fun h => absurd h hescaped] at hopens
    exact hescaped hopens
  rw [if_neg hescaped']
  split at h
  next hname =>
    cases h
    cases hn
    have hlength : nameLength (c :: rest') = nameLength (c :: rest) :=
      congrArg (1 + ·) (hrest.measure (.run (by decide)) (by rw [nameLength]; simp))
    rw [if_pos hname, hlength, hcut.take_eq (Nat.le_refl _)]
  next hname =>
  rw [if_neg hname]
  split at h
  next hnumber =>
    cases h
    cases hn
    rw [hcut.startsNumber_eq fun _ => Nat.le_refl _, if_pos hnumber,
      hcut.measure measures_number (Nat.le_refl _)]
  next hnumber =>
  rw [hcut.startsNumber_eq fun h => absurd h hnumber, if_neg hnumber]
  split at h
  next hquestion =>
    cases h
    cases hn
    rcases hcut.question hquestion with hquestion | heq
    · rw [if_pos hquestion]
    · cases heq
      rfl
  next hquestion =>
  rw [questionBeforeNumber_eq] at hquestion ⊢
  rw [hcut.opensWith_eq _ (by decide) fun h => absurd h hquestion, if_neg hquestion]
  split at h
  next hcompound =>
    cases h
    cases hn
    rw [hcut.compoundOperator?_eq hcompound fun o ho => by cases ho; exact Nat.le_refl _]
  next hcompound =>
    rw [hcut.compoundOperator?_eq hcompound fun o ho => by cases ho]
    exact h

end SourceBundle
