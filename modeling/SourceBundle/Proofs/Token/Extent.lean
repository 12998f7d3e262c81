/-
How far gaps and literals reach, and how little of what follows they
depend on. A literal is settled by its own characters, a verbatim one by
one character more. A gap that ends before its text does stays as it is
when a stop follows in place of the rest: a character that no lexeme
goes on with, such as a blank or a bracket.
-/
import SourceBundle.Token.Lexeme

namespace SourceBundle

open List Text

-- ===== what ends a lexeme

/-- The characters that no lexeme goes on with outside a literal. -/
def stopChars : List Char :=
  [' ', '\t', '\r', '\n', '\x0c', '\x0b', '\x7b', '\x7d', '(', ')', '[', ']', ',', ';']

/-- What is checked of each member of a list holds of all of them. -/
theorem forall_mem_of_all {α : Type} {p : α → Prop} [DecidablePred p] {l : List α}
    (h : (l.all fun a => p a) = true) : ∀ a ∈ l, p a :=
  fun a ha => of_decide_eq_true (all_eq_true.1 h a ha)

/-- Nothing follows, or a character that no lexeme goes on with. -/
def Stops (cs : List Char) : Prop :=
  ∀ c ∈ cs.head?, c ∈ stopChars

variable {w cs more more' : List Char} {k n : Nat}

theorem Stops.nil : Stops [] := nofun

theorem Stops.cons {c : Char} (h : c ∈ stopChars) : Stops (c :: cs) := by
  intro d hd
  cases hd
  exact h

theorem takeWhile_append_stops {f : Char → Bool} (hf : ∀ c ∈ stopChars, f c = false)
    (h : Stops more) (w : List Char) : (w ++ more).takeWhile f = w.takeWhile f := by
  induction w with
  | nil =>
    cases more with
    | nil => rfl
    | cons c cs =>
      rw [nil_append, takeWhile_cons, hf c (h c rfl)]
      rfl
  | cons c w ih =>
    rw [cons_append, takeWhile_cons, takeWhile_cons, ih]

theorem dropWhile_append_stops {f : Char → Bool} (hf : ∀ c ∈ stopChars, f c = false)
    (h : Stops more) (w : List Char) : (w ++ more).dropWhile f = w.dropWhile f ++ more := by
  induction w with
  | nil =>
    cases more with
    | nil => rfl
    | cons c cs =>
      rw [nil_append, dropWhile_cons, hf c (h c rfl)]
      rfl
  | cons c w ih =>
    rw [cons_append, dropWhile_cons, dropWhile_cons, ih]
    split <;> rfl

/-- Up to a place behind its first character a text is that character and the rest up to there. -/
theorem take_sub_cons {c : Char} (h : n + 1 ≤ k) :
    (c :: cs).take (k - n) = c :: cs.take (k - (n + 1)) := by
  rw [show k - n = k - (n + 1) + 1 by omega, take_succ_cons]

theorem drop_sub_cons {c : Char} (h : n + 1 ≤ k) :
    (c :: cs).drop (k - n) = cs.drop (k - (n + 1)) := by
  rw [show k - n = k - (n + 1) + 1 by omega, drop_succ_cons]

-- ===== gaps

theorem gapFrom_le {mode : GapMode} {fresh : Bool} (h : gapFrom mode fresh n cs = .ok k) :
    n ≤ k ∧ k ≤ n + cs.length := by
  fun_induction gapFrom mode fresh n cs
  case case1 | case6 | case7 | case9 =>
    cases h
    exact ⟨Nat.le_refl _, Nat.le_add_right _ _⟩
  case case11 => cases h
  case case2 ih | case3 ih | case4 ih | case5 ih | case8 ih | case10 ih | case12 ih | case13 ih =>
    have := ih h
    simp only [length_cons]
    omega

/-- Outside comments and directives, at no slash. -/
theorem gapFrom_cons {c : Char} (hc : c ≠ '/') (fresh : Bool) (n : Nat) (cs : List Char) :
    gapFrom .between fresh n (c :: cs) = if isGapBlank c then
        gapFrom .between (c = '\n' || ((c = ' ' || c = '\t') && fresh)) (n + 1) cs
      else if c = '#' && fresh then gapFrom .line false (n + 1) cs else .ok n :=
  gapFrom.eq_4 _ _ _ _ (fun _ h => absurd h hc) fun _ h => absurd h hc

theorem ne_slash_of_isGapBlank {c : Char} (h : isGapBlank c = true) : c ≠ '/' := by
  rintro rfl
  cases h

/-- A text ends with a stop, or a stop or nothing follows it. -/
def Guarded (w more : List Char) : Prop :=
  Stops more ∨ ∃ c ∈ w.getLast?, c ∈ stopChars

/-- The first character of a text that goes on up to a place behind it. -/
theorem Guarded.uncons {c : Char} (hmore : Guarded w more') (h : w ++ more = c :: cs)
    (hle : n + 1 ≤ k) (hk : k < n + w.length) :
    ∃ w', w = c :: w' ∧ w' ++ more = cs ∧ k < n + 1 + w'.length ∧ Guarded w' more' := by
  match w with
  | [] => exact absurd hk (by rw [length_nil]; omega)
  | [d] => exact absurd hk (by rw [length_singleton]; omega)
  | d :: e :: w =>
    rw [cons_append, List.cons.injEq] at h
    refine ⟨e :: w, by rw [h.1], h.2, by rw [length_cons] at hk; omega, ?_⟩
    exact hmore.imp_right fun ⟨e, he, hstop⟩ => ⟨e, getLast?_cons_cons ▸ he, hstop⟩

/-- What does not come next still does not, if only what follows the text has changed. -/
theorem append_ne_cons {b c : Char} (hb : b ∉ stopChars) (hc : c ∉ stopChars)
    (hmore : Guarded (b :: w) more') (h : ∀ cs, w ++ more ≠ c :: cs) (cs : List Char) :
    w ++ more' ≠ c :: cs := by
  intro heq
  cases w with
  | nil =>
    rcases hmore with hstops | ⟨d, hd, hstop⟩
    · exact hc (hstops c (by rw [show more' = c :: cs from heq]; rfl))
    · cases hd
      exact hb hstop
  | cons d w =>
    rw [cons_append, List.cons.injEq] at heq
    exact h (w ++ more) (by rw [heq.1]; rfl)

/-- A gap that ends before the text does stays as it is, whatever follows in place of the rest. -/
theorem gapFrom_append {mode : GapMode} {fresh : Bool}
    (h : gapFrom mode fresh n (w ++ more) = .ok k)
    (hk : k < n + w.length) (hmore : Guarded w more') :
    gapFrom mode fresh n (w ++ more') = .ok k := by
  generalize hcs : w ++ more = cs at h
  fun_induction gapFrom mode fresh n cs generalizing w
  case case1 | case7 =>
    cases h
    rw [(append_eq_nil_iff.1 hcs).1, length_nil] at hk
    omega
  case case2 ih | case3 ih | case12 ih =>
    have hle := (gapFrom_le h).1
    obtain ⟨w, rfl, hone, hk, hmore⟩ := hmore.uncons hcs (by omega) hk
    obtain ⟨w, rfl, hrest, hk, hmore⟩ := hmore.uncons hone hle hk
    rw [cons_append, cons_append, gapFrom]
    exact ih hk hmore hrest h
  case case4 hblank ih =>
    obtain ⟨w, rfl, hrest, hk, hmore⟩ := hmore.uncons hcs (gapFrom_le h).1 hk
    rw [cons_append, gapFrom_cons (ne_slash_of_isGapBlank hblank), if_pos hblank]
    exact ih hk hmore hrest h
  case case5 hblank hhash ih =>
    obtain ⟨w, rfl, hrest, hk, hmore⟩ := hmore.uncons hcs (gapFrom_le h).1 hk
    rw [cons_append, gapFrom_cons (by rintro rfl; cases hhash), if_neg hblank, if_pos hhash]
    exact ih hk hmore hrest h
  case case6 hline hblock hblank hhash =>
    cases h
    obtain ⟨c, w, rfl⟩ := exists_cons_of_length_pos (l := w) (by omega)
    cases hcs
    rw [cons_append, gapFrom.eq_4, if_neg hblank, if_neg hhash]
    · exact fun cs hc => append_ne_cons (by rw [hc]; decide) (by decide) hmore
        (fun cs heq => hline cs hc heq) cs
    · exact fun cs hc => append_ne_cons (by rw [hc]; decide) (by decide) hmore
        (fun cs heq => hblock cs hc heq) cs
  case case8 ih | case10 ih =>
    obtain ⟨w, rfl, hrest, hk, hmore⟩ := hmore.uncons hcs (gapFrom_le h).1 hk
    rw [cons_append, gapFrom, ← ih hk hmore hrest h]
    simp [*]
  case case9 =>
    cases h
    obtain ⟨c, w, rfl⟩ := exists_cons_of_length_pos (l := w) (by omega)
    cases hcs
    rw [cons_append, gapFrom, if_neg (by decide), if_pos rfl]
  case case11 => cases h
  case case13 hclose ih =>
    obtain ⟨w', rfl, rfl, hk', hmore'⟩ := hmore.uncons hcs (gapFrom_le h).1 hk
    rw [cons_append, gapFrom.eq_9]
    · exact ih hk' hmore' rfl h
    · exact fun cs hc => append_ne_cons (by rw [hc]; decide) (by decide) hmore
        (fun cs heq => hclose cs hc heq) cs

-- ===== literals

/-- A length that is settled by the characters it counts. -/
def Settled (f : List Char → Option Nat) : Prop :=
  ∀ cs k, f cs = some k → k ≤ cs.length ∧ ∀ more, f (cs.take k ++ more) = some k

theorem Settled.append {f : List Char → Option Nat} (hf : Settled f) (h : f (w ++ more) = some k)
    (hk : k ≤ w.length) (more' : List Char) : f (w ++ more') = some k := by
  have hsettled := (hf _ k h).2 (w.drop k ++ more')
  rwa [take_append_of_le_length hk, ← append_assoc, take_append_drop] at hsettled

theorem Settled.pos {f : List Char → Option Nat} (hf : Settled f) (hnil : f [] = none)
    (h : f cs = some k) : 0 < k := by
  refine Nat.pos_of_ne_zero fun hk => ?_
  have hempty := (hf cs k h).2 []
  rw [hk, take_zero, append_nil, hnil] at hempty
  cases hempty

theorem escapedLength?_cons {quote c : Char} (hc : c ≠ '\\') (cs : List Char) :
    escapedLength? quote (c :: cs) = if c = '\x00' || c = '\n' then none
      else if c = quote then some 1 else (escapedLength? quote cs).map (· + 1) :=
  escapedLength?.eq_4 quote c cs (fun h _ => hc h) fun _ _ h _ => hc h

theorem settled_escapedLength? (quote : Char) : Settled (escapedLength? quote) := by
  intro cs k h
  fun_induction escapedLength? quote cs generalizing k with
  | case1 | case2 | case4 => cases h
  | case3 c cs ih =>
    obtain ⟨j, hj, rfl⟩ := Option.map_eq_some_iff.1 h
    obtain ⟨hle, hmore⟩ := ih j hj
    refine ⟨by simp only [length_cons]; omega, fun more => ?_⟩
    rw [take_succ_cons, take_succ_cons, cons_append, cons_append,
      escapedLength?, hmore]
    rfl
  | case5 cs hlone hpair hend =>
    cases h
    have hback : quote ≠ '\\' := by
      intro hquote
      cases cs with
      | nil => exact hlone hquote rfl
      | cons d cs => exact hpair d cs hquote rfl
    refine ⟨Nat.succ_le_succ (Nat.zero_le _), fun more => ?_⟩
    rw [take_succ_cons, cons_append, escapedLength?_cons hback, if_neg hend, if_pos rfl]
  | case6 c cs hlone hpair hend hquote ih =>
    obtain ⟨j, hj, rfl⟩ := Option.map_eq_some_iff.1 h
    obtain ⟨hle, hmore⟩ := ih j hj
    have hback : c ≠ '\\' := by
      intro hc
      cases cs with
      | nil => exact hlone hc rfl
      | cons d cs => exact hpair d cs hc rfl
    refine ⟨Nat.succ_le_succ hle, fun more => ?_⟩
    rw [take_succ_cons, cons_append, escapedLength?_cons hback, if_neg hend,
      if_neg hquote, hmore]
    rfl

/-- A length that is settled by the characters it counts and by no quote after them. -/
def SettledBeforeQuote (f : List Char → Option Nat) : Prop :=
  ∀ cs k, f cs = some k → k ≤ cs.length ∧ (cs.drop k).head? ≠ some '"'
    ∧ ∀ more, more.head? ≠ some '"' → f (cs.take k ++ more) = some k

theorem settled_verbatimLength? : SettledBeforeQuote verbatimLength? := by
  intro cs k h
  fun_induction verbatimLength? cs generalizing k with
  | case1 | case4 => cases h
  | case2 cs ih =>
    obtain ⟨j, hj, rfl⟩ := Option.map_eq_some_iff.1 h
    obtain ⟨hle, hquote, hmore⟩ := ih j hj
    refine ⟨by simp only [length_cons]; omega, hquote, fun more hhead => ?_⟩
    rw [take_succ_cons, take_succ_cons, cons_append, cons_append,
      verbatimLength?, hmore more hhead]
    rfl
  | case3 cs hdouble =>
    cases h
    refine ⟨Nat.succ_le_succ (Nat.zero_le _), fun hhead => ?_, fun more hhead => ?_⟩
    · cases cs with
      | nil => cases hhead
      | cons d cs =>
        cases hhead
        exact hdouble cs rfl rfl
    · rw [take_succ_cons, take_zero, cons_append, nil_append,
        verbatimLength?.eq_3, if_pos rfl]
      rintro cs - rfl
      exact hhead rfl
  | case5 c cs _ hquote hnul ih =>
    obtain ⟨j, hj, rfl⟩ := Option.map_eq_some_iff.1 h
    obtain ⟨hle, hafter, hmore⟩ := ih j hj
    refine ⟨Nat.succ_le_succ hle, hafter, fun more hhead => ?_⟩
    rw [take_succ_cons, cons_append, verbatimLength?.eq_3 _ _ fun _ hc => absurd hc hquote,
      if_neg hquote, if_neg hnul, hmore more hhead]
    rfl

theorem le_rawTailLength? {quotes : Nat} (h : rawTailLength? quotes cs = some k) : quotes ≤ k := by
  induction cs generalizing k with
  | nil => cases h
  | cons c cs ih =>
    rw [rawTailLength?] at h
    split at h
    · cases h
      exact Nat.le_refl _
    · obtain ⟨j, hj, rfl⟩ := Option.map_eq_some_iff.1 h
      exact Nat.le_succ_of_le (ih hj)

theorem settled_rawTailLength? {quotes : Nat} (hquotes : 0 < quotes) :
    Settled (rawTailLength? quotes) := by
  intro cs k h
  induction cs generalizing k with
  | nil => cases h
  | cons c cs ih =>
    rw [rawTailLength?] at h
    split at h
    next hclose =>
      cases h
      have hclose := List.isPrefixOf_iff_prefix.1 hclose
      have htake : (c :: cs).take quotes = List.replicate quotes '"' := by
        rw [prefix_iff_eq_take.1 hclose, length_replicate]
      refine ⟨by simpa using hclose.length_le, fun more => ?_⟩
      rw [htake]
      obtain ⟨q, rfl⟩ : ∃ q, quotes = q + 1 := ⟨quotes - 1, by omega⟩
      rw [replicate_succ, cons_append, rawTailLength?, if_pos]
      exact List.isPrefixOf_iff_prefix.2 (prefix_append (List.replicate (q + 1) '"') more)
    next hopen =>
      obtain ⟨j, hj, rfl⟩ := Option.map_eq_some_iff.1 h
      obtain ⟨hle, hmore⟩ := ih j hj
      refine ⟨Nat.succ_le_succ hle, fun more => ?_⟩
      rw [take_succ_cons, cons_append, rawTailLength?, if_neg, hmore]
      · rfl
      · -- the run of quotes would lie in the characters counted
        intro hclose
        have hclose := List.isPrefixOf_iff_prefix.1 hclose
        have hq := le_rawTailLength? hj
        have hshort := prefix_of_prefix_length_le hclose
          (prefix_append (c :: cs.take j) more) (by simp; omega)
        exact hopen (List.isPrefixOf_iff_prefix.2
          (hshort.trans (cons_prefix_cons.2 ⟨rfl, List.take_prefix j cs⟩)))

theorem three_le_of_opensRaw (h : opensRaw cs = true) :
    3 ≤ (cs.takeWhile (· = '"')).length := by
  obtain ⟨cs, rfl⟩ := List.isPrefixOf_iff_prefix.1 h
  exact Nat.le_add_left 3 (cs.takeWhile (· = '"')).length

theorem rawLength?_le (hraw : opensRaw cs = true) (h : rawLength? cs = some k) :
    3 ≤ k ∧ k ≤ cs.length := by
  obtain ⟨j, hj, rfl⟩ := Option.map_eq_some_iff.1 h
  have hpos := three_le_of_opensRaw hraw
  have hle := (settled_rawTailLength? (by omega) _ j hj).1
  have hquotes := (takeWhile_sublist (p := (· = '"')) (l := cs)).length_le
  rw [length_drop] at hle
  omega

/-- The characters of a raw literal settle its length. -/
theorem rawLength?_take (hraw : opensRaw cs = true) (h : rawLength? cs = some k)
    (more : List Char) : rawLength? (cs.take k ++ more) = some k := by
  have hle := (rawLength?_le hraw h).2
  obtain ⟨j, hj, rfl⟩ := Option.map_eq_some_iff.1 h
  have hpos := three_le_of_opensRaw hraw
  have hquotes := le_rawTailLength? hj
  generalize hq : (cs.takeWhile (· = '"')).length = q at *
  -- the opening run of quotes ends before the literal does
  have hrun : (cs.take (q + j) ++ more).takeWhile (· = '"') = cs.takeWhile (· = '"') := by
    have htake : (cs.take (q + j)).takeWhile (· = '"') = cs.takeWhile (· = '"') := by
      rw [← take_takeWhile, take_of_length_le (by omega)]
    rw [takeWhile_append, htake, if_neg (by rw [length_take]; omega)]
  rw [rawLength?, hrun, hq, drop_append_of_le_length (by rw [length_take]; omega), drop_take,
    Nat.add_sub_cancel_left, (settled_rawTailLength? (by omega) _ j hj).2 more]
  rfl

-- ===== interpolated literals

theorem holeFrom_lt {skip : Nat} {depth : Int} {expression : Option Nat} {extent : HoleExtent}
    (h : holeFrom skip depth expression n cs = .ok extent) :
    n + skip < extent.total ∧ extent.total ≤ n + cs.length := by
  fun_induction holeFrom skip depth expression n cs
  case case1 | case3 | case4 | case6 => cases h
  case case2 ih | case5 ih | case7 ih | case8 ih | case9 ih | case11 ih | case12 ih | case13 ih =>
    have := ih h
    rw [length_cons]
    omega
  case case10 =>
    cases h
    exact ⟨Nat.lt_succ_self _, Nat.succ_le_succ (Nat.le_add_right _ _)⟩

theorem expression_lt_total {skip : Nat} {depth : Int} {expression : Option Nat}
    {extent : HoleExtent} (h : holeFrom skip depth expression n cs = .ok extent)
    (he : ∀ e ∈ expression, e ≤ n) : extent.expression < extent.total := by
  have hsucc : ∀ {e? : Option Nat} {n : Nat}, (∀ e ∈ e?, e ≤ n) → ∀ e ∈ e?, e ≤ n + 1 :=
    fun h e he => Nat.le_succ_of_le (h e he)
  fun_induction holeFrom skip depth expression n cs
  case case1 | case3 | case4 | case6 => cases h
  case case2 ih | case5 ih | case7 ih | case8 ih | case9 ih | case11 ih | case13 ih =>
    exact ih h (hsucc he)
  case case10 =>
    cases h
    rename_i expression n _ _ _ _ _ _
    cases expression with
    | none => exact Nat.lt_succ_self n
    | some e => exact Nat.lt_succ_of_le (he e rfl)
  case case12 ih =>
    refine ih h fun e he => ?_
    cases he
    exact Nat.le_succ _

/-- The characters of a hole settle its extent. -/
theorem holeFrom_take {skip : Nat} {depth : Int} {expression : Option Nat} {extent : HoleExtent}
    (h : holeFrom skip depth expression n cs = .ok extent) (more : List Char) :
    holeFrom skip depth expression n (cs.take (extent.total - n) ++ more) = .ok extent := by
  -- a literal inside the hole ends before the hole does
  have hliteral : ∀ {quote : Char} {cs : List Char} {n k : Nat}, escapedLength? quote cs = some k →
      n + 1 + k < extent.total → extent.total ≤ n + 1 + cs.length →
      escapedLength? quote (cs.take (extent.total - (n + 1)) ++ more) = some k := by
    intro quote cs n k hk hlt hle
    rw [← take_append_drop (extent.total - (n + 1)) cs] at hk
    exact (settled_escapedLength? quote).append hk (by rw [length_take]; omega) more
  fun_induction holeFrom skip depth expression n cs
  case case1 | case3 | case4 | case6 => cases h
  case case2 ih =>
    have hlt := (holeFrom_lt h).1
    rw [take_sub_cons (by omega), cons_append, holeFrom]
    exact ih h
  case case5 k hk ih | case7 k hk ih =>
    have hlt := holeFrom_lt h
    rw [take_sub_cons (by omega), cons_append, holeFrom, hliteral hk hlt.1 hlt.2, ← ih h]
    simp [*]
  case case10 =>
    cases h
    rw [Nat.add_sub_cancel_left, take_succ_cons, cons_append, holeFrom]
    simp [*]
  case case8 ih | case9 ih | case11 ih | case12 ih | case13 ih =>
    have hlt := (holeFrom_lt h).1
    rw [take_sub_cons (by omega), cons_append, holeFrom, ← ih h]
    simp [*]

theorem holeExtent_append {extent : HoleExtent} (h : holeExtent (w ++ more) = .ok extent)
    (hw : extent.total ≤ w.length) (more' : List Char) :
    holeExtent (w ++ more') = .ok extent := by
  have htake := holeFrom_take h (w.drop extent.total ++ more')
  rwa [Nat.sub_zero, take_append_of_le_length hw, ← append_assoc,
    take_append_drop] at htake

/-- A hole comes after the characters read. -/
theorem start_of_mem_holes {verbatim : Bool} {skip : Nat} {hole : HoleRange}
    (h : hole ∈ (interpolatedFrom verbatim skip n cs).holes) : n < hole.start := by
  fun_induction interpolatedFrom verbatim skip n cs
  case case1 | case3 | case6 | case8 => cases h
  case case2 ih | case4 ih | case5 ih | case7 ih | case10 ih | case11 ih =>
    exact Nat.lt_of_succ_lt (ih h)
  case case9 ih =>
    rcases mem_cons.1 h with rfl | h
    · exact Nat.lt_succ_self _
    · exact Nat.lt_of_succ_lt (ih h)

theorem interpolatedFrom_lt {verbatim : Bool} {skip : Nat}
    (h : (interpolatedFrom verbatim skip n cs).length = .ok k) :
    n + skip < k ∧ k ≤ n + cs.length := by
  fun_induction interpolatedFrom verbatim skip n cs
  case case1 | case3 | case8 => cases h
  case case2 ih | case4 ih | case5 ih | case7 ih | case9 ih | case10 ih | case11 ih =>
    have := ih h
    rw [length_cons]
    omega
  case case6 =>
    cases h
    rw [length_cons]
    omega

/-- A hole ends before its literal does. -/
theorem stop_of_mem_holes {verbatim : Bool} {skip : Nat} {hole : HoleRange}
    (h : hole ∈ (interpolatedFrom verbatim skip n cs).holes)
    (hk : (interpolatedFrom verbatim skip n cs).length = .ok k) : hole.start + hole.length < k := by
  fun_induction interpolatedFrom verbatim skip n cs
  case case1 | case3 | case6 | case8 => cases h
  case case2 ih | case4 ih | case5 ih | case7 ih | case10 ih | case11 ih => exact ih h hk
  case case9 extent hextent _ _ _ _ ih =>
    rcases mem_cons.1 h with rfl | h
    · have hlt := (interpolatedFrom_lt hk).1
      have := expression_lt_total hextent nofun
      show _ + 1 + extent.expression < k
      omega
    · exact ih h hk

/-- The characters of an interpolated literal, and no quote after a verbatim one, settle its
extent. -/
theorem interpolatedFrom_take {verbatim : Bool} {skip : Nat}
    (h : (interpolatedFrom verbatim skip n cs).length = .ok k) :
    (verbatim = true → (cs.drop (k - n)).head? ≠ some '"')
      ∧ ∀ more, (verbatim = true → more.head? ≠ some '"') →
        interpolatedFrom verbatim skip n (cs.take (k - n) ++ more)
          = interpolatedFrom verbatim skip n cs := by
  -- the literal goes on, so what comes next is part of it
  have hhead : ∀ {cs more : List Char} {n : Nat}, n + 1 < k → k ≤ n + 1 + cs.length →
      (cs.take (k - (n + 1)) ++ more).head? = cs.head? := by
    intro cs more n hlt hle
    cases cs with
    | nil =>
      rw [length_nil] at hle
      omega
    | cons d cs => rw [show k - (n + 1) = k - (n + 2) + 1 by omega, take_succ_cons]; rfl
  fun_induction interpolatedFrom verbatim skip n cs
  case case1 | case3 | case8 => cases h
  case case2 ih | case4 ih | case5 ih | case7 ih | case10 ih | case11 ih =>
    obtain ⟨hskip, hle⟩ := interpolatedFrom_lt h
    have hlt := Nat.lt_of_le_of_lt (Nat.le_add_right _ _) hskip
    rw [drop_sub_cons (Nat.le_of_lt hlt)]
    refine ⟨(ih h).1, fun more hmore => ?_⟩
    rw [take_sub_cons (Nat.le_of_lt hlt), cons_append, ← (ih h).2 more hmore]
    simp [interpolatedFrom, *, hhead hlt hle]
  case case6 n cs hsingle hend hback =>
    cases h
    rw [Nat.add_sub_cancel_left, drop_succ_cons, drop_zero, take_succ_cons,
      take_zero]
    refine ⟨fun hverbatim hquote => hsingle (by simp [hverbatim, hquote]), fun more hmore => ?_⟩
    rw [cons_append, nil_append, interpolatedFrom, if_neg hend, if_neg hback, if_pos rfl,
      if_neg]
    intro hdouble
    rw [Bool.and_eq_true, decide_eq_true_eq] at hdouble
    exact hmore hdouble.1 hdouble.2
  case case9 n cs hsingle extent hextent _ hend hback hquote ih =>
    obtain ⟨hskip, hle⟩ := interpolatedFrom_lt h
    have hlt : n + 1 < k := Nat.lt_of_le_of_lt (Nat.le_add_right _ _) hskip
    rw [drop_sub_cons (Nat.le_of_lt hlt)]
    refine ⟨(ih h).1, fun more hmore => ?_⟩
    have hhole : holeExtent (cs.take (k - (n + 1)) ++ more) = .ok extent := by
      rw [← take_append_drop (k - (n + 1)) cs] at hextent
      exact holeExtent_append hextent (by rw [length_take]; omega) more
    rw [take_sub_cons (Nat.le_of_lt hlt), cons_append, interpolatedFrom, if_neg hend, if_neg hback,
      if_neg hquote, if_pos rfl, hhead hlt hle, if_neg hsingle, hhole]
    dsimp only
    rw [(ih h).2 more hmore]

end SourceBundle
