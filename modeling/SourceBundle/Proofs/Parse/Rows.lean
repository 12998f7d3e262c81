/-
Reading a row of tokens that is known by its signs. A reader takes a row
before another (`Takes`) if it reads just its tokens, wherever these
stand, and what it gives has a property. What is taken in one step after
another is taken as one row (`Takes.bind`), and a look ahead takes the
empty row; so a reader is followed through a written text by naming, at
each of its steps, the part of the row that the step takes.
-/
import SourceBundle.Proofs.Parse.Relocation
import SourceBundle.Proofs.Token.Spelling

namespace SourceBundle

open List Parse

variable {α β : Type} {p : Parse α} {v u : List Sign} {g g' : Sign} {k : Kind} {Q : α → Prop}
  {R : β → Prop}

/-- A reader takes the tokens of the signs `v` if they stand before those of `u`, and what it gives
has a property. -/
def Takes (p : Parse α) (v u : List Sign) (Q : α → Prop) : Prop :=
  ∀ s : ParseState, s.rest.map Token.sign = v ++ u → ∃ a t, p s = .ok (a, t)
    ∧ t.rest = (s.drop v.length).rest ∧ t.last = (s.drop v.length).last ∧ t.eof = s.eof ∧ Q a

-- ===== what is seen

theorem Token.kind_of_sign {t : Token} (h : t.sign = g) : t.kind = g.1 := congrArg Prod.fst h

theorem Token.text_of_sign {t : Token} (h : t.sign = g) : t.text = g.2 := congrArg Prod.snd h

theorem ParseState.sign_ahead {s : ParseState} {i : Nat} (h : s.rest.map Token.sign = v)
    (hi : v[i]? = some g) : (s.ahead i).sign = g := by
  rw [← h, getElem?_map] at hi
  obtain ⟨t, ht, hsign⟩ := Option.map_eq_some_iff.1 hi
  rw [ParseState.ahead, getD_eq_getElem?_getD, ht]
  exact hsign

/-- The bound on steps is met by any reader that takes no more than sixteen of them for a token. -/
theorem ParseState.length_le_bound {s : ParseState} (h : s.rest.map Token.sign = v) :
    16 * (v.length + 1) ≤ s.bound := by
  have := Token.length_le_listWeight s.rest
  rw [← h, length_map, ParseState.bound]
  omega

-- ===== steps

namespace Takes

theorem pure {a : α} (h : Q a) : Takes (pure a : Parse α) [] u Q :=
  fun s _ => ⟨a, s, rfl, rfl, rfl, rfl, h⟩

theorem imp {Q' : α → Prop} (h : Takes p v u Q) (hQ : ∀ a, Q a → Q' a) : Takes p v u Q' := by
  intro s hs
  obtain ⟨a, t, hrun, hrest, hlast, heof, ha⟩ := h s hs
  exact ⟨a, t, hrun, hrest, hlast, heof, hQ a ha⟩

/-- The rows of two steps make one row. -/
theorem bind {f : α → Parse β} (v : List Sign) {w : List Sign} (hp : Takes p v (w ++ u) Q)
    (hf : ∀ a, Q a → Takes (f a) w u R) : Takes (p >>= f) (v ++ w) u R := by
  intro s hs
  rw [append_assoc] at hs
  obtain ⟨a, t, hrun, hrest, hlast, heof, ha⟩ := hp s hs
  have ht : t.rest.map Token.sign = w ++ u := by
    rw [hrest, ParseState.rest_drop, map_drop, hs, drop_left]
  obtain ⟨b, t', hrun', hrest', hlast', heof', hb⟩ := hf a ha t ht
  have hlength : s.rest.length = v.length + w.length + u.length := by
    have := congrArg List.length hs
    simp only [length_map, length_append] at this
    omega
  refine ⟨b, t', (bind_ok hrun).trans hrun', ?_, ?_, heof'.trans heof, hb⟩
  · rw [hrest', ParseState.rest_drop, hrest, ParseState.rest_drop, ParseState.rest_drop,
      drop_drop, length_append]
  · rw [hlast', length_append]
    cases hw : w.length with
    | zero => exact hlast
    | succ m =>
      have hin : m < t.rest.length := by
        rw [hrest, ParseState.rest_drop, length_drop]
        omega
      rw [ParseState.last_drop_succ t hin, ← Nat.add_assoc,
        ParseState.last_drop_succ s (by omega)]
      have hget : t.rest[m] = s.rest[v.length + m] := by
        simp only [hrest, ParseState.rest_drop, getElem_drop]
      rw [hget]

/-- A step that takes nothing. -/
theorem andThen {f : α → Parse β} (hp : Takes p [] (v ++ u) Q) (hf : ∀ a, Q a → Takes (f a) v u R) :
    Takes (p >>= f) v u R :=
  Takes.bind [] hp hf

/-- A step after which nothing is taken. -/
theorem finish {f : α → Parse β} (hp : Takes p v u Q) (hf : ∀ a, Q a → Takes (f a) [] u R) :
    Takes (p >>= f) v u R := by
  rw [← append_nil v]
  exact Takes.bind v hp hf

/-- A reader that looks at the state. -/
theorem look {f : ParseState → Parse β}
    (hf : ∀ s, s.rest.map Token.sign = v ++ u → Takes (f s) v u R) : Takes (get >>= f) v u R := by
  intro s hs
  exact hf s hs s hs

/-- A reader that is given a bound on steps. -/
theorem bounded {f : Nat → Parse β} (hf : ∀ n, 16 * ((v ++ u).length + 1) ≤ n → Takes (f n) v u R) :
    Takes (do f (← get).bound) v u R :=
  .look fun s hs => hf s.bound (s.length_le_bound hs)

/-- A reader that changes nothing but what is recorded beside the tokens. -/
theorem of_aside (h : ∀ s, ∃ a t, p s = .ok (a, t) ∧ t.rest = s.rest ∧ t.last = s.last
    ∧ t.eof = s.eof) : Takes p [] u fun _ => True := by
  intro s _
  obtain ⟨a, t, hrun, hrest, hlast, heof⟩ := h s
  exact ⟨a, t, hrun, hrest, hlast, heof, trivial⟩

end Takes

-- ===== tokens

theorem takes_modify {h : ParseState → ParseState} (hrest : ∀ s, (h s).rest = s.rest)
    (hlast : ∀ s, (h s).last = s.last) (heof : ∀ s, (h s).eof = s.eof) :
    Takes (modify h : Parse Unit) [] u fun _ => True :=
  .of_aside fun s => ⟨(), h s, rfl, hrest s, hlast s, heof s⟩

theorem takes_peek : Takes peek [] (g :: u) (·.sign = g) :=
  fun s hs => ⟨s.ahead 0, s, rfl, rfl, rfl, rfl, s.sign_ahead hs rfl⟩

theorem takes_check (k : Kind) : Takes (check k) [] (g :: u) (· = decide (g.1 = k)) := by
  intro s hs
  refine ⟨_, s, rfl, rfl, rfl, rfl, ?_⟩
  rw [Token.kind_of_sign (s.sign_ahead hs rfl)]

theorem takes_atEnd : Takes atEnd [] (g :: u) (· = decide (g.1 = .eof)) := by
  intro s hs
  refine ⟨_, s, rfl, rfl, rfl, rfl, ?_⟩
  rw [Token.kind_of_sign (s.sign_ahead hs rfl)]

theorem takes_checkBefore (k : Kind) (after : List Kind) :
    Takes (checkBefore k after) [] (g :: g' :: u)
      (· = (decide (g.1 = k) && after.contains g'.1)) := by
  intro s hs
  refine ⟨_, s, rfl, rfl, rfl, rfl, ?_⟩
  rw [Token.kind_of_sign (s.sign_ahead hs rfl), Token.kind_of_sign (s.sign_ahead hs rfl)]

/-- A token of another kind than the first that is looked for. -/
theorem takes_checkBefore_other (after : List Kind) (h : g.1 ≠ k) :
    Takes (checkBefore k after) [] (g :: u) (· = false) := by
  intro s hs
  refine ⟨_, s, rfl, rfl, rfl, rfl, ?_⟩
  rw [Token.kind_of_sign (s.sign_ahead hs rfl), decide_eq_false h, Bool.false_and]

theorem takes_checkWord (word : String) :
    Takes (checkWord word) [] (g :: u) (· = (decide (g.1 = .ident) && decide (g.2 = word))) := by
  intro s hs
  refine ⟨_, s, rfl, rfl, rfl, rfl, ?_⟩
  have hsign : (s.ahead 0).sign = g := s.sign_ahead hs rfl
  rw [Token.isWord, Token.kind_of_sign hsign, Token.text_of_sign hsign]

theorem takes_advance (h : g.1 ≠ .eof) : Takes advance [g] u (·.sign = g) := by
  intro s hs
  have hsign : (s.ahead 0).sign = g := s.sign_ahead hs rfl
  have hkind : (s.ahead 0).kind ≠ .eof := by rw [Token.kind_of_sign hsign]; exact h
  exact ⟨s.ahead 0, s.drop 1, advance_eq hkind, rfl, rfl, rfl, hsign⟩

theorem takes_accept (h : g.1 = k) (hk : k ≠ .eof) : Takes (accept k) [g] u (· = true) := by
  intro s hs
  have hkind : (s.ahead 0).kind = k := by rw [Token.kind_of_sign (s.sign_ahead hs rfl), h]
  exact ⟨true, s.drop 1, accept_taken hkind hk, rfl, rfl, rfl, rfl⟩

theorem leaves_accept (h : g.1 ≠ k) (hk : k ≠ .eof) : Takes (accept k) [] (g :: u) (· = false) := by
  intro s hs
  have hkind : (s.ahead 0).kind ≠ k := by rw [Token.kind_of_sign (s.sign_ahead hs rfl)]; exact h
  exact ⟨false, s, accept_left hkind hk, rfl, rfl, rfl, rfl⟩

theorem takes_expect (what : Expected) (h : g.1 = k) (hk : k ≠ .eof) :
    Takes (expect k what) [g] u (·.sign = g) := by
  intro s hs
  have hsign : (s.ahead 0).sign = g := s.sign_ahead hs rfl
  have hkind : (s.ahead 0).kind = k := by rw [Token.kind_of_sign hsign, h]
  exact ⟨s.ahead 0, s.drop 1, expect_taken hkind hk, rfl, rfl, rfl, hsign⟩

theorem takes_skip : Takes (skip v.length) v u fun _ => True :=
  fun s _ => ⟨(), s.drop v.length, rfl, rfl, rfl, s.eof_drop v.length, trivial⟩

theorem takes_here : Takes here [] u fun _ => True :=
  .of_aside fun s => ⟨_, s, rfl, rfl, rfl, rfl⟩

theorem takes_spanFrom (start : Span) : Takes (spanFrom start) [] u fun _ => True :=
  .of_aside fun s => ⟨_, s, rfl, rfl, rfl, rfl⟩

theorem takes_newMark (span : Option Span) : Takes (newMark span) [] u fun _ => True :=
  .of_aside fun s => ⟨_, { s with nextNode := s.nextNode + 1 }, rfl, rfl, rfl, rfl⟩

theorem takes_markFrom (start : Span) : Takes (markFrom start) [] u fun _ => True :=
  .andThen (takes_spanFrom start) fun _ _ => takes_newMark _

-- ===== choices

/-- Nothing is read before a token of another kind. -/
theorem leaves_whenNext {q : Parse (List β)} (h : g.1 ≠ k) :
    Takes (whenNext k q) [] (g :: u) (· = []) :=
  .andThen (takes_check k) fun b hb => by
    subst hb
    rw [decide_eq_false h]
    exact .pure rfl

theorem takes_whenNext {q : Parse (List β)} {P : List β → Prop} (h : ∃ w, v ++ u = g :: w)
    (hk : g.1 = k) (hq : Takes q v u P) : Takes (whenNext k q) v u P := by
  obtain ⟨w, hw⟩ := h
  refine .andThen (Q := (· = true)) ?_ fun b hb => ?_
  · rw [hw, ← decide_eq_true hk]
    exact takes_check k
  · subst hb
    exact hq

-- ===== evaluation

/-- The token with another kind and text. -/
def Token.signed (t : Token) (g : Sign) (h : g.1 = .ident → Text.Dotless g.2) : Token :=
  { t with kind := g.1, text := g.2, dotless := h }

/-- Tokens of given signs, which are otherwise those of `f`. -/
def signedTokens (f : Nat → Token) : (v : List Sign) →
    (∀ g ∈ v, g.1 = .ident → Text.Dotless g.2) → List Token
  | [], _ => []
  | g :: v, h => (f 0).signed g (h g mem_cons_self) ::
      signedTokens (fun i => f (i + 1)) v fun g' hg' => h g' (mem_cons_of_mem g hg')

theorem signedTokens_sign : ∀ (vs : List Token) hv,
    signedTokens (vs.getD · default) (vs.map Token.sign) hv = vs
  | [], _ => rfl
  | t :: vs, hv => by
    simp only [map_cons, signedTokens, getD_cons_succ, signedTokens_sign vs]
    cases t
    rfl

theorem exists_signedTokens {ts : List Token} (h : ts.map Token.sign = v ++ u) :
    ∃ f hv us, ts = signedTokens f v hv ++ us := by
  obtain ⟨vs, us, rfl, rfl, -⟩ := map_eq_append_iff.1 h
  have hv : ∀ g ∈ vs.map Token.sign, g.1 = .ident → Text.Dotless g.2 := by
    intro g hg
    obtain ⟨t, -, rfl⟩ := mem_map.1 hg
    exact t.dotless
  exact ⟨_, hv, us, congrArg (· ++ us) (signedTokens_sign vs hv).symm⟩

/-- Any tokens of the signs `v` are taken before any of the signs `w`, by evaluation of the reader,
and what it gives passes a test. -/
def Consumes (p : Parse α) (v w : List Sign) (test : α → Bool) : Prop :=
  ∀ f hv us (s : ParseState),
    (p { s with rest := signedTokens f (v ++ w) hv ++ us }).map
        (fun x => (x.2.rest, x.2.last, x.2.eof, test x.1))
      = let t := { s with rest := signedTokens f (v ++ w) hv ++ us }.drop v.length
        .ok (t.rest, t.last, s.eof, true)

theorem Consumes.takes {w : List Sign} {test : α → Bool} (h : Consumes p v w test)
    (hQ : ∀ a, test a = true → Q a) : Takes p v (w ++ u) Q := by
  intro s hs
  rw [← append_assoc] at hs
  obtain ⟨f, hv, us, hrest⟩ := exists_signedTokens hs
  have hrun := h f hv us s
  rw [← hrest] at hrun
  cases hp : p s with
  | error e =>
    rw [hp] at hrun
    cases hrun
  | ok x =>
    rw [hp] at hrun
    simp only [Except.map, Except.ok.injEq, Prod.mk.injEq] at hrun
    obtain ⟨htokens, hlast, heof, htest⟩ := hrun
    exact ⟨x.1, x.2, rfl, htokens, hlast, heof, hQ _ htest⟩

end SourceBundle
