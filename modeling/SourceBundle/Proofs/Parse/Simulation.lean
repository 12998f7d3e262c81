/-
Two parses side by side. The one on the left reads some tokens, the one
on the right reads tokens that are alike up to a barrier (a closing
brace, a semicolon or the end) and anything at all past it. As long as
the left one stays before the barrier, the right one does the same and
comes to an alike result: no reader looks past a token of a barrier's
kind before it has taken it.

`Sim` says this of one reader, together with how far it goes: it takes
at least `j` tokens, and with a bound on steps of sixteen for each token
and `r` more it never runs out of steps. The right reader is given as a
function of its own bound, since the two have different amounts to read.

A reader of types never takes a barrier, so its errors come in pairs
too: it is simulated strictly. All others are simulated loosely, which
lets the left one fail or go past a barrier that is not the end.
-/
import SourceBundle.Proofs.Tree.Bare

namespace SourceBundle

open List Parse

-- ===== closed token lists

namespace Token

mutual

/-- The holes of a token are closed token lists. -/
def HolesClosed : Token → Prop
  | { holes := some hs, .. } => AllClosed hs
  | { holes := none, .. } => True
termination_by structural t => t

/-- The list has an end token at its end and nowhere else, and so have all holes in it. -/
def Closed : List Token → Prop
  | [] => False
  | t :: ts => if t.kind = .eof then ts = [] else HolesClosed t ∧ Closed ts
termination_by structural ts => ts

/-- Each of the lists is closed. -/
def AllClosed : List (List Token) → Prop
  | [] => True
  | h :: hs => Closed h ∧ AllClosed hs
termination_by structural hs => hs

end

theorem closed_cons_eof {t : Token} {ts : List Token} (h : t.kind = .eof) :
    Closed (t :: ts) ↔ ts = [] := by
  rw [Closed, if_pos h]

theorem closed_cons {t : Token} {ts : List Token} (h : t.kind ≠ .eof) :
    Closed (t :: ts) ↔ HolesClosed t ∧ Closed ts := by
  rw [Closed, if_neg h]

theorem Closed.ne_nil {ts : List Token} (h : Closed ts) : ts ≠ [] := by
  rintro rfl
  exact h

/-- A token that is not the end is followed by another. -/
theorem Closed.succ_lt {l : List Token} {i : Nat} {x : Token} (h : Closed l)
    (hx : l[i]? = some x) (hne : x.kind ≠ .eof) : i + 1 < l.length := by
  induction l generalizing i with
  | nil => exact h.elim
  | cons y l ih =>
    cases i with
    | zero =>
      cases hx
      exact Nat.succ_lt_succ (length_pos_iff.2 ((closed_cons hne).1 h).2.ne_nil)
    | succ i =>
      by_cases hy : y.kind = .eof
      · rw [(closed_cons_eof hy).1 h] at hx
        cases hx
      · exact Nat.succ_lt_succ (ih ((closed_cons hy).1 h).2 hx)

theorem allClosed_of_holes {t : Token} {hs : List (List Token)} (h : HolesClosed t)
    (hh : t.holes = some hs) : AllClosed hs := by
  obtain ⟨_, _, _, _, _, _, holes, _⟩ := t
  cases hh
  exact h

theorem weight_of_holes {t : Token} {hs : List (List Token)} (hh : t.holes = some hs) :
    t.weight = 1 + holesWeight hs := by
  obtain ⟨_, _, _, _, _, _, holes, _⟩ := t
  cases hh
  rw [weight]

theorem one_le_weight (t : Token) : 1 ≤ t.weight := by
  obtain ⟨_, _, _, _, _, _, holes, _⟩ := t
  cases holes with
  | none => exact Nat.le_refl 1
  | some hs => exact Nat.le_add_right 1 _

theorem length_le_listWeight (ts : List Token) : ts.length ≤ listWeight ts := by
  induction ts with
  | nil => exact Nat.le_refl 0
  | cons t ts ih =>
    rw [listWeight, length_cons]
    have := one_le_weight t
    omega

theorem Closed.weight_pos {ts : List Token} (h : Closed ts) : 0 < listWeight ts :=
  Nat.lt_of_lt_of_le (length_pos_iff.2 h.ne_nil) (length_le_listWeight ts)

theorem listWeight_append (ts us : List Token) :
    listWeight (ts ++ us) = listWeight ts + listWeight us := by
  induction ts with
  | nil => exact (Nat.zero_add _).symm
  | cons t ts ih => rw [cons_append, listWeight, listWeight, ih, Nat.add_assoc]

mutual

theorem weight_bareToken : ∀ t : Token, weight (bareToken t) = weight t
  | { holes := some hs, .. } => congrArg (1 + ·) (holesWeight_bareHoles hs)
  | { holes := none, .. } => rfl
termination_by structural t => t

theorem listWeight_bareTokens : ∀ ts : List Token, listWeight (bareTokens ts) = listWeight ts
  | [] => rfl
  | t :: ts => by
    rw [bareTokens, listWeight, listWeight, weight_bareToken t, listWeight_bareTokens ts]
termination_by structural ts => ts

theorem holesWeight_bareHoles :
    ∀ hs : List (List Token), holesWeight (bareHoles hs) = holesWeight hs
  | [] => rfl
  | h :: hs => by
    rw [bareHoles, holesWeight, holesWeight, listWeight_bareTokens h, holesWeight_bareHoles hs]
termination_by structural hs => hs

end

/-- Alike tokens have alike tokens in their holes. -/
theorem forall₂_holes {t t' : Token} {hs hs' : List (List Token)} (h : Alike t t')
    (hh : t.holes = some hs) (hh' : t'.holes = some hs') :
    List.Forall₂ (List.Forall₂ Alike) hs hs' := by
  have hholes := (alike_token.1 h).2.2
  rw [hh, hh', alike_some] at hholes
  exact hholes.forall₂.imp fun _ _ hlists => hlists.forall₂

theorem weight_eq_of_alike {t t' : Token} (h : Alike t t') : t.weight = t'.weight := by
  rw [← weight_bareToken t, ← weight_bareToken t']
  exact congrArg weight h

end Token

namespace ParseState

/-- How much there is to read, holes included. -/
def weight (s : ParseState) : Nat :=
  Token.listWeight s.rest

/-- The tokens to come are closed by the state's end token. -/
structure Closed (s : ParseState) : Prop where
  rest : Token.Closed s.rest
  eof : s.rest.getLast? = some s.eof

variable {s : ParseState}

theorem Closed.cons (h : s.Closed) : ∃ x l, s.rest = x :: l := by
  cases hs : s.rest with
  | nil => exact absurd hs h.rest.ne_nil
  | cons x l => exact ⟨x, l, rfl⟩

theorem ahead_zero {x : Token} {l : List Token} (h : s.rest = x :: l) : s.ahead 0 = x := by
  rw [ahead, h]
  rfl

/-- Before a token that is not the end there is more than the end to read. -/
theorem Closed.one_lt_length (hs : s.Closed) (h : (s.ahead 0).kind ≠ .eof) : 1 < s.rest.length := by
  obtain ⟨x, l, hx⟩ := hs.cons
  rw [ahead_zero hx] at h
  exact hs.rest.succ_lt (hx ▸ rfl) h

theorem ahead_drop_one (s : ParseState) (k : Nat) : (s.drop 1).ahead k = s.ahead (k + 1) := by
  show (s.rest.drop 1).getD k s.eof = s.rest.getD (k + 1) s.eof
  cases s.rest <;> rfl

theorem rest_drop (s : ParseState) (k : Nat) : (s.drop k).rest = s.rest.drop k := by
  cases k <;> rfl

@[simp] theorem eof_drop (s : ParseState) (k : Nat) : (s.drop k).eof = s.eof := by
  cases k <;> rfl

@[simp] theorem locals_drop (s : ParseState) (k : Nat) : (s.drop k).locals = s.locals := by
  cases k <;> rfl

theorem last_drop_succ {k : Nat} (s : ParseState) (hk : k < s.rest.length) :
    (s.drop (k + 1)).last = some s.rest[k] := by
  show s.rest[k]?.or s.last = some s.rest[k]
  rw [getElem?_eq_getElem hk]
  rfl

theorem drop_succ {k : Nat} (hk : k < s.rest.length) : s.drop (k + 1) = (s.drop k).drop 1 := by
  cases k with
  | zero => rfl
  | succ k =>
    have hget : (s.rest.drop (k + 1))[0]? = some s.rest[k + 1] := by
      rw [getElem?_drop]
      exact getElem?_eq_getElem hk
    show { s with rest := s.rest.drop (k + 2), last := s.rest[k + 1]?.or s.last }
      = { s with rest := (s.rest.drop (k + 1)).drop 1,
                 last := (s.rest.drop (k + 1))[0]?.or (s.rest[k]?.or s.last) }
    rw [hget, drop_drop, getElem?_eq_getElem hk, Option.some_or, Option.some_or]

/-- What is left after some tokens, but not all of them, is closed. -/
theorem Closed.drop {k : Nat} (h : s.Closed) (hk : k < s.rest.length) : (s.drop k).Closed := by
  have hrest : ∀ {l : List Token} {k : Nat}, Token.Closed l → k < l.length →
      Token.Closed (l.drop k) := by
    intro l k hl hk
    induction k generalizing l with
    | zero => exact hl
    | succ k ih =>
      cases l with
      | nil => exact hl.elim
      | cons x l =>
        rw [length_cons] at hk
        by_cases hx : x.kind = .eof
        · rw [(Token.closed_cons_eof hx).1 hl, length_nil] at hk
          omega
        · exact ih ((Token.closed_cons hx).1 hl).2 (by omega)
  refine ⟨?_, ?_⟩
  · rw [rest_drop]
    exact hrest h.rest hk
  · rw [rest_drop, eof_drop, getLast?_drop, if_neg (by omega)]
    exact h.eof

end ParseState

-- ===== how far one goes

/-- The faults that a reading can stop at. There are always steps enough, so that the end of a
file is missed nowhere, a using directive is read only where its word stands, and a literal only
where a value stands. -/
def ParseFault.isPossible : ParseFault → Bool
  | .expected .endOfFile => false
  | .expected .usingWord => false
  | .noLiteral => false
  | _ => true

/-- How many tokens a reader goes from a state: at least `j`, never the end token. A failure is
not for want of steps. -/
def Goes {α : Type} (j : Nat) (s : ParseState) : Except ParseError (α × ParseState) → Prop
  | .ok (_, s') => ∃ k, j ≤ k ∧ k < s.rest.length ∧ s'.rest = (s.drop k).rest
      ∧ s'.last = (s.drop k).last ∧ s'.eof = s.eof
  | .error e => e.fault.isPossible = true

namespace Goes

variable {α β : Type} {j j' : Nat} {s s' s'' : ParseState} {a : α} {b : β}

theorem stay (h : s.Closed) : Goes 0 s (.ok (a, s)) :=
  ⟨0, Nat.le_refl 0, length_pos_iff.2 h.rest.ne_nil, rfl, rfl, rfl⟩

theorem mono {x : Except ParseError (α × ParseState)} (h : Goes j s x) (hj : j' ≤ j) :
    Goes j' s x := by
  match x with
  | .ok _ =>
    obtain ⟨k, hk, h⟩ := h
    exact ⟨k, Nat.le_trans hj hk, h⟩
  | .error _ => exact h

theorem closed (h : Goes j s (.ok (a, s'))) (hs : s.Closed) : s'.Closed := by
  obtain ⟨k, -, hk, hrest, -, heof⟩ := h
  have hdrop := hs.drop hk
  exact ⟨hrest ▸ hdrop.rest, by rw [hrest, heof]; exact s.eof_drop k ▸ hdrop.eof⟩

theorem weight_add_le (h : Goes j s (.ok (a, s'))) : s'.weight + j ≤ s.weight := by
  obtain ⟨k, hj, hk, hrest, -⟩ := h
  rw [ParseState.weight, ParseState.weight, hrest, ParseState.rest_drop]
  have hsplit := Token.listWeight_append (s.rest.take k) (s.rest.drop k)
  rw [take_append_drop] at hsplit
  have hlength := Token.length_le_listWeight (s.rest.take k)
  rw [length_take, Nat.min_eq_left (Nat.le_of_lt hk)] at hlength
  omega

theorem length_le (h : Goes j s (.ok (a, s'))) : s'.rest.length ≤ s.rest.length := by
  obtain ⟨k, -, -, hrest, -⟩ := h
  rw [hrest, ParseState.rest_drop, length_drop]
  omega

theorem length_pos (h : Goes j s (.ok (a, s'))) : 0 < s'.rest.length := by
  obtain ⟨k, -, hk, hrest, -⟩ := h
  rw [hrest, ParseState.rest_drop, length_drop]
  omega

theorem trans (h : Goes j s (.ok (a, s'))) (h' : Goes j' s' (.ok (b, s''))) :
    Goes (j + j') s (.ok (b, s'')) := by
  obtain ⟨k, hj, hk, hrest, hlast, heof⟩ := h
  obtain ⟨k', hj', hk', hrest', hlast', heof'⟩ := h'
  rw [hrest, ParseState.rest_drop, length_drop] at hk'
  refine ⟨k + k', by omega, by omega, ?_, ?_, heof'.trans heof⟩
  · rw [hrest', ParseState.rest_drop, hrest, ParseState.rest_drop, ParseState.rest_drop,
      drop_drop]
  · rw [hlast']
    cases k' with
    | zero => exact hlast
    | succ k' =>
      have hlt : k' < s'.rest.length := by
        rw [hrest, ParseState.rest_drop, length_drop]
        omega
      rw [ParseState.last_drop_succ _ hlt, ← Nat.add_assoc,
        ParseState.last_drop_succ _ (by omega : k + k' < s.rest.length)]
      congr 1
      have hget : s'.rest[k']? = s.rest[k + k']? := by
        rw [hrest, ParseState.rest_drop, getElem?_drop]
      rw [getElem?_eq_getElem hlt, getElem?_eq_getElem (by omega)] at hget
      exact Option.some.inj hget

end Goes

-- ===== pairing

/-- The kinds that no reader looks past before it has taken them. -/
def Kind.isBarrier (k : Kind) : Bool :=
  [.rbrace, .semi, .eof].contains k

/-- Which tokens, and which tokens taken last, stand for each other in two parses, and which tokens
both may stop at: those that stand for each other, and those in their holes. The tokens are paired
up to one of the barriers. -/
structure Pairing where
  tok : Token → Token → Prop
  last : Option Token → Option Token → Prop
  stop : Token → Token → Prop
  barrier : Kind → Bool
  taken : ∀ {x y}, tok x y → last (some x) (some y)
  stops : ∀ {x y}, tok x y → stop x y
  stop_alike : ∀ {x y}, stop x y → Alike x y
  stop_holes : ∀ {x y hs hs'}, stop x y → x.holes = some hs → y.holes = some hs' →
    List.Forall₂ (List.Forall₂ stop) hs hs'
  isBarrier : ∀ {c}, barrier c = true → c.isBarrier = true

namespace Pairing

theorem alike (M : Pairing) {x y : Token} (h : M.tok x y) : Alike x y :=
  M.stop_alike (M.stops h)

/-- The parses may stop at any tokens that are paired, whatever was taken before. -/
def anywhere (tok : Token → Token → Prop) (alike : ∀ {x y}, tok x y → Alike x y)
    (holes : ∀ {x y hs hs'}, tok x y → x.holes = some hs → y.holes = some hs' →
      List.Forall₂ (List.Forall₂ tok) hs hs') : Pairing where
  tok := tok
  last _ _ := True
  stop := tok
  barrier := Kind.isBarrier
  taken _ := trivial
  stops := id
  stop_alike := alike
  stop_holes := holes
  isBarrier := id

/-- The tokens in a hole. -/
def inside (M : Pairing) : Pairing :=
  .anywhere M.stop M.stop_alike M.stop_holes

/-- The parses may stop at any tokens that are alike. -/
def ofAlike (tok : Token → Token → Prop) (last : Option Token → Option Token → Prop)
    (taken : ∀ {x y}, tok x y → last (some x) (some y)) (alike : ∀ {x y}, tok x y → Alike x y) :
    Pairing where
  tok := tok
  last := last
  stop := Alike
  barrier := Kind.isBarrier
  taken := taken
  stops := alike
  stop_alike := id
  stop_holes := Token.forall₂_holes
  isBarrier := id

/-- Tokens that are alike. -/
def plain : Pairing :=
  .anywhere Alike id Token.forall₂_holes

/-- The tokens are paired up to the end only. -/
def whole (M : Pairing) : Pairing :=
  { M with barrier := fun c => c = .eof, isBarrier := fun h => by rw [of_decide_eq_true h]; rfl }

/-- Failures of one kind at tokens that both may stop at. -/
structure Fails (M : Pairing) (e e' : ParseError) : Prop where
  fault : e.fault = e'.fault
  token : M.stop e.token e'.token

end Pairing

/-- Whether a token of the kind may be taken: the end never is, and a barrier only by a reader that
is simulated loosely. -/
def Kind.isTaken (loose : Bool) (k : Kind) : Bool :=
  k ≠ .eof && (loose || !k.isBarrier)

theorem Kind.isTaken_iff {loose : Bool} {k : Kind} :
    k.isTaken loose = true ↔ k ≠ .eof ∧ (loose = true ∨ k.isBarrier = false) := by
  simp [isTaken]

/-- Two token lists that are paired up to a barrier, with `ys` and `zs` past it. -/
inductive Ahead (M : Pairing) (ys zs : List Token) (c : Kind) : List Token → List Token → Prop
  | stop {x y : Token} : M.tok x y → x.kind = c → Ahead M ys zs c (x :: ys) (y :: zs)
  | cons {x y : Token} {l l' : List Token} : M.tok x y → Ahead M ys zs c l l' →
      Ahead M ys zs c (x :: l) (y :: l')

namespace Ahead

variable {M : Pairing} {ys zs l l' : List Token} {c : Kind}

theorem head {x y : Token} (h : Ahead M ys zs c (x :: l) (y :: l')) : M.tok x y := by
  cases h <;> assumption

theorem length_lt (h : Ahead M ys zs c l l') : ys.length < l.length := by
  induction h with
  | stop => exact Nat.lt_succ_self _
  | cons _ _ ih => exact Nat.lt_succ_of_lt ih

/-- A token that is not the barrier is followed by paired tokens. -/
theorem tail {x y : Token} (h : Ahead M ys zs c (x :: l) (y :: l')) (hx : x.kind ≠ c) :
    Ahead M ys zs c l l' := by
  cases h with
  | stop _ hc => exact absurd hc hx
  | cons _ h => exact h

theorem weight_add (h : Ahead M ys zs c l l') :
    Token.listWeight l + Token.listWeight zs = Token.listWeight l' + Token.listWeight ys := by
  have hw : ∀ {x y : Token}, M.tok x y → x.weight = y.weight := fun hxy => Token.weight_eq_of_alike
    (M.alike hxy)
  induction h with
  | stop hxy _ =>
    rw [Token.listWeight, Token.listWeight, hw hxy]
    omega
  | cons hxy _ ih =>
    rw [Token.listWeight, Token.listWeight, hw hxy]
    omega

/-- Past the barrier, or still side by side. -/
theorem drop (h : Ahead M ys zs c l l') (k : Nat) :
    Ahead M ys zs c (l.drop k) (l'.drop k) ∨ (l.drop k).length ≤ ys.length := by
  induction h generalizing k with
  | stop hxy hc =>
    cases k with
    | zero => exact .inl (.stop hxy hc)
    | succ k =>
      right
      rw [drop_succ_cons, length_drop]
      omega
  | cons hxy h ih =>
    cases k with
    | zero => exact .inl (.cons hxy h)
    | succ k => exact ih k

/-- A barrier that is the end is the last token on both sides. -/
theorem last (h : Ahead M ys zs .eof l l') (hl : Token.Closed l) (hl' : Token.Closed l') :
    ∃ x y, ys = [] ∧ l.getLast? = some x ∧ l'.getLast? = some y ∧ M.tok x y := by
  induction h with
  | @stop x y hxy hx =>
    have hy : y.kind = .eof := Token.kind_eq_of_alike (M.alike hxy) ▸ hx
    rw [Token.closed_cons_eof hx] at hl
    rw [Token.closed_cons_eof hy] at hl'
    exact ⟨x, y, hl, hl ▸ rfl, hl' ▸ rfl, hxy⟩
  | @cons x y l l' hxy h ih =>
    have hne : ∀ {u : Token} {us : List Token}, us ≠ [] → Token.Closed (u :: us) →
        Token.Closed us := by
      intro u us hus hu
      by_cases hx : u.kind = .eof
      · exact absurd ((Token.closed_cons_eof hx).1 hu) hus
      · exact ((Token.closed_cons hx).1 hu).2
    have hnil : l ≠ [] := by rintro rfl; cases h
    have hnil' : l' ≠ [] := by rintro rfl; cases h
    obtain ⟨u, v, hys, hu, hv, huv⟩ := ih (hne hnil hl) (hne hnil' hl')
    exact ⟨u, v, hys, by rw [getLast?_cons_of_ne_nil hnil, hu],
      by rw [getLast?_cons_of_ne_nil hnil', hv], huv⟩

end Ahead

/-- Two states side by side before a barrier of kind `c`. -/
structure Beside (M : Pairing) (ys zs : List Token) (c : Kind) (s t : ParseState) : Prop where
  left : s.Closed
  right : t.Closed
  within : M.barrier c = true
  rest : Ahead M ys zs c s.rest t.rest
  last : M.last s.last t.last
  locals : Alike s.locals.toList t.locals.toList

/-- The barrier has been taken. -/
def Past (ys : List Token) (s : ParseState) : Prop :=
  s.rest.length ≤ ys.length

namespace Beside

variable {M : Pairing} {ys zs : List Token} {c : Kind} {s t : ParseState}

theorem barrier (h : Beside M ys zs c s t) : c.isBarrier = true :=
  M.isBarrier h.within

theorem not_past (h : Beside M ys zs c s t) : ¬ Past ys s :=
  Nat.not_le.2 h.rest.length_lt

/-- What stands at the front on both sides. -/
theorem cons (h : Beside M ys zs c s t) :
    ∃ x y l l', s.rest = x :: l ∧ t.rest = y :: l' ∧ Ahead M ys zs c (x :: l) (y :: l')
      ∧ s.ahead 0 = x ∧ t.ahead 0 = y := by
  obtain ⟨x, l, hs⟩ := h.left.cons
  obtain ⟨y, l', ht⟩ := h.right.cons
  exact ⟨x, y, l, l', hs, ht, hs ▸ ht ▸ h.rest, ParseState.ahead_zero hs,
    ParseState.ahead_zero ht⟩

theorem ahead_zero (h : Beside M ys zs c s t) : M.tok (s.ahead 0) (t.ahead 0) := by
  obtain ⟨x, y, l, l', -, -, hl, rfl, rfl⟩ := h.cons
  exact hl.head

theorem kind_zero (h : Beside M ys zs c s t) : (s.ahead 0).kind = (t.ahead 0).kind :=
  Token.kind_eq_of_alike (M.alike h.ahead_zero)

theorem kind_ne (h : Beside M ys zs c s t) {k : Kind} (hk : k.isBarrier = false) : k ≠ c := by
  rintro rfl
  exact absurd h.barrier (by rw [hk]; exact Bool.false_ne_true)

theorem drop_one (h : Beside M ys zs c s t) (hx : (s.ahead 0).kind ≠ .eof) :
    Beside M ys zs c (s.drop 1) (t.drop 1)
      ∨ Past ys (s.drop 1) ∧ (s.ahead 0).kind = c ∧ c ≠ .eof := by
  obtain ⟨x, y, l, l', hs, ht, hl, rfl, rfl⟩ := h.cons
  have hy : (t.ahead 0).kind ≠ .eof := h.kind_zero ▸ hx
  have hlt := h.left.one_lt_length hx
  have hlt' := h.right.one_lt_length hy
  rcases hl.drop 1 with hl' | hpast
  · left
    refine ⟨h.left.drop hlt, h.right.drop hlt', h.within, ?_, ?_, ?_⟩
    · rwa [ParseState.rest_drop, ParseState.rest_drop, hs, ht]
    · rw [ParseState.last_drop_succ s (Nat.lt_of_succ_lt hlt),
        ParseState.last_drop_succ t (Nat.lt_of_succ_lt hlt')]
      simp only [hs, ht]
      exact M.taken hl.head
    · rw [ParseState.locals_drop, ParseState.locals_drop]
      exact h.locals
  · right
    have hc : (s.ahead 0).kind = c := Decidable.byContradiction fun hc =>
      Nat.not_le.2 (hl.tail hc).length_lt hpast
    refine ⟨?_, hc, hc ▸ hx⟩
    rw [Past, ParseState.rest_drop, hs]
    exact hpast

/-- Taking the same number of tokens keeps two states side by side, or goes past the barrier. -/
theorem drop (h : Beside M ys zs c s t) {k : Nat} (hk : k < s.rest.length) :
    Beside M ys zs c (s.drop k) (t.drop k) ∨ Past ys (s.drop k) ∧ c ≠ .eof := by
  induction k with
  | zero => exact .inl h
  | succ k ih =>
    rw [ParseState.drop_succ (Nat.lt_of_succ_lt hk)]
    rcases ih (Nat.lt_of_succ_lt hk) with hb | ⟨hpast, hc⟩
    · have hkt : k < t.rest.length := by
        have hne := hb.right.rest.ne_nil
        rw [ParseState.rest_drop] at hne
        exact Nat.lt_of_not_le fun hle => hne (drop_eq_nil_of_le hle)
      rw [ParseState.drop_succ hkt]
      have hx : ((s.drop k).ahead 0).kind ≠ .eof := by
        intro hx
        obtain ⟨x, y, l, l', hs, -, -, rfl, -⟩ := hb.cons
        have hnil := hb.left.rest
        rw [hs, Token.closed_cons_eof hx] at hnil
        have hlength := congrArg List.length hs
        rw [ParseState.rest_drop, length_drop, hnil] at hlength
        simp only [length_cons, length_nil] at hlength
        omega
      rcases hb.drop_one hx with hb | ⟨hpast, -, hc⟩
      · exact .inl hb
      · exact .inr ⟨hpast, hc⟩
    · right
      refine ⟨?_, hc⟩
      rw [Past, ParseState.rest_drop, length_drop]
      exact Nat.le_trans (Nat.sub_le _ _) hpast

/-- Nothing is past a barrier that is the end. -/
theorem ne_eof_of_past (h : Beside M ys zs c s t) {u : ParseState} (hpast : Past ys u)
    (hpos : 0 < u.rest.length) : c ≠ .eof := by
  rintro rfl
  obtain ⟨-, -, hnil, -⟩ := h.rest.last h.left.rest h.right.rest
  rw [Past, hnil, length_nil] at hpast
  omega

/-- If the barrier is the end, then the end tokens are paired. -/
theorem eof (h : Beside M ys zs c s t) (hc : c = .eof) : M.tok s.eof t.eof := by
  subst hc
  obtain ⟨x, y, -, hx, hy, hxy⟩ := h.rest.last h.left.rest h.right.rest
  rw [h.left.eof] at hx
  rw [h.right.eof] at hy
  cases hx
  cases hy
  exact hxy

theorem weight_add (h : Beside M ys zs c s t) :
    s.weight + Token.listWeight zs = t.weight + Token.listWeight ys :=
  h.rest.weight_add

/-- Whoever takes a token on the left takes as much on the right. -/
theorem weight_add_le {s' t' : ParseState} {j : Nat} (h : Beside M ys zs c s t)
    (h' : Beside M ys zs c s' t') (hj : s'.weight + j ≤ s.weight) : t'.weight + j ≤ t.weight := by
  have := h.weight_add
  have := h'.weight_add
  omega

end Beside

-- ===== results

/-- What two parses come to from states side by side. The left one may be past the barrier or may
fail, if that is let through; else both come to the same. -/
inductive Pairs {α : Type} [Bare α] (M : Pairing) (loose : Bool) (ys zs : List Token) (c : Kind) :
    Except ParseError (α × ParseState) → Except ParseError (α × ParseState) → Prop
  | both {a b : α} {s t : ParseState} : Alike a b → Beside M ys zs c s t →
      Pairs M loose ys zs c (.ok (a, s)) (.ok (b, t))
  | fail {e e' : ParseError} : M.Fails e e' → Pairs M loose ys zs c (.error e) (.error e')
  | past {a : α} {s : ParseState} {y : Except ParseError (α × ParseState)} : loose = true →
      Past ys s → Pairs M loose ys zs c (.ok (a, s)) y
  | lost {e : ParseError} {y : Except ParseError (α × ParseState)} : loose = true → c ≠ .eof →
      Pairs M loose ys zs c (.error e) y

-- ===== simulation

/-- The reader `p`, which has a bound of `n` on its steps, is simulated by `q` at any bound that
is large enough: sixteen steps for each token and `r` more. It takes at least `j` tokens from
each state that `φ` holds of. -/
structure Sim {α : Type} [Bare α] (M : Pairing) (loose : Bool) (φ : ParseState → Prop)
    (n r j : Nat) (p : Parse α) (q : Nat → Parse α) : Prop where
  goes : ∀ {s}, s.Closed → φ s → 16 * s.weight + r ≤ n → Goes j s (p s)
  pairs : ∀ {ys zs c s t m}, Beside M ys zs c s t → φ s → 16 * s.weight + r ≤ n →
    16 * t.weight + r ≤ m → Pairs M loose ys zs c (p s) (q m t)

/-- Nothing is asked of a state. -/
def Anywhere : ParseState → Prop := fun _ => True

namespace Sim

variable {α β : Type} [Bare α] [Bare β] {M : Pairing} {loose : Bool} {φ ψ : ParseState → Prop}
  {n r r' j j' : Nat} {p : Parse α} {q : Nat → Parse α}

theorem mono (h : Sim M loose ψ n r' j' p q) (hφ : ∀ s, φ s → ψ s) (hr : r' ≤ r) (hj : j ≤ j') :
    Sim M loose φ n r j p q where
  goes hs hφs hn := (h.goes hs (hφ _ hφs) (by omega)).mono hj
  pairs hb hφs hn hm := h.pairs hb (hφ _ hφs) (by omega) (by omega)

/-- From fewer states. -/
theorem narrow (h : Sim M loose ψ n r j p q) (hφ : ∀ s, φ s → ψ s) : Sim M loose φ n r j p q :=
  h.mono hφ (Nat.le_refl r) (Nat.le_refl j)

theorem lower (h : Sim M loose φ n r j' p q) (hj : j ≤ j') : Sim M loose φ n r j p q :=
  h.mono (fun _ => id) (Nat.le_refl r) hj

theorem of (h : Sim M loose Anywhere n r' j' p q) (hle : r' ≤ r ∧ j ≤ j') :
    Sim M loose φ n r j p q :=
  h.mono (fun _ _ => trivial) hle.1 hle.2

/-- A strict simulation is a loose one. -/
theorem loosen (h : Sim M false φ n r j p q) : Sim M loose φ n r j p q where
  goes := h.goes
  pairs hb hφs hn hm := by
    have hpq := h.pairs hb hφs hn hm
    generalize p _ = x, q _ _ = y at hpq
    cases hpq with
    | both hab hb' => exact .both hab hb'
    | fail he => exact .fail he
    | past hl => cases hl
    | lost hl => cases hl

/-- There is no reading without a step. -/
theorem zero : Sim M loose φ 0 (r + 1) j p q where
  goes _ _ hn := by omega
  pairs _ _ hn _ := by omega

theorem nowhere (h : ∀ s, ¬ φ s) : Sim M loose φ n r j p q where
  goes _ hφs _ := absurd hφs (h _)
  pairs _ hφs _ _ := absurd hφs (h _)

/-- One step of a bounded reader. -/
theorem succ {p' : Parse α} {q' : Nat → Parse α} (hp : p' = p) (hq : ∀ m, q' (m + 1) = q m)
    (h : Sim M loose φ n r j p q) : Sim M loose φ (n + 1) (r + 1) j p' q' where
  goes hs hφs hn := hp ▸ h.goes hs hφs (by omega)
  pairs {ys zs c s t m} hb hφs hn hm := by
    obtain ⟨m, rfl⟩ : ∃ m', m = m' + 1 := ⟨m - 1, by omega⟩
    rw [hq]
    exact hp ▸ h.pairs hb hφs (by omega) (by omega)

/-- A reader whose bound is that of the state it starts from. -/
theorem atBound {f g : Nat → Parse α} (h : ∀ n, Sim M loose φ n r j (f n) g) (hr : r ≤ 16) :
    Sim M loose φ n 0 j (get >>= fun s => f s.bound) (fun _ => get >>= fun t => g t.bound) where
  goes {s} hs hφs _ := (h s.bound).goes hs hφs (by
    show 16 * s.weight + r ≤ 16 * (s.weight + 1)
    omega)
  pairs {ys zs c s t m} hb hφs _ _ := (h s.bound).pairs hb hφs
    (by show 16 * s.weight + r ≤ 16 * (s.weight + 1); omega)
    (by show 16 * t.weight + r ≤ 16 * (t.weight + 1); omega)

theorem pure {a b : α} (hab : Alike a b) :
    Sim M loose φ n r 0 (pure a : Parse α) (fun _ => (pure b : Parse α)) where
  goes hs _ _ := .stay hs
  pairs hb _ _ _ := .both hab hb

/-- One reader after another. -/
theorem bindFrom {f : α → Parse β} {g : Nat → α → Parse β} (hφ : ∀ s, φ s → ψ s) (hr : r' ≤ r)
    (hp : Sim M loose ψ n r' j' p q)
    (hf : ∀ a b, Alike a b → Sim M loose Anywhere n (r + 16 * j') (j - j') (f a) (g · b)) :
    Sim M loose φ n r j (p >>= f) (fun m => q m >>= g m) where
  goes {s} hs hφs hn := by
    have hgo := hp.goes hs (hφ s hφs) (by omega)
    show Goes j s (p s >>= fun x => f x.1 x.2)
    cases hps : p s with
    | error e =>
      rw [hps] at hgo
      exact hgo
    | ok x =>
      obtain ⟨a, s'⟩ := x
      rw [hps] at hgo
      have hw := hgo.weight_add_le
      have hgo' := (hf a a rfl).goes (hgo.closed hs) trivial (by omega)
      show Goes j s (f a s')
      cases hfs : f a s' with
      | error e =>
        rw [hfs] at hgo'
        exact hgo'
      | ok y => exact (hgo.trans (hfs ▸ hgo')).mono (by omega)
  pairs {ys zs c s t m} hb hφs hn hm := by
    have hgo := hp.goes hb.left (hφ s hφs) (by omega)
    have hpq := hp.pairs hb (hφ s hφs) (by omega) (by omega : 16 * t.weight + r' ≤ m)
    show Pairs M loose ys zs c (p s >>= fun x => f x.1 x.2) (q m t >>= fun x => g m x.1 x.2)
    generalize p s = x, q m t = y at hgo hpq
    cases hpq with
    | @both a b s' t' hab hb' =>
      have hw := hgo.weight_add_le
      have hw' := hb.weight_add_le hb' hw
      show Pairs M loose ys zs c (f a s') (g m b t')
      exact (hf _ _ hab).pairs hb' trivial (by omega) (by omega)
    | fail he => exact .fail he
    | lost hl hc => exact .lost hl hc
    | @past a s' _ hl hpast =>
      -- whatever is read from here on, the left reader stays past the barrier
      have hw := hgo.weight_add_le
      have hgo' := (hf a a rfl).goes (hgo.closed hb.left) trivial (by omega)
      show Pairs M loose ys zs c (f a s') _
      cases hfs : f a s' with
      | error e => exact .lost hl (hb.ne_eof_of_past hpast hgo.length_pos)
      | ok z => exact .past hl (Nat.le_trans (hfs ▸ hgo').length_le hpast)

/-- One reader after another, the first of which needs steps of its own. -/
theorem bindWithin {f : α → Parse β} {g : Nat → α → Parse β} (hr : r' ≤ r)
    (hp : Sim M loose Anywhere n r' j' p q)
    (hf : ∀ a b, Alike a b → Sim M loose Anywhere n (r + 16 * j') (j - j') (f a) (g · b)) :
    Sim M loose φ n r j (p >>= f) (fun m => q m >>= g m) :=
  bindFrom (fun _ _ => trivial) hr hp hf

/-- One reader after another. -/
theorem bind {f : α → Parse β} {g : Nat → α → Parse β} (hp : Sim M loose Anywhere n 0 j' p q)
    (hf : ∀ a b, Alike a b → Sim M loose Anywhere n (r + 16 * j') (j - j') (f a) (g · b)) :
    Sim M loose φ n r j (p >>= f) (fun m => q m >>= g m) :=
  bindWithin (Nat.zero_le r) hp hf

end Sim

end SourceBundle
