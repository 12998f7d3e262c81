/-
The smallest readers, simulated: looking ahead, taking and expecting
tokens, passing over brackets, marking what was read and recording
locals. A look leaves the state alone and sees alike tokens on both
sides, provided it looks past a token only after finding that the token
is no barrier.
-/
import SourceBundle.Proofs.Parse.Simulation

namespace SourceBundle

open List Parse

variable {α β γ : Type} [Bare α] [Bare β] [Bare γ] {M : Pairing} {loose : Bool}
  {φ : ParseState → Prop} {n r j : Nat}

-- ===== looks

theorem Token.isWord_eq_of_alike {x y : Token} (h : Alike x y) (word : String) :
    x.isWord word = y.isWord word := by
  rw [Token.isWord, Token.isWord, Token.kind_eq_of_alike h, Token.text_eq_of_alike h]

namespace Beside

variable {ys zs : List Token} {c : Kind} {s t : ParseState}

theorem ahead_one (h : Beside M ys zs c s t) (hx : (s.ahead 0).kind ≠ c) :
    M.tok (s.ahead 1) (t.ahead 1) := by
  obtain ⟨x, y, l, l', hs, ht, hl, rfl, rfl⟩ := h.cons
  have htail := hl.tail hx
  rw [ParseState.ahead, ParseState.ahead, hs, ht]
  cases htail <;> assumption

theorem isWord_zero (h : Beside M ys zs c s t) (word : String) :
    (s.ahead 0).isWord word = (t.ahead 0).isWord word :=
  Token.isWord_eq_of_alike (M.alike h.ahead_zero) word

theorem ahead_two (h : Beside M ys zs c s t) (hx : (s.ahead 0).kind ≠ c)
    (hx' : (s.ahead 1).kind ≠ c) : M.tok (s.ahead 2) (t.ahead 2) := by
  obtain ⟨x, y, l, l', hs, ht, hl, rfl, rfl⟩ := h.cons
  have htail := hl.tail hx
  rw [ParseState.ahead, hs] at hx'
  rw [ParseState.ahead, ParseState.ahead, hs, ht]
  cases htail with
  | stop _ hc => exact absurd hc hx'
  | cons _ htail => cases htail <;> assumption

theorem kind_one (h : Beside M ys zs c s t) (hx : (s.ahead 0).kind.isBarrier = false) :
    (s.ahead 1).kind = (t.ahead 1).kind :=
  Token.kind_eq_of_alike (M.alike (h.ahead_one (h.kind_ne hx)))

end Beside

/-- The reader leaves the state alone and sees `v` of it, which is alike on both sides. -/
structure Look (M : Pairing) (φ : ParseState → Prop) (p : Parse γ) (v : ParseState → γ) : Prop where
  eq : ∀ s, p s = .ok (v s, s)
  alike : ∀ {ys zs c s t}, Beside M ys zs c s t → φ s → Alike (v s) (v t)

namespace Sim

/-- What is seen may be used of the state. -/
theorem look {p : Parse γ} {v : ParseState → γ} (h : Look M φ p v) {f : γ → Parse α}
    {g : Nat → γ → Parse α}
    (hf : ∀ x y, Alike x y → Sim M loose (fun s => φ s ∧ v s = x) n r j (f x) (g · y)) :
    Sim M loose φ n r j (p >>= f) (fun m => p >>= g m) where
  goes {s} hs hφs hn := by
    show Goes j s (p s >>= fun x => f x.1 x.2)
    rw [h.eq]
    exact (hf (v s) (v s) rfl).goes hs ⟨hφs, rfl⟩ hn
  pairs {ys zs c s t m} hb hφs hn hm := by
    show Pairs M loose ys zs c (p s >>= fun x => f x.1 x.2) (p t >>= fun x => g m x.1 x.2)
    rw [h.eq, h.eq]
    exact (hf (v s) (v t) (h.alike hb hφs)).pairs hb ⟨hφs, rfl⟩ hn hm

/-- A look at something that is nothing but a place. -/
theorem here {f : Span → Parse α} {g : Nat → Span → Parse α}
    (hf : ∀ x y, Sim M loose φ n r j (f x) (g · y)) :
    Sim M loose φ n r j (Parse.here >>= f) (fun m => Parse.here >>= g m) :=
  look (v := fun s =>
      Span.mk (s.ahead 0).line (s.ahead 0).column (s.ahead 0).line (s.ahead 0).column)
    ⟨fun _ => rfl, fun _ _ => alike_span _ _⟩ fun x y _ => (hf x y).narrow fun _ h => h.1

theorem spanFrom {start start' : Span} {f : Span → Parse α} {g : Nat → Span → Parse α}
    (hf : ∀ x y, Sim M loose φ n r j (f x) (g · y)) :
    Sim M loose φ n r j (Parse.spanFrom start >>= f) (fun m => Parse.spanFrom start' >>= g m) where
  goes hs hφs hn := (hf _ default).goes hs hφs hn
  pairs hb hφs hn hm := (hf _ _).pairs hb hφs hn hm

theorem peek {f : Token → Parse α} {g : Nat → Token → Parse α}
    (hf : ∀ x y, Alike x y → Sim M loose (fun s => φ s ∧ s.ahead 0 = x) n r j (f x) (g · y)) :
    Sim M loose φ n r j (Parse.peek >>= f) (fun m => Parse.peek >>= g m) :=
  look (v := (·.ahead 0)) ⟨fun _ => rfl, fun hb _ => M.alike hb.ahead_zero⟩ hf

/-- A look at the next token, which both may stop at. -/
theorem peekStop {f : Token → Parse α} {g : Nat → Token → Parse α}
    (hf : ∀ (N : Pairing) x y, N.stop x y → Sim N loose φ n r j (f x) (g · y)) :
    Sim M loose φ n r j (Parse.peek >>= f) (fun m => Parse.peek >>= g m) where
  goes {s} hs hφs hn := (hf .plain (s.ahead 0) _ rfl).goes hs hφs hn
  pairs {_ _ _ s t _} hb hφs hn hm :=
    (hf M (s.ahead 0) (t.ahead 0) (M.stops hb.ahead_zero)).pairs hb hφs hn hm

/-- A look that answers yes or no. -/
theorem lookIf {p : Parse Bool} {v : ParseState → Bool} (h : Look M φ p v) {f : Bool → Parse α}
    {g : Nat → Bool → Parse α}
    (ht : Sim M loose (fun s => φ s ∧ v s = true) n r j (f true) (g · true))
    (hf : Sim M loose (fun s => φ s ∧ v s = false) n r j (f false) (g · false)) :
    Sim M loose φ n r j (p >>= f) (fun m => p >>= g m) :=
  look h fun x y hxy => by
    cases alike_bool.1 hxy
    cases x
    · exact hf
    · exact ht

theorem check {k : Kind} {f : Bool → Parse α} {g : Nat → Bool → Parse α}
    (ht : Sim M loose (fun s => φ s ∧ (s.ahead 0).kind = k) n r j (f true) (g · true))
    (hf : Sim M loose (fun s => φ s ∧ (s.ahead 0).kind ≠ k) n r j (f false) (g · false)) :
    Sim M loose φ n r j (Parse.check k >>= f) (fun m => Parse.check k >>= g m) :=
  lookIf (v := fun s => (s.ahead 0).kind = k)
    ⟨fun _ => rfl, fun hb _ => by rw [hb.kind_zero]⟩
    (ht.narrow fun _ h => ⟨h.1, of_decide_eq_true h.2⟩)
    (hf.narrow fun _ h => ⟨h.1, of_decide_eq_false h.2⟩)

end Sim

theorem look_check {k : Kind} : Look M φ (check k) (fun s => (s.ahead 0).kind = k) :=
  ⟨fun _ => rfl, fun hb _ => by rw [hb.kind_zero]⟩

theorem look_atEnd : Look M φ atEnd (fun s => (s.ahead 0).kind = .eof) :=
  ⟨fun _ => rfl, fun hb _ => by rw [hb.kind_zero]⟩

theorem look_checkWord {word : String} :
    Look M φ (checkWord word) (fun s => (s.ahead 0).isWord word) :=
  ⟨fun _ => rfl, fun hb _ => hb.isWord_zero word⟩

theorem Sim.checkBefore {k : Kind} {ks : List Kind} {f : Bool → Parse α} {g : Nat → Bool → Parse α}
    (hk : k.isBarrier = false)
    (ht : Sim M loose (fun s => φ s ∧ (s.ahead 0).kind = k ∧ (s.ahead 1).kind ∈ ks) n r j (f true)
      (g · true))
    (hf : Sim M loose φ n r j (f false) (g · false)) :
    Sim M loose φ n r j (Parse.checkBefore k ks >>= f)
      (fun m => Parse.checkBefore k ks >>= g m) := by
  refine lookIf (v := fun s => (s.ahead 0).kind = k && ks.contains (s.ahead 1).kind)
    ⟨fun _ => rfl, fun {ys zs c s t} hb _ => ?_⟩ (ht.narrow fun s hs => ?_)
    (hf.narrow fun _ hs => hs.1)
  · rw [← hb.kind_zero]
    by_cases h : (s.ahead 0).kind = k
    · rw [hb.kind_one (h ▸ hk)]
    · simp [h]
  · simpa using hs

theorem look_localCount : Look M φ localCount (fun s => s.locals.size) :=
  ⟨fun _ => rfl, fun hb _ => by simpa using hb.locals.length_eq⟩

-- ===== failures

namespace Sim

theorem failAt {fault : ParseFault} {x y : Token} (hfault : fault.isPossible = true)
    (hxy : M.stop x y) :
    Sim M loose φ n r j (Parse.failAt fault x : Parse α) (fun _ => Parse.failAt fault y) where
  goes _ _ _ := hfault
  pairs _ _ _ _ := .fail ⟨rfl, hxy⟩

theorem unexpected {what : Expected} (hwhat : (ParseFault.expected what).isPossible = true) :
    Sim M loose φ n r j (Parse.unexpected what : Parse α) (fun _ => Parse.unexpected what) :=
  peekStop fun _ _ _ hxy => failAt hwhat hxy

-- ===== taking tokens

/-- The next token, which is not the end, is taken; its holes count as tokens. How far the left
reader goes does not depend on what stands for the token on the right. -/
theorem advanceFrom {N : Pairing} {f : Token → Parse α} {g g' : Nat → Token → Parse α}
    (hφ : ∀ s, φ s → (s.ahead 0).kind ≠ .eof)
    (hl : loose = true ∨ ∀ s, φ s → (s.ahead 0).kind.isBarrier = false)
    (hself : ∀ x, x.HolesClosed →
      Sim N loose (fun s' => ∃ s, φ s ∧ s.ahead 0 = x ∧ s' = s.drop 1) n (r + 16 * x.weight)
        (j - 1) (f x) (g' · x))
    (hf : ∀ x y, M.stop x y → x.HolesClosed → y.HolesClosed →
      Sim M loose (fun s' => ∃ s, φ s ∧ s.ahead 0 = x ∧ s' = s.drop 1) n (r + 16 * x.weight)
        (j - 1) (f x) (g · y)) :
    Sim M loose φ n r j (Parse.advance >>= f) (fun m => Parse.advance >>= g m) := by
  have hgoes : ∀ {s : ParseState}, s.Closed → (s.ahead 0).kind ≠ .eof →
      Goes 1 s (.ok (s.ahead 0, s.drop 1))
        ∧ (s.drop 1).weight + (s.ahead 0).weight = s.weight ∧ (s.ahead 0).HolesClosed := by
    intro s hs hx
    refine ⟨⟨1, Nat.le_refl 1, hs.one_lt_length hx, rfl, rfl, rfl⟩, ?_⟩
    obtain ⟨x, l, hsx⟩ := hs.cons
    have hclosed := hs.rest
    rw [ParseState.ahead_zero hsx] at hx ⊢
    rw [hsx, Token.closed_cons hx] at hclosed
    refine ⟨?_, hclosed.1⟩
    rw [ParseState.weight, ParseState.weight, ParseState.rest_drop, hsx, Token.listWeight]
    exact Nat.add_comm _ _
  have hadvance : ∀ {s : ParseState}, (s.ahead 0).kind ≠ .eof →
      Parse.advance s = .ok (s.ahead 0, s.drop 1) := fun h => by
    show (if _ then _ else _) = _
    rw [if_neg h]
  constructor
  case goes =>
    intro s hs hφs hn
    obtain ⟨hgo, hw, hholes⟩ := hgoes hs (hφ s hφs)
    show Goes j s (Parse.advance s >>= fun x => f x.1 x.2)
    rw [hadvance (hφ s hφs)]
    have hgo' := (hself _ hholes).goes (hgo.closed hs) ⟨s, hφs, rfl, rfl⟩ (by omega)
    show Goes j s (f (s.ahead 0) (s.drop 1))
    cases hfs : f (s.ahead 0) (s.drop 1) with
    | error e =>
      rw [hfs] at hgo'
      exact hgo'
    | ok y => exact (hgo.trans (hfs ▸ hgo')).mono (by omega)
  case pairs =>
    intro ys zs c s t m hb hφs hn hm
    have hx := hφ s hφs
    obtain ⟨hgo, hw, hholes⟩ := hgoes hb.left hx
    obtain ⟨-, -, hholes'⟩ := hgoes hb.right (hb.kind_zero ▸ hx)
    show Pairs M loose ys zs c (Parse.advance s >>= fun x => f x.1 x.2)
      (Parse.advance t >>= fun x => g m x.1 x.2)
    rw [hadvance hx, hadvance (hb.kind_zero ▸ hx)]
    show Pairs M loose ys zs c (f (s.ahead 0) (s.drop 1)) (g m (t.ahead 0) (t.drop 1))
    rcases hb.drop_one hx with hb' | ⟨hpast, hkind, hc⟩
    · have := hb.weight_add
      have := hb'.weight_add
      exact (hf _ _ (M.stops hb.ahead_zero) hholes hholes').pairs hb' ⟨s, hφs, rfl, rfl⟩
        (by omega) (by omega)
    · have hloose : loose = true := hl.resolve_right fun hl => by
        have hbarrier := hb.barrier
        rw [← hkind, hl s hφs] at hbarrier
        exact Bool.false_ne_true hbarrier
      have hgo' := (hself _ hholes).goes (hgo.closed hb.left) ⟨s, hφs, rfl, rfl⟩ (by omega)
      cases hfs : f (s.ahead 0) (s.drop 1) with
      | error e => exact .lost hloose hc
      | ok z => exact .past hloose (Nat.le_trans (hfs ▸ hgo').length_le hpast)

/-- The next token is taken, for which one of several pairings may be the one at hand. -/
theorem advanceAmong {S : Pairing → Prop} {f : Token → Parse α} {g : Nat → Token → Parse α}
    (hplain : S .plain) (hM : S M) (hφ : ∀ s, φ s → (s.ahead 0).kind ≠ .eof)
    (hl : loose = true ∨ ∀ s, φ s → (s.ahead 0).kind.isBarrier = false)
    (hf : ∀ N, S N → ∀ x y, N.stop x y → x.HolesClosed → y.HolesClosed →
      Sim N loose (fun s' => ∃ s, φ s ∧ s.ahead 0 = x ∧ s' = s.drop 1) n (r + 16 * x.weight)
        (j - 1) (f x) (g · y)) :
    Sim M loose φ n r j (Parse.advance >>= f) (fun m => Parse.advance >>= g m) :=
  advanceFrom hφ hl (fun x hx => hf .plain hplain x x rfl hx hx) (hf M hM)

theorem advance {f : Token → Parse α} {g : Nat → Token → Parse α}
    (hφ : ∀ s, φ s → (s.ahead 0).kind ≠ .eof)
    (hl : loose = true ∨ ∀ s, φ s → (s.ahead 0).kind.isBarrier = false)
    (hf : ∀ x y, Alike x y → Sim M loose (fun s' => ∃ s, φ s ∧ s.ahead 0 = x ∧ s' = s.drop 1) n
      (r + 16) (j - 1) (f x) (g · y)) :
    Sim M loose φ n r j (Parse.advance >>= f) (fun m => Parse.advance >>= g m) := by
  have hwithin : ∀ x y, Alike x y →
      Sim M loose (fun s' => ∃ s, φ s ∧ s.ahead 0 = x ∧ s' = s.drop 1) n (r + 16 * x.weight) (j - 1)
        (f x) (g · y) := fun x y hxy => by
    have := x.one_le_weight
    exact (hf x y hxy).mono (fun _ h => h) (by omega) (Nat.le_refl _)
  exact advanceFrom hφ hl (fun x _ => hwithin x x rfl) fun x y hxy _ _ =>
    hwithin x y (M.stop_alike hxy)

/-- The next token is taken, unless it is the end. -/
theorem advanceAnyFrom {N : Pairing} {f : Token → Parse α} {g g' : Nat → Token → Parse α}
    (hself : ∀ x, Sim N true Anywhere n r j (f x) (g' · x))
    (hf : ∀ x y, M.stop x y → Sim M true Anywhere n r j (f x) (g · y)) :
    Sim M true φ n r j (Parse.advance >>= f) (fun m => Parse.advance >>= g m) := by
  have hinside : Sim M true (fun s => (s.ahead 0).kind ≠ .eof) n r j (Parse.advance >>= f)
      (fun m => Parse.advance >>= g m) :=
    advanceFrom (fun _ h => h) (.inl rfl) (fun x _ => (hself x).of (by omega))
      fun x y hxy _ _ => (hf x y hxy).of (by omega)
  have hend : ∀ {f : Token → Parse α} {s : ParseState}, (s.ahead 0).kind = .eof →
      (Parse.advance >>= f) s = f (s.ahead 0) s := by
    intro f s hs
    show (Parse.advance s >>= fun x => f x.1 x.2) = _
    rw [show Parse.advance s = .ok (s.ahead 0, s) from if_pos hs]
    rfl
  constructor
  case goes =>
    intro s hs _ hn
    by_cases heof : (s.ahead 0).kind = .eof
    · rw [hend heof]
      exact (hself _).goes hs trivial hn
    · exact hinside.goes hs heof hn
  case pairs =>
    intro ys zs c s t m hb _ hn hm
    by_cases heof : (s.ahead 0).kind = .eof
    · rw [hend heof, hend (hb.kind_zero ▸ heof)]
      exact (hf _ _ (M.stops hb.ahead_zero)).pairs hb trivial hn hm
    · exact hinside.pairs hb heof hn hm

theorem advanceAny {f : Token → Parse α} {g : Nat → Token → Parse α}
    (hf : ∀ x y, Alike x y → Sim M true Anywhere n r j (f x) (g · y)) :
    Sim M true φ n r j (Parse.advance >>= f) (fun m => Parse.advance >>= g m) :=
  advanceAnyFrom (fun x => hf x x rfl) fun x y hxy => hf x y (M.stop_alike hxy)

/-- The next token is taken, unless it is the end, and both may stop at it. -/
theorem advanceStop {f : Token → Parse α} {g : Nat → Token → Parse α}
    (hf : ∀ (N : Pairing) x y, N.stop x y → Sim N true Anywhere n r j (f x) (g · y)) :
    Sim M true φ n r j (Parse.advance >>= f) (fun m => Parse.advance >>= g m) :=
  advanceAnyFrom (fun x => hf .plain x x rfl) (hf M)

/-- The next token is taken, which is known to be of a kind. -/
theorem taking (k : Kind) {f : Token → Parse α} {g : Nat → Token → Parse α}
    (hk : k.isTaken loose = true) (hφ : ∀ s, φ s → (s.ahead 0).kind = k)
    (hf : ∀ x y, Alike x y → Sim M loose (fun s' => ∃ s, φ s ∧ s' = s.drop 1) n (r + 16) (j - 1)
      (f x) (g · y)) :
    Sim M loose φ n r j (Parse.advance >>= f) (fun m => Parse.advance >>= g m) := by
  obtain ⟨hk, hl⟩ := Kind.isTaken_iff.1 hk
  exact advance (fun s hs => hφ s hs ▸ hk) (hl.imp_right fun hk s hs => hφ s hs ▸ hk)
    fun x y hxy => (hf x y hxy).narrow fun _ ⟨s, hs, _, h⟩ => ⟨s, hs, h⟩

/-- A token of a kind is taken, or not. -/
theorem accept {k : Kind} {f : Bool → Parse α} {g : Nat → Bool → Parse α}
    (hk : k.isTaken loose = true)
    (ht : Sim M loose Anywhere n (r + 16) (j - 1) (f true) (g · true))
    (hf : Sim M loose (fun s => φ s ∧ (s.ahead 0).kind ≠ k) n r j (f false) (g · false)) :
    Sim M loose φ n r j (Parse.accept k >>= f) (fun m => Parse.accept k >>= g m) := by
  have h : ∀ {f : Bool → Parse α}, Parse.accept k >>= f
      = Parse.check k >>= fun b => if b then Parse.advance >>= fun _ => f true else f false := by
    intro f
    unfold Parse.accept
    rw [bind_assoc]
    congr
    funext b
    cases b
    · exact pure_bind false f
    · exact (bind_assoc ..).trans (congrArg _ (funext fun _ => pure_bind true f))
  rw [h, show (fun m => Parse.accept k >>= g m) = fun m => _ from funext fun m => h]
  exact check (taking k hk (fun _ hs => hs.2) fun _ _ _ => ht.narrow fun _ _ => trivial) hf

/-- A token of a kind is taken or not, and nothing is made of it here. -/
theorem accepted {k : Kind} (hk : k.isTaken loose = true) :
    Sim M loose Anywhere n 0 0 (Parse.accept k) (fun _ => Parse.accept k) := by
  rw [← bind_pure (Parse.accept k)]
  exact accept hk (Sim.pure rfl) (Sim.pure rfl)

/-- A token of a kind is taken. -/
theorem expect {k : Kind} {what : Expected} (hwhat : (ParseFault.expected what).isPossible = true)
    (hk : k.isTaken loose = true) :
    Sim M loose Anywhere n 0 1 (Parse.expect k what) (fun _ => Parse.expect k what) := by
  unfold Parse.expect
  refine check ?_ (unexpected hwhat)
  rw [if_pos rfl, ← bind_pure Parse.advance]
  exact taking k hk (fun _ hs => hs.2) fun _ _ hxy => Sim.pure hxy

/-- A name is taken. -/
theorem expectName {what : Expected} (hwhat : (ParseFault.expected what).isPossible = true) :
    Sim M loose Anywhere n 0 1 (Parse.expectName what) (fun _ => Parse.expectName what) := by
  unfold Parse.expectName
  refine peek fun x y hxy => ?_
  by_cases hx : x.kind = .ident
  · have hy : y.kind = .ident := Token.kind_eq_of_alike hxy ▸ hx
    simp only [dif_pos hx, dif_pos hy]
    refine taking .ident (by cases loose <;> rfl) (fun s hs => hs.2 ▸ hx) fun _ _ _ => Sim.pure ?_
    exact Subtype.ext (Token.text_eq_of_alike hxy)
  · have hy : y.kind ≠ .ident := Token.kind_eq_of_alike hxy ▸ hx
    simp only [dif_neg hx, dif_neg hy]
    exact unexpected hwhat

-- ===== marks and locals

/-- A step that changes neither what is to come nor what was taken. -/
theorem inner {p q : Parse α} {a : ParseState → α} {f : ParseState → ParseState}
    {b : ParseState → α} {g : ParseState → ParseState}
    (hp : ∀ s, p s = .ok (a s, f s)) (hq : ∀ t, q t = .ok (b t, g t))
    (hf : ∀ s, (f s).rest = s.rest ∧ (f s).last = s.last ∧ (f s).eof = s.eof)
    (hg : ∀ t, (g t).rest = t.rest ∧ (g t).last = t.last ∧ (g t).eof = t.eof)
    (hab : ∀ {s t : ParseState}, Alike s.locals.toList t.locals.toList →
      Alike (a s) (b t) ∧ Alike (f s).locals.toList (g t).locals.toList) :
    Sim M loose Anywhere n 0 0 p (fun _ => q) where
  goes {s} hs _ _ := by
    obtain ⟨hrest, hlast, heof⟩ := hf s
    rw [hp]
    exact ⟨0, Nat.le_refl 0, length_pos_iff.2 hs.rest.ne_nil, hrest, hlast, heof⟩
  pairs {ys zs c s t m} hb _ _ _ := by
    obtain ⟨hrest, hlast, heof⟩ := hf s
    obtain ⟨hrest', hlast', heof'⟩ := hg t
    obtain ⟨hvalue, hlocals⟩ := hab hb.locals
    rw [hp, hq]
    refine .both hvalue ⟨⟨hrest ▸ hb.left.rest, ?_⟩, ⟨hrest' ▸ hb.right.rest, ?_⟩, hb.within, ?_,
      ?_, hlocals⟩
    · rw [hrest, heof, hb.left.eof]
    · rw [hrest', heof', hb.right.eof]
    · rw [hrest, hrest']
      exact hb.rest
    · rw [hlast, hlast']
      exact hb.last

theorem newMark {span span' : Option Span} :
    Sim M loose Anywhere n 0 0 (Parse.newMark span) (fun _ => Parse.newMark span') :=
  inner (fun _ => rfl) (fun _ => rfl) (fun _ => ⟨rfl, rfl, rfl⟩) (fun _ => ⟨rfl, rfl, rfl⟩)
    fun h => ⟨rfl, h⟩

theorem markFrom {start start' : Span} :
    Sim M loose Anywhere n 0 0 (Parse.markFrom start) (fun _ => Parse.markFrom start') :=
  spanFrom fun _ _ => newMark

theorem recordLocal {l l' : LocalDecl} (hl : Alike l l') :
    Sim M loose Anywhere n 0 0 (Parse.recordLocal l) (fun _ => Parse.recordLocal l') :=
  inner (fun _ => rfl) (fun _ => rfl) (fun _ => ⟨rfl, rfl, rfl⟩) (fun _ => ⟨rfl, rfl, rfl⟩)
    fun {s t} h => ⟨by simpa using h.length_eq, by
      simpa only [Array.toList_push] using h.append (alike_cons.2 ⟨hl, alike_nil⟩)⟩

theorem recordLocals {ls ls' : List LocalDecl} (hl : Alike ls ls') :
    Sim M loose Anywhere n 0 0 (Parse.recordLocals ls) (fun _ => Parse.recordLocals ls') :=
  inner (fun _ => rfl) (fun _ => rfl) (fun _ => ⟨rfl, rfl, rfl⟩) (fun _ => ⟨rfl, rfl, rfl⟩)
    fun {s t} h => ⟨rfl, by simpa using h.append hl⟩

theorem updateLocal {i : Nat} {f f' : LocalDecl → LocalDecl}
    (hf : ∀ l l', Alike l l' → Alike (f l) (f' l')) :
    Sim M loose Anywhere n 0 0 (Parse.updateLocal i f) (fun _ => Parse.updateLocal i f') :=
  inner (fun _ => rfl) (fun _ => rfl) (fun _ => ⟨rfl, rfl, rfl⟩) (fun _ => ⟨rfl, rfl, rfl⟩)
    fun {s t} h => ⟨rfl, by
      simp only [Array.toList_modify]
      generalize s.locals.toList = ls, t.locals.toList = ls' at h
      induction ls generalizing ls' i with
      | nil =>
        cases ls' with
        | nil => cases i <;> exact h
        | cons => exact absurd h not_alike_nil_cons
      | cons l ls ih =>
        cases ls' with
        | nil => exact absurd h not_alike_cons_nil
        | cons l' ls' =>
          rw [alike_cons] at h
          cases i with
          | zero => exact alike_cons.2 ⟨hf l l' h.1, h.2⟩
          | succ i => exact alike_cons.2 ⟨h.1, ih ls' h.2⟩⟩

end Sim

-- ===== passing over tokens

namespace Sim

/-- Tokens are passed over, as many as stand before a place that is found in the list. -/
theorem count {p : Parse α} {d : List Token → Nat} {v : List Token → α}
    (hp : ∀ s, p s = .ok (v s.rest, s.drop (d s.rest)))
    (hlt : ∀ l, Token.Closed l → d l < l.length)
    (hpair : ∀ {ys zs c l l'}, c.isBarrier = true → Ahead M ys zs c l l' →
      d l = d l' ∧ Alike (v l) (v l') ∧ ys.length < (l.drop (d l)).length
        ∨ loose = true ∧ (l.drop (d l)).length ≤ ys.length) :
    Sim M loose Anywhere n 0 0 p (fun _ => p) where
  goes {s} hs _ _ := by
    rw [hp]
    exact ⟨_, Nat.zero_le _, hlt _ hs.rest, rfl, rfl, s.eof_drop _⟩
  pairs {ys zs c s t m} hb _ _ _ := by
    rw [hp, hp]
    rcases hpair hb.barrier hb.rest with ⟨hlen, hval, hinside⟩ | ⟨hloose, hpast⟩
    · rcases hb.drop (hlt _ hb.left.rest) with hb' | ⟨hpast, -⟩
      · exact .both hval (hlen ▸ hb')
      · rw [Past, ParseState.rest_drop] at hpast
        omega
    · exact .past hloose (by rwa [Past, ParseState.rest_drop])

end Sim

/-- Two counts of tokens, as a search in two lists side by side finds them. -/
inductive Counts (ys : List Token) (c : Kind) (l : List Token) : Option Nat → Option Nat → Prop
  | both (k : Nat) : Counts ys c l (some k) (some k)
  | neither : Counts ys c l none none
  | past {k : Nat} {y : Option Nat} : (l.drop k).length ≤ ys.length → Counts ys c l (some k) y
  | lost {y : Option Nat} : c ≠ .eof → Counts ys c l none y

theorem Counts.succ {ys l : List Token} {c : Kind} {x : Token} {a b : Option Nat}
    (h : Counts ys c l a b) : Counts ys c (x :: l) (a.map (· + 1)) (b.map (· + 1)) := by
  cases h with
  | both k => exact .both (k + 1)
  | neither => exact .neither
  | past h => exact .past h
  | lost h => exact .lost h

/-- What is found past a barrier. -/
theorem Counts.of_pos {ys : List Token} {c : Kind} {x : Token} {a b : Option Nat} (hc : c ≠ .eof)
    (ha : ∀ k, a = some k → 0 < k) : Counts ys c (x :: ys) a b := by
  cases a with
  | none => exact .lost hc
  | some k =>
    refine .past ?_
    have := ha k rfl
    rw [length_drop, length_cons]
    omega

/-- Tokens are passed over up to a place, if the list has one. -/
theorem Sim.skipBy (fault : ParseFault) {p : Parse Unit} {len? : List Token → Option Nat}
    (hp : ∀ s, p s = match len? s.rest with
      | some k => .ok ((), s.drop k)
      | none => .error ⟨fault, s.eof⟩)
    (hfault : fault.isPossible = true)
    (hlt : ∀ {l k}, Token.Closed l → len? l = some k → j ≤ k ∧ k < l.length)
    (hpair : ∀ {ys zs c l l'}, c.isBarrier = true → Ahead M ys zs c l l' →
      Counts ys c l (len? l) (len? l')) :
    Sim M true Anywhere n 0 j p (fun _ => p) where
  goes {s} hs _ _ := by
    rw [hp]
    cases hlen : len? s.rest with
    | none => exact hfault
    | some k =>
      obtain ⟨hj, hk⟩ := hlt hs.rest hlen
      exact ⟨k, hj, hk, rfl, rfl, s.eof_drop _⟩
  pairs {ys zs c s t m} hb _ _ _ := by
    rw [hp, hp]
    have hcounts := hpair hb.barrier hb.rest
    have hlt' := fun k => @hlt s.rest k hb.left.rest
    generalize len? s.rest = a, len? t.rest = b at hcounts hlt'
    cases hcounts with
    | neither =>
      by_cases hc : c = .eof
      · exact .fail ⟨rfl, M.stops (hb.eof hc)⟩
      · exact .lost rfl hc
    | lost hc => exact .lost rfl hc
    | both k =>
      rcases hb.drop (hlt' k rfl).2 with hb' | ⟨hpast, -⟩
      · exact .both rfl hb'
      · exact .past rfl hpast
    | past hpast => exact .past rfl (by rwa [Past, ParseState.rest_drop])

-- ===== runs of tokens

namespace Ahead

variable {ys zs l l' : List Token} {c : Kind}

/-- A run of tokens ends before the barrier on both sides, or goes past it. -/
theorem takeWhile {f : Token → Bool} (hf : ∀ {x y : Token}, Alike x y → f x = f y)
    (h : Ahead M ys zs c l l') :
    Alike (l.takeWhile f) (l'.takeWhile f) ∧ ys.length < (l.drop (l.takeWhile f).length).length
      ∨ (∃ x : Token, x.kind = c ∧ f x = true)
        ∧ (l.drop (l.takeWhile f).length).length ≤ ys.length := by
  induction h with
  | @stop x y hxy hc =>
    have hfxy := hf (M.alike hxy)
    by_cases hx : f x = true
    · right
      refine ⟨⟨x, hc, hx⟩, ?_⟩
      rw [takeWhile_cons_of_pos hx, length_cons, drop_succ_cons, length_drop]
      omega
    · left
      rw [takeWhile_cons_of_neg hx, takeWhile_cons_of_neg (hfxy ▸ hx)]
      exact ⟨alike_nil, Nat.lt_succ_self _⟩
  | @cons x y l l' hxy h ih =>
    have hfxy := hf (M.alike hxy)
    by_cases hx : f x = true
    · rw [takeWhile_cons_of_pos hx, takeWhile_cons_of_pos (hfxy ▸ hx)]
      refine ih.imp (fun h => ?_) fun h => h
      exact ⟨alike_cons.2 ⟨M.alike hxy, h.1⟩, h.2⟩
    · left
      rw [takeWhile_cons_of_neg hx, takeWhile_cons_of_neg (hfxy ▸ hx)]
      exact ⟨alike_nil, Nat.lt_succ_of_lt h.length_lt⟩

end Ahead

/-- A run that takes no end token ends inside a closed list. -/
theorem Token.Closed.takeWhile_lt {f : Token → Bool}
    (hf : ∀ x : Token, x.kind = .eof → f x = false) :
    ∀ {l : List Token}, Token.Closed l → (l.takeWhile f).length < l.length
  | [], h => h.elim
  | x :: l, h => by
    by_cases hx : f x = true
    · have hkind : x.kind ≠ .eof := fun hkind => by
        rw [hf x hkind] at hx
        exact Bool.false_ne_true hx
      rw [takeWhile_cons_of_pos hx]
      exact Nat.succ_lt_succ (takeWhile_lt hf ((Token.closed_cons hkind).1 h).2)
    · rw [takeWhile_cons_of_neg hx]
      exact Nat.succ_pos _

namespace Sim

/-- A run of tokens that are no barriers is taken. -/
theorem run {p : Parse α} {f : Token → Bool} {v : List Token → α}
    (hp : ∀ s, p s = .ok (v (s.rest.takeWhile f), s.drop (s.rest.takeWhile f).length))
    (hf : ∀ {x y : Token}, Alike x y → f x = f y)
    (hl : loose = true ∧ (∀ x : Token, x.kind = .eof → f x = false)
      ∨ ∀ x : Token, x.kind.isBarrier = true → f x = false)
    (hv : ∀ {u u' : List Token}, Alike u u' → Alike (v u) (v u')) :
    Sim M loose Anywhere n 0 0 p (fun _ => p) := by
  have heof : ∀ x : Token, x.kind = .eof → f x = false := fun x hx => by
    rcases hl with hl | hl
    · exact hl.2 x hx
    · exact hl x (hx ▸ rfl)
  refine count (v := fun l => v (l.takeWhile f)) hp (fun l hl => hl.takeWhile_lt heof)
    fun {ys zs c l l'} hc h => ?_
  rcases h.takeWhile hf with ⟨halike, hinside⟩ | ⟨⟨x, hx, hfx⟩, hpast⟩
  · exact .inl ⟨halike.length_eq, hv halike, hinside⟩
  · right
    refine ⟨?_, hpast⟩
    rcases hl with hl | hl
    · exact hl.1
    · rw [hl x (hx ▸ hc)] at hfx
      exact absurd hfx Bool.false_ne_true

theorem skipCommas : Sim M loose Anywhere n 0 0 Parse.skipCommas (fun _ => Parse.skipCommas) :=
  run (f := fun t => t.kind = .comma) (v := fun _ => ()) (fun _ => rfl)
    (fun h => by simp only [Token.kind_eq_of_alike h])
    (.inr fun x hx => decide_eq_false fun h => by rw [h] at hx; cases hx) fun _ => rfl

theorem takeUntil {kinds : List Kind} :
    Sim M true Anywhere n 0 0 (Parse.takeUntil kinds) (fun _ => Parse.takeUntil kinds) :=
  run (f := fun t => t.kind ≠ .eof && !kinds.contains t.kind) (v := id) (fun _ => rfl)
    (fun h => by simp only [Token.kind_eq_of_alike h]) (.inl ⟨rfl, fun x hx => by simp [hx]⟩)
    fun h => h

end Sim

-- ===== brackets

/-- Brackets that are balanced end with the closing one. -/
theorem balancedLength?_last {opener closer : Kind} : ∀ {depth : Nat} {ts : List Token} {k : Nat},
    balancedLength? opener closer depth ts = some k →
    ∃ i x, k = i + 1 ∧ ts[i]? = some x ∧ x.kind = closer ∧ x.kind ≠ .eof
  | _, [], _, h => by cases h
  | depth, t :: ts, k, h => by
    have hmore : ∀ {depth : Nat}, (balancedLength? opener closer depth ts).map (· + 1) = some k →
        ∃ i x, k = i + 1 ∧ (t :: ts)[i]? = some x ∧ x.kind = closer ∧ x.kind ≠ .eof := by
      intro depth h
      obtain ⟨k', hk', rfl⟩ := Option.map_eq_some_iff.1 h
      obtain ⟨i, x, rfl, hget, hx⟩ := balancedLength?_last hk'
      exact ⟨i + 1, x, rfl, hget, hx⟩
    rw [balancedLength?] at h
    split at h
    · cases h
    next hne =>
    split at h
    · exact hmore h
    split at h
    next hcloser =>
      split at h
      · cases h
        exact ⟨0, t, rfl, rfl, hcloser, hne⟩
      · exact hmore h
    · exact hmore h

theorem Ahead.balancedLength? {ys zs l l' : List Token} {c opener closer : Kind}
    (h : Ahead M ys zs c l l') (depth : Nat) :
    Counts ys c l (balancedLength? opener closer depth l)
      (balancedLength? opener closer depth l') := by
  induction h generalizing depth with
  | @stop x y hxy hx =>
    by_cases hc : c = .eof
    · have hkind : x.kind = .eof := hx.trans hc
      have hkind' : y.kind = .eof := Token.kind_eq_of_alike (M.alike hxy) ▸ hkind
      simp only [SourceBundle.balancedLength?, hkind, hkind', if_true]
      exact .neither
    · refine .of_pos hc fun k hk => ?_
      obtain ⟨i, -, rfl, -⟩ := balancedLength?_last hk
      exact Nat.succ_pos i
  | @cons x y l l' hxy h ih =>
    simp only [SourceBundle.balancedLength?, ← Token.kind_eq_of_alike (M.alike hxy)]
    split
    · exact .neither
    · split
      · exact (ih _).succ
      · split
        · split
          · exact .both 1
          · exact (ih _).succ
        · exact (ih _).succ

theorem Sim.skipBalanced {opener closer : Kind} :
    Sim M true Anywhere n 0 1 (Parse.skipBalanced opener closer)
      (fun _ => Parse.skipBalanced opener closer) :=
  skipBy (.unbalanced opener) (fun s => by
      show (match _ with | some k => Parse.skip k | none => Parse.failAt _ _ : Parse Unit) s = _
      cases balancedLength? opener closer 0 s.rest <;> rfl)
    rfl (fun hl hk => by
      obtain ⟨i, x, rfl, hx, -, hne⟩ := balancedLength?_last hk
      exact ⟨Nat.succ_pos i, hl.succ_lt hx hne⟩)
    fun _ h => h.balancedLength? 0

/-- Sections end with a closing bracket, if there are any. -/
theorem sectionsLength?_last : ∀ {depth : Nat} {ts : List Token} {k : Nat},
    sectionsLength? depth ts = some k →
    (k = 0 ∧ depth = 0) ∨ ∃ i x, k = i + 1 ∧ ts[i]? = some x ∧ x.kind = .rbracket
  | 0, [], _, h => by
    cases h
    exact .inl ⟨rfl, rfl⟩
  | _ + 1, [], _, h => by cases h
  | depth, t :: ts, k, h => by
    have hmore : ∀ {depth' : Nat}, (sectionsLength? depth' ts).map (· + 1) = some k →
        (depth' = 0 → t.kind = .rbracket) →
        ∃ i x, k = i + 1 ∧ (t :: ts)[i]? = some x ∧ x.kind = .rbracket := by
      intro depth' h hdepth
      obtain ⟨k', hk', rfl⟩ := Option.map_eq_some_iff.1 h
      obtain ⟨rfl, hzero⟩ | ⟨i, x, rfl, hget, hx⟩ := sectionsLength?_last hk'
      · exact ⟨0, t, rfl, rfl, hdepth hzero⟩
      · exact ⟨i + 1, x, rfl, hget, hx⟩
    cases depth with
    | zero =>
      rw [sectionsLength?] at h
      split at h
      · exact .inr (hmore h (absurd · (Nat.succ_ne_zero _)))
      · cases h
        exact .inl ⟨rfl, rfl⟩
    | succ depth =>
      rw [sectionsLength?] at h
      split at h
      · cases h
      split at h
      · exact .inr (hmore h (absurd · (Nat.succ_ne_zero _)))
      split at h
      next hclose => exact .inr (hmore h fun _ => hclose)
      · exact .inr (hmore h (absurd · (Nat.succ_ne_zero _)))

theorem sectionsLength?_lt {depth k : Nat} {l : List Token} (hl : Token.Closed l)
    (h : sectionsLength? depth l = some k) : k < l.length := by
  obtain ⟨rfl, -⟩ | ⟨i, x, rfl, hx, hkind⟩ := sectionsLength?_last h
  · exact length_pos_iff.2 hl.ne_nil
  · exact hl.succ_lt hx (by rw [hkind]; decide)

theorem Ahead.sectionsLength? {ys zs l l' : List Token} {c : Kind} (hc : c.isBarrier = true)
    (h : Ahead M ys zs c l l') (depth : Nat) :
    Counts ys c l (sectionsLength? depth l) (sectionsLength? depth l') := by
  induction h generalizing depth with
  | @stop x y hxy hx =>
    have hxy := Token.kind_eq_of_alike (M.alike hxy)
    cases depth with
    | zero =>
      have hne : x.kind ≠ .lbracket := by
        rw [hx]
        rintro rfl
        cases hc
      simp only [SourceBundle.sectionsLength?, ← hxy, if_neg hne]
      exact .both 0
    | succ depth =>
      by_cases hc : c = .eof
      · simp only [SourceBundle.sectionsLength?, ← hxy, hx.trans hc, if_true]
        exact .neither
      · refine .of_pos hc fun k hk => ?_
        obtain ⟨-, hdepth⟩ | ⟨i, -, rfl, -⟩ := sectionsLength?_last hk
        · cases hdepth
        · exact Nat.succ_pos i
  | @cons x y l l' hxy h ih =>
    have hxy := Token.kind_eq_of_alike (M.alike hxy)
    cases depth with
    | zero =>
      simp only [SourceBundle.sectionsLength?, ← hxy]
      split
      · exact (ih _).succ
      · exact .both 0
    | succ depth =>
      simp only [SourceBundle.sectionsLength?, ← hxy]
      split
      · exact .neither
      · split
        · exact (ih _).succ
        · split
          · exact (ih _).succ
          · exact (ih _).succ

/-- At least `k` tokens are taken by passing over sections, if that does not fail. -/
def SectionsFrom (k : Nat) (s : ParseState) : Prop :=
  ∀ k', sectionsLength? 0 s.rest = some k' → k ≤ k'

theorem Parse.skipSections_eq (s : ParseState) :
    Parse.skipSections s = match sectionsLength? 0 s.rest with
      | some k => .ok ((), s.drop k)
      | none => .error ⟨.unbalanced .lbracket, s.eof⟩ := by
  show (match _ with | some k => Parse.skip k | none => Parse.failAt _ _ : Parse Unit) s = _
  cases sectionsLength? 0 s.rest <;> rfl

theorem Sim.skipSectionsFrom {k : Nat} :
    Sim M true (SectionsFrom k) n 0 k Parse.skipSections (fun _ => Parse.skipSections) := by
  have h : Sim M true Anywhere n 0 0 Parse.skipSections (fun _ => Parse.skipSections) :=
    skipBy (.unbalanced .lbracket) Parse.skipSections_eq rfl
      (fun hl hk => ⟨Nat.zero_le _, sectionsLength?_lt hl hk⟩) fun hc h => h.sectionsLength? hc 0
  refine ⟨fun {s} hs hφs _ => ?_, fun hb _ hn hm => h.pairs hb trivial hn hm⟩
  rw [Parse.skipSections_eq]
  cases hlen : sectionsLength? 0 s.rest with
  | none => rfl
  | some k' => exact ⟨k', hφs k' hlen, sectionsLength?_lt hs.rest hlen, rfl, rfl, s.eof_drop _⟩

theorem Sim.skipSections :
    Sim M true Anywhere n 0 0 Parse.skipSections (fun _ => Parse.skipSections) :=
  skipSectionsFrom.narrow fun _ _ _ _ => Nat.zero_le _

-- ===== fixed steps

theorem Token.Closed.lt_length {l : List Token} (h : Token.Closed l) {k : Nat} {d : Token}
    (hk : ∀ i < k, (l.getD i d).kind ≠ .eof) : k < l.length := by
  induction l generalizing k with
  | nil => exact h.elim
  | cons x l ih =>
    cases k with
    | zero => exact Nat.succ_pos _
    | succ k =>
      have hx : x.kind ≠ .eof := hk 0 (Nat.succ_pos k)
      exact Nat.succ_lt_succ (ih ((Token.closed_cons hx).1 h).2 fun i hi =>
        hk (i + 1) (Nat.succ_lt_succ hi))

/-- Some tokens are taken, none of which is the end. -/
theorem Sim.skip {k : Nat} (hφ : ∀ s, φ s → ∀ i < k, (s.ahead i).kind ≠ .eof) :
    Sim M true φ n r k (Parse.skip k) (fun _ => Parse.skip k) where
  goes {s} hs hφs _ :=
    ⟨k, Nat.le_refl k, hs.rest.lt_length (hφ s hφs), rfl, rfl, s.eof_drop k⟩
  pairs {ys zs c s t m} hb hφs _ _ := by
    rcases hb.drop (hb.left.rest.lt_length (hφ s hφs)) with hb' | ⟨hpast, -⟩
    · exact .both rfl hb'
    · exact .past rfl hpast

namespace Sim

theorem skipGroup {opener closer : Kind} :
    Sim M true Anywhere n 0 0 (Parse.skipGroup opener closer)
      (fun _ => Parse.skipGroup opener closer) :=
  check (skipBalanced.of ⟨Nat.zero_le _, Nat.zero_le _⟩) (Sim.pure rfl)

theorem whenNext {k : Kind} {p : Parse (List α)} {q : Nat → Parse (List α)}
    (h : Sim M loose Anywhere n r j p q) :
    Sim M loose Anywhere n r 0 (Parse.whenNext k p) (fun m => Parse.whenNext k (q m)) :=
  check (h.of ⟨Nat.le_refl r, Nat.zero_le j⟩) (Sim.pure rfl)

theorem unlessNext {k : Kind} {p : Parse (List α)} {q : Nat → Parse (List α)}
    (h : Sim M loose Anywhere n r j p q) :
    Sim M loose Anywhere n r 0 (Parse.unlessNext k p) (fun m => Parse.unlessNext k (q m)) :=
  check (Sim.pure rfl) (h.of ⟨Nat.le_refl r, Nat.zero_le j⟩)

theorem whenTaken {k : Kind} {p : Parse (List α)} {q : Nat → Parse (List α)}
    (hk : k.isTaken loose = true) (h : Sim M loose Anywhere n r j p q) :
    Sim M loose Anywhere n (r - 16) 0 (Parse.whenTaken k p) (fun m => Parse.whenTaken k (q m)) :=
  accept hk (h.of ⟨by omega, Nat.zero_le j⟩) (Sim.pure rfl)

end Sim

end SourceBundle
