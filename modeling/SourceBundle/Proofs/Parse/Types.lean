/-
Type references, simulated strictly. No reader of types takes a closing
brace, a semicolon or the end, so two texts that agree up to one of them
hold the same type, or the same error.

The readers call each other, so they are simulated together, by
induction on the bound of the left one.
-/
import SourceBundle.Proofs.Parse.Readers

namespace SourceBundle

open Parse

variable {M : Pairing} {loose : Bool} {φ : ParseState → Prop} {n r j : Nat}

-- ===== names

theorem sim_qualifiedName {x y : Token} (hxy : Alike x y) :
    Sim M false Anywhere n 0 0 (qualifiedName x) (fun _ => qualifiedName y) := by
  have htext := Token.text_eq_of_alike hxy
  unfold qualifiedName
  refine Sim.accept rfl ?_ ?_
  · refine Sim.bind (Sim.expect rfl rfl) fun a b hab => Sim.pure ?_
    simp [Token.text_eq_of_alike hab, htext]
  · exact Sim.pure (by simp [htext])

theorem sim_unboundOr {p : Parse (List TypeRef)} {q : Nat → Parse (List TypeRef)}
    (h : Sim M false Anywhere n r j p q) :
    Sim M false Anywhere n r 0 (unboundOr p) (fun m => unboundOr (q m)) := by
  unfold unboundOr
  refine Sim.peek fun x y hxy => ?_
  simp only [← Token.kind_eq_of_alike hxy]
  split
  · exact Sim.bind Sim.skipCommas fun _ _ _ => Sim.pure rfl
  · exact h.of ⟨Nat.le_refl r, Nat.zero_le j⟩

/-- A head takes a token; what it goes on with has the steps of that token. -/
theorem sim_typeHead {tuple arguments : Parse (List TypeRef)} {dotted : TypeRef → Parse TypeRef}
    {tuple' arguments' : Nat → Parse (List TypeRef)} {dotted' : Nat → TypeRef → Parse TypeRef}
    (htuple : Sim M false Anywhere n 16 1 tuple tuple')
    (harguments : Sim M false Anywhere n 16 1 arguments arguments')
    (hdotted : ∀ a b, Alike a b → Sim M false Anywhere n 16 0 (dotted a) (dotted' · b)) :
    Sim M false Anywhere n 0 1 (typeHead tuple arguments dotted)
      (fun m => typeHead (tuple' m) (arguments' m) (dotted' m)) := by
  unfold typeHead
  refine Sim.peek fun x y hxy => ?_
  rw [← Token.kind_eq_of_alike hxy]
  split
  case h_1 hx =>
    refine Sim.taking .lparen rfl (fun s hs => hs.2 ▸ hx) fun _ _ _ => ?_
    refine Sim.bindWithin (by omega) htuple fun a b hab => ?_
    refine Sim.bind (Sim.expect rfl rfl) fun _ _ _ => Sim.pure ?_
    simp [hab]
  case h_2 hx =>
    refine Sim.taking .predefinedType rfl (fun s hs => hs.2 ▸ hx) fun _ _ _ => Sim.pure ?_
    simp [Token.text_eq_of_alike hxy]
  case h_3 hx =>
    refine Sim.taking .ident rfl (fun s hs => hs.2 ▸ hx) fun _ _ _ => ?_
    refine Sim.bind (sim_qualifiedName hxy) fun a b hab => ?_
    obtain ⟨name, qualifier⟩ := a
    obtain ⟨name', qualifier'⟩ := b
    rw [alike_pair] at hab
    refine Sim.bindWithin (by omega) (Sim.whenNext harguments) fun as bs habs => ?_
    exact (hdotted _ _ (by simpa [habs] using hab)).of (by omega)
  case h_4 => exact Sim.unexpected rfl

-- ===== types

/-- The readers of types at a bound. -/
structure TypesSim (M : Pairing) (n : Nat) : Prop where
  type : ∀ a, Sim M false Anywhere n 1 1 (typeWithin n a) (typeWithin · a)
  dotted : ∀ a b, Alike a b → Sim M false Anywhere n 1 0 (dottedWithin n a) (dottedWithin · b)
  suffixes : ∀ c a b, Alike a b →
    Sim M false Anywhere n 1 0 (suffixesWithin n c a) (suffixesWithin · c b)
  tuple : Sim M false Anywhere n 2 1 (tupleWithin n) tupleWithin
  arguments : Sim M false Anywhere n 1 1 (argumentsWithin n) argumentsWithin
  types : Sim M false Anywhere n 2 1 (typesWithin n) typesWithin

namespace TypesSim

variable (h : TypesSim M n)
include h

theorem type_succ (a : Bool) :
    Sim M false Anywhere (n + 1) 1 1 (typeWithin (n + 1) a) (typeWithin · a) := by
  refine Sim.succ (typeWithin.eq_2 a n) (fun m => typeWithin.eq_2 a m) ?_
  refine Sim.here fun _ _ => ?_
  have hhead := sim_typeHead (h.tuple.of (by omega)) (h.arguments.of (by omega))
    fun a b hab => (h.dotted a b hab).of (by omega)
  refine Sim.bind hhead fun a b hab => ?_
  refine Sim.bindWithin (by omega) (h.suffixes _ a b hab) fun a b hab => ?_
  refine Sim.spanFrom fun _ _ => Sim.pure ?_
  rw [alike_typeRef] at hab ⊢
  exact hab

theorem dotted_succ {a b : TypeRef} (hab : Alike a b) :
    Sim M false Anywhere (n + 1) 1 0 (dottedWithin (n + 1) a) (dottedWithin · b) := by
  refine Sim.succ (dottedWithin.eq_2 a n) (fun m => dottedWithin.eq_2 b m) ?_
  refine Sim.checkBefore rfl ?_ (Sim.pure hab)
  refine Sim.taking .dot rfl (fun _ hs => hs.2.1) fun _ _ _ => ?_
  refine Sim.taking .ident rfl ?_ fun x y hxy => ?_
  · rintro _ ⟨s, hs, rfl⟩
    rw [ParseState.ahead_drop_one]
    exact List.mem_singleton.1 hs.2.2
  refine Sim.bindWithin (by omega) (Sim.whenNext h.arguments) fun as bs habs => ?_
  refine (h.dotted _ _ ?_).of (by omega)
  rw [alike_typeRef] at hab ⊢
  simp only [hab.1, Token.text_eq_of_alike hxy, habs, hab, and_self]

theorem suffixes_succ {c : Bool} {a b : TypeRef} (hab : Alike a b) :
    Sim M false Anywhere (n + 1) 1 0 (suffixesWithin (n + 1) c a) (suffixesWithin · c b) := by
  have ⟨hname, hargs, hqualifier, hrank, hnullable, htuple⟩ := alike_typeRef.1 hab
  refine Sim.succ (suffixesWithin.eq_2 c a n) (fun m => suffixesWithin.eq_2 c b m) ?_
  -- the question mark is taken at most once, and if not, the other suffixes are tried
  have hrest : Sim M false Anywhere n 0 0
      (do
        if ← check .star then
          let _ ← advance
          suffixesWithin n c a
        else if c && (← checkBefore .lbracket [.rbracket, .comma]) then
          let _ ← advance
          skipCommas
          let _ ← expect .rbracket .arrayTypeClose
          suffixesWithin n c { a with rank := a.rank + 1 }
        else return a)
      (fun m => do
        if ← check .star then
          let _ ← advance
          suffixesWithin m c b
        else if c && (← checkBefore .lbracket [.rbracket, .comma]) then
          let _ ← advance
          skipCommas
          let _ ← expect .rbracket .arrayTypeClose
          suffixesWithin m c { b with rank := b.rank + 1 }
        else return b) := by
    refine Sim.check ?_ (Sim.checkBefore rfl ?_ ?_)
    · refine Sim.taking .star rfl (fun _ hs => hs.2) fun _ _ _ => ?_
      exact (h.suffixes c a b hab).of (by omega)
    · cases c
      · exact Sim.pure hab
      · refine Sim.taking .lbracket rfl (fun _ hs => hs.2.1) fun _ _ _ => ?_
        refine Sim.bind Sim.skipCommas fun _ _ _ => ?_
        refine Sim.bind (Sim.expect rfl rfl) fun _ _ _ => ?_
        refine (h.suffixes _ _ _ ?_).of (by omega)
        rw [alike_typeRef]
        exact ⟨hname, hargs, hqualifier, congrArg (· + 1) hrank, hnullable, htuple⟩
    · cases c <;> exact Sim.pure hab
  refine Sim.check ?_ (hrest.of (by omega))
  have hmark : (true && !a.nullable && decide (a.rank = 0))
      = (true && !b.nullable && decide (b.rank = 0)) := by rw [hrank, hnullable]
  simp only [← hmark]
  split
  · refine Sim.taking .question rfl (fun _ hs => hs.2) fun _ _ _ => ?_
    refine (h.suffixes _ _ _ ?_).of (by omega)
    rw [alike_typeRef]
    exact ⟨hname, hargs, hqualifier, hrank, rfl, htuple⟩
  · exact hrest.of (by omega)

theorem tuple_succ : Sim M false Anywhere (n + 1) 2 1 (tupleWithin (n + 1)) tupleWithin := by
  refine Sim.succ (tupleWithin.eq_2 n) tupleWithin.eq_2 ?_
  refine Sim.bindWithin (by omega) (h.type true) fun a b hab => ?_
  refine Sim.bind (Sim.accepted rfl) fun _ _ _ => ?_
  refine Sim.accept rfl ?_ (Sim.pure (by simpa using hab))
  exact Sim.bindWithin (by omega) h.tuple fun as bs habs => Sim.pure (by simp [hab, habs])

theorem arguments_succ :
    Sim M false Anywhere (n + 1) 1 1 (argumentsWithin (n + 1)) argumentsWithin := by
  refine Sim.succ (argumentsWithin.eq_2 n) argumentsWithin.eq_2 ?_
  refine Sim.bind (Sim.expect rfl rfl) fun _ _ _ => ?_
  refine Sim.bindWithin (by omega) (sim_unboundOr h.types) fun as bs habs => ?_
  exact Sim.bind (Sim.expect rfl rfl) fun _ _ _ => Sim.pure habs

theorem types_succ : Sim M false Anywhere (n + 1) 2 1 (typesWithin (n + 1)) typesWithin := by
  refine Sim.succ (typesWithin.eq_2 n) typesWithin.eq_2 ?_
  refine Sim.bindWithin (by omega) (h.type true) fun a b hab => ?_
  refine Sim.accept rfl ?_ (Sim.pure (by simpa using hab))
  exact Sim.bindWithin (by omega) h.types fun as bs habs => Sim.pure (by simp [hab, habs])

end TypesSim

theorem typesSim : ∀ n, TypesSim M n
  | 0 => ⟨fun _ => .zero, fun _ _ _ => .zero, fun _ _ _ _ => .zero, .zero, .zero, .zero⟩
  | n + 1 =>
    have h := typesSim n
    ⟨h.type_succ, fun _ _ => h.dotted_succ, fun _ _ _ => h.suffixes_succ, h.tuple_succ,
      h.arguments_succ, h.types_succ⟩

theorem sim_typeRef (a : Bool) : Sim M loose Anywhere n 0 1 (typeRef a) (fun _ => typeRef a) :=
  (Sim.atBound (fun n => (typesSim n).type a) (by decide)).loosen

theorem sim_types : Sim M loose Anywhere n 0 1 types (fun _ => types) :=
  (Sim.atBound (fun n => (typesSim n).types) (by decide)).loosen

/-- Type arguments read the same on both sides, or on neither. -/
theorem sim_typeArgsInExpr :
    Sim M loose Anywhere n 0 0 typeArgsInExpr (fun _ => typeArgsInExpr) where
  goes {s} hs _ _ := by
    have hgo := (typesSim (M := M) s.bound).arguments.goes hs trivial (by
      show 16 * s.weight + 1 ≤ 16 * (s.weight + 1)
      omega)
    unfold typeArgsInExpr
    cases hargs : argumentsWithin s.bound s with
    | error e => exact .stay hs
    | ok x =>
      rw [hargs] at hgo
      simp only
      split
      · exact hgo.mono (Nat.zero_le 1)
      · exact .stay hs
  pairs {ys zs c s t m} hb _ _ _ := by
    have hpq := (typesSim s.bound).arguments.pairs hb trivial
      (by show 16 * s.weight + 1 ≤ 16 * (s.weight + 1); omega)
      (by show 16 * t.weight + 1 ≤ 16 * (t.weight + 1); omega : 16 * t.weight + 1 ≤ t.bound)
    unfold typeArgsInExpr
    generalize argumentsWithin s.bound s = x, argumentsWithin t.bound t = y at hpq
    cases hpq with
    | fail => exact .both rfl hb
    | past hl => cases hl
    | lost hl => cases hl
    | both hab hb' =>
      simp only [← hb'.kind_zero]
      split
      · exact .both hab hb'
      · exact .both rfl hb

end SourceBundle
