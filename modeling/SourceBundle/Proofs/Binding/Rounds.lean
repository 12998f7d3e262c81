/-
What the answers to questions ought to be, said without memory: they are
worked out in rounds (`rounds`), where each round answers the questions
that need nothing but answers of earlier rounds. A question that some
round answers is settled, and the answer stays. One that leads back to
itself, or to an error, never is.
-/
import SourceBundle.Proofs.Binding.Soundness

namespace SourceBundle

/-- What has been worked out: what expressions stand for, and what they refer to with the overload
that was chosen. -/
structure Findings where
  bind : Expr → Option Binding := fun _ => none
  resolve : Expr → Option (Option Resolution × Option Choice) := fun _ => none

namespace Findings

/-- Questions answered from findings; one that has not been worked out is an error. -/
def queries (found : Findings) : Queries where
  bind e :=
    match found.bind e with
    | some b => return b
    | none => throw (.badElementNumber "")
  resolve e :=
    match found.resolve e with
    | some (r, c) => do
      modify fun s => { s with choices := s.choices.alter e.node fun _ => c }
      return r
    | none => throw (.badElementNumber "")

variable {found : Findings} {e : Expr} {st : BindState}

theorem bind_eq_some_of_queries {b : Binding} (h : (found.queries.bind e st).1 = .ok b) :
    found.bind e = some b ∧ (found.queries.bind e st).2 = st := by
  simp only [queries] at h ⊢
  cases hbind : found.bind e with
  | none =>
    rw [hbind] at h
    cases h
  | some b' =>
    rw [hbind] at h
    cases h
    exact ⟨rfl, rfl⟩

theorem resolve_eq_some_of_queries {r : Option Resolution}
    (h : (found.queries.resolve e st).1 = .ok r) :
    ∃ c, found.resolve e = some (r, c)
      ∧ (found.queries.resolve e st).2
          = { st with choices := st.choices.alter e.node fun _ => c } := by
  simp only [queries] at h ⊢
  cases hresolve : found.resolve e with
  | none =>
    rw [hresolve] at h
    cases h
  | some a =>
    rw [hresolve] at h
    cases h
    exact ⟨a.2, rfl, rfl⟩

end Findings

theorem Queries.choice_of_ok {q : Queries} {e : Expr} {st : BindState} {r : Option Resolution}
    (h : (q.resolve e st).1 = .ok r) :
    q.choice e st = (.ok (q.resolve e st).2.choices[e.node]?, (q.resolve e st).2) :=
  BindM.run_bind_ok h

theorem Queries.choice_snd (q : Queries) (e : Expr) (st : BindState) :
    (q.choice e st).2 = (q.resolve e st).2 := by
  cases hrun : (q.resolve e st).1 with
  | ok r => rw [Queries.choice_of_ok hrun]
  | error err => exact congrArg Prod.snd (BindM.run_bind_error hrun)

theorem Queries.exists_resolve_of_choice {q : Queries} {e : Expr} {st : BindState}
    {c : Option Choice} (h : (q.choice e st).1 = .ok c) :
    ∃ r, (q.resolve e st).1 = .ok r ∧ (q.resolve e st).2.choices[e.node]? = c := by
  cases hrun : (q.resolve e st).1 with
  | ok r =>
    rw [Queries.choice_of_ok hrun] at h
    exact ⟨r, rfl, Except.ok.inj h⟩
  | error err =>
    have herror : q.choice e st = (.error err, (q.resolve e st).2) := BindM.run_bind_error hrun
    rw [herror] at h
    cases h

namespace Index

/-- What an expression stands for, worked out from findings and nothing else. -/
def bindFrom (ix : Index) (found : Findings) (e : Expr) : Option Binding :=
  (ix.bindFresh found.queries e {}).1.toOption

/-- What an expression refers to, and the overload that was chosen, worked out from findings and
nothing else. -/
def resolveFrom (ix : Index) (found : Findings) (e : Expr) :
    Option (Option Resolution × Option Choice) :=
  let outcome := ix.resolveFresh found.queries e {}
  outcome.1.toOption.map fun r => (r, outcome.2.choices[e.node]?)

/-- What has been worked out after some rounds. What was found in one round stays. -/
def rounds (ix : Index) : Nat → Findings
  | 0 => {}
  | n + 1 =>
    let found := ix.rounds n
    { bind := fun e => (found.bind e).or (ix.bindFrom found e)
      resolve := fun e => (found.resolve e).or (ix.resolveFrom found e) }

end Index

/-- Findings of one kind over the rounds: each round adds what it works out, where nothing was found
before. -/
structure Grows {α : Type} (found worked : Nat → Option α) : Prop where
  zero : found 0 = none
  succ : ∀ n, found (n + 1) = (found n).or (worked n)

namespace Grows

variable {α : Type} {found worked : Nat → Option α} (h : Grows found worked)
include h

theorem mono {n m : Nat} (hnm : n ≤ m) {a : α} (ha : found n = some a) : found m = some a := by
  induction hnm with
  | refl => exact ha
  | step _ ih =>
    rw [h.succ, ih]
    rfl

theorem eq_none_of_le {n m : Nat} (hnm : n ≤ m) (hm : found m = none) : found n = none := by
  cases hn : found n with
  | none => rfl
  | some a =>
    rw [h.mono hnm hn] at hm
    cases hm

/-- What was found was worked out in some round. -/
theorem exists_round {n : Nat} {a : α} (ha : found n = some a) :
    ∃ k < n, found k = none ∧ worked k = some a := by
  induction n with
  | zero =>
    rw [h.zero] at ha
    cases ha
  | succ n ih =>
    rw [h.succ] at ha
    cases hn : found n with
    | some a' =>
      rw [hn] at ha
      obtain ⟨k, hk, hround⟩ := ih (hn.trans ha)
      exact ⟨k, Nat.lt_succ_of_lt hk, hround⟩
    | none =>
      rw [hn] at ha
      exact ⟨n, Nat.lt_succ_self n, hn, ha⟩

theorem unique {n m : Nat} {a a' : α} (ha : found n = some a) (ha' : found m = some a') :
    a = a' := by
  have hmax := h.mono (Nat.le_max_left n m) ha
  rw [h.mono (Nat.le_max_right n m) ha'] at hmax
  exact (Option.some.inj hmax).symm

end Grows

namespace Index

theorem grows_bind (ix : Index) (e : Expr) :
    Grows (fun n => (ix.rounds n).bind e) (fun n => ix.bindFrom (ix.rounds n) e) :=
  ⟨rfl, fun _ => rfl⟩

theorem grows_resolve (ix : Index) (e : Expr) :
    Grows (fun n => (ix.rounds n).resolve e) (fun n => ix.resolveFrom (ix.rounds n) e) :=
  ⟨rfl, fun _ => rfl⟩

end Index

end SourceBundle
