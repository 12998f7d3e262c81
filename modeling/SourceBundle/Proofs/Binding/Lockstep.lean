/-
Two runs of the rules go in lockstep (`Lockstep`). From related states
they come to the same result, and to states that are related again; where
they fail, they fail alike, and leave states behind that are related in a
way of their own.

Each rule of binding and resolving goes in lockstep with itself if the
questions that it asks do. A rule reads and changes what is remembered of
the hierarchy and the overloads that were chosen, and nothing else of the
state (`Footing`).
All else that is remembered is read and changed where a question is asked
for the first time (`guarded`, `remembered`), and what that asks of the
relations is said there once.

With a run beside itself this shows what every run keeps.
-/
import SourceBundle.Proofs.Binding.Tracking

namespace SourceBundle

variable {α β : Type}

-- ===== lockstep

/-- Two outcomes agree: they are the same result, and the states are in the relation `R` if this is
a value, and in the relation `E` if it is an error. -/
structure BindM.Agree (R : BindState → BindState → Prop)
    (E : BindError → BindState → BindState → Prop) (o o₀ : Except BindError α × BindState) :
    Prop where
  same : o.1 = o₀.1
  done : ∀ a, o.1 = .ok a → R o.2 o₀.2
  failed : ∀ e, o.1 = .error e → E e o.2 o₀.2

/-- From states in the relation `R`, two pieces of work come to outcomes that agree. -/
def BindM.Lockstep (R : BindState → BindState → Prop)
    (E : BindError → BindState → BindState → Prop) (x y : BindM α) : Prop :=
  ∀ st st₀, R st st₀ → Agree R E (x st) (y st₀)

/-- Related states agree in all that rules read, and stay related when it is changed. -/
structure Footing (R : BindState → BindState → Prop)
    (E : BindError → BindState → BindState → Prop) : Prop where
  bases : ∀ st st₀, R st st₀ → st.bases = st₀.bases
  choices : ∀ st st₀, R st st₀ → st.choices = st₀.choices
  withBases : ∀ st st₀, R st st₀ → ∀ memo : BaseMemo,
    R { st with bases := memo } { st₀ with bases := memo }
  withChoice : ∀ st st₀, R st st₀ → ∀ (node : Nat) (c : Choice),
    R { st with choices := st.choices.insert node c }
      { st₀ with choices := st₀.choices.insert node c }
  fault : ∀ st st₀, R st st₀ → ∀ e : BindError, e.AtElementNumber → E e st st₀

namespace BindM.Lockstep

variable {R : BindState → BindState → Prop} {E : BindError → BindState → BindState → Prop}
  {x y : BindM α} {f g : α → BindM β}

theorem of_pure (a : α) : Lockstep R E (pure a) (pure a) :=
  fun _ _ hrel => ⟨rfl, fun _ _ => hrel, nofun⟩

theorem bind (hx : Lockstep R E x y) (hf : ∀ a, Lockstep R E (f a) (g a)) :
    Lockstep R E (x >>= f) (y >>= g) := by
  intro st st₀ hrel
  have hfirst := hx st st₀ hrel
  cases hrun : (x st).1 with
  | ok a =>
    rw [run_bind_ok hrun, run_bind_ok (hfirst.same.symm.trans hrun)]
    exact hf a _ _ (hfirst.done a hrun)
  | error e =>
    rw [run_bind_error hrun, run_bind_error (hfirst.same.symm.trans hrun)]
    refine ⟨rfl, nofun, fun e' he => ?_⟩
    cases he
    exact hfirst.failed e hrun

/-- A question about the hierarchy. -/
theorem of_bases (hfooting : Footing R E) (z : StateM BaseMemo α) :
    Lockstep R E (BindM.ofBases z) (BindM.ofBases z) := by
  intro st st₀ hrel
  have hbases := hfooting.bases st st₀ hrel
  refine ⟨?_, fun _ _ => ?_, nofun⟩
  · show Except.ok (z st.bases).1 = Except.ok (z st₀.bases).1
    rw [hbases]
  · show R { st with bases := (z st.bases).2 } { st₀ with bases := (z st₀.bases).2 }
    rw [hbases]
    exact hfooting.withBases st st₀ hrel _

/-- A choice is put down. -/
theorem of_choice (hfooting : Footing R E) (node : Nat) (c : Choice) :
    Lockstep R E (modify fun s => { s with choices := s.choices.insert node c } : BindM PUnit)
      (modify fun s => { s with choices := s.choices.insert node c }) :=
  fun st st₀ hrel =>
    ⟨rfl, fun _ _ => hfooting.withChoice st st₀ hrel node c, nofun⟩

/-- A run beside itself keeps what holds of its states. -/
theorem keeps {I : BindState → Prop}
    (h : Lockstep (fun st st₀ => st = st₀ ∧ I st) (fun _ st st₀ => st = st₀ ∧ I st) x y)
    {st : BindState} (hst : I st) : I (x st).2 := by
  have hagree := h st st ⟨rfl, hst⟩
  cases hrun : (x st).1 with
  | ok a => exact (hagree.done a hrun).2
  | error e => exact (hagree.failed e hrun).2

end BindM.Lockstep

-- ===== asking

/-- Questions about expressions with a property go in lockstep. -/
structure Queries.InStep (ix : Index) (P : Expr → Prop) (R : BindState → BindState → Prop)
    (E : BindError → BindState → BindState → Prop) (q q₀ : Queries) : Prop where
  closed : ix.Closed P
  footing : Footing R E
  bind : ∀ e, P e → BindM.Lockstep R E (q.bind e) (q₀.bind e)
  resolve : ∀ e, P e → BindM.Lockstep R E (q.resolve e) (q₀.resolve e)

namespace Queries.InStep

open BindM

variable {ix : Index} {P : Expr → Prop} {R : BindState → BindState → Prop}
  {E : BindError → BindState → BindState → Prop} {q q₀ : Queries}

theorem choice (h : InStep ix P R E q q₀) {e : Expr} (he : P e) :
    Lockstep R E (q.choice e) (q₀.choice e) := by
  refine (h.resolve e he).bind fun _ st st₀ hrel => ?_
  refine ⟨?_, fun _ _ => hrel, nofun⟩
  show Except.ok st.choices[e.node]? = Except.ok st₀.choices[e.node]?
  rw [h.footing.choices st st₀ hrel]

theorem upheld (h : InStep ix P R E q q₀) :
    q.Upheld ix P False (fun _ x y => Lockstep R E x y) q₀ where
  closed := h.closed
  index := False.elim
  pure _ := .of_pure _
  fault e he st st₀ hrel := by
    refine ⟨rfl, nofun, fun _ hfailed => ?_⟩
    cases hfailed
    exact h.footing.fault st st₀ hrel _ he
  goOn hx hf := hx.bind fun a => hf a False.elim
  bases _ _ := .of_bases h.footing _
  bind := h.bind
  resolve := h.resolve
  choice _ := h.choice

theorem bindFresh (h : InStep ix P R E q q₀) {e : Expr} (he : P e) :
    Lockstep R E (ix.bindFresh q e) (ix.bindFresh q₀ e) :=
  h.upheld.bindFresh he

theorem resolveFresh (h : InStep ix P R E q q₀) {e : Expr} (he : P e) :
    Lockstep R E (ix.resolveFresh q e) (ix.resolveFresh q₀ e) :=
  h.upheld.resolveFresh he fun c _ => .of_choice h.footing e.node c

end Queries.InStep

-- ===== steps

namespace BindM

variable {R S : BindState → BindState → Prop} {E F : BindError → BindState → BindState → Prop}
  {node : Nat}

/-- Binding expressions goes in lockstep if both were bound before, or are being bound, or are
worked out in lockstep for the first time. -/
theorem Lockstep.guarded {x y : BindM Binding}
    (hknown : ∀ st st₀, R st st₀ → st.bindings[node]? = st₀.bindings[node]?)
    (hrunning : ∀ st st₀, R st st₀ → (node ∈ st.running ↔ node ∈ st₀.running))
    (hbody : ∀ st st₀, R st st₀ → st₀.bindings[node]? = none → node ∉ st₀.running →
      Agree S F (x (st.entered node)) (y (st₀.entered node)))
    (hdone : ∀ st st₀, S st st₀ → ∀ b, R (st.bound node b) (st₀.bound node b))
    (hfailed : ∀ e st st₀, F e st st₀ → E e (st.left node) (st₀.left node)) :
    Lockstep R E (guarded node x) (guarded node y) := by
  intro st st₀ hrel
  rw [guarded_apply, guarded_apply, hknown st st₀ hrel]
  cases hfresh : st₀.bindings[node]? with
  | some b => exact ⟨rfl, fun _ _ => hrel, nofun⟩
  | none =>
    by_cases hfree : node ∈ st₀.running
    · simp only [if_pos hfree, if_pos ((hrunning st st₀ hrel).2 hfree)]
      exact ⟨rfl, fun _ _ => hrel, nofun⟩
    · simp only [if_neg hfree, if_neg fun h => hfree ((hrunning st st₀ hrel).1 h)]
      obtain ⟨hsame, hok, herror⟩ := hbody st st₀ hrel hfresh hfree
      cases hx : x (st.entered node) with
      | mk outcome st' =>
        cases hy : y (st₀.entered node) with
        | mk outcome₀ st₀' =>
          rw [hx, hy] at hsame hok herror
          cases hsame
          cases outcome with
          | ok b =>
            exact ⟨rfl, fun _ _ => hdone _ _ (hok b rfl) b, nofun⟩
          | error e =>
            refine ⟨rfl, nofun, fun e' he => ?_⟩
            cases he
            exact hfailed _ _ _ (herror e rfl)

/-- Looking references up goes in lockstep if both were looked up before, or are worked out in
lockstep for the first time. -/
theorem Lockstep.remembered {x y : BindM (Option Resolution)}
    (hknown : ∀ st st₀, R st st₀ → st.resolutions[node]? = st₀.resolutions[node]?)
    (hbody : ∀ st st₀, R st st₀ → st₀.resolutions[node]? = none →
      Agree S F (x (st.found node none)) (y (st₀.found node none)))
    (hdone : ∀ st st₀, S st st₀ → ∀ r, R (st.found node r) (st₀.found node r))
    (hfailed : ∀ e st st₀, F e st st₀ → E e st st₀) :
    Lockstep R E (remembered node x) (remembered node y) := by
  intro st st₀ hrel
  rw [remembered_apply, remembered_apply, hknown st st₀ hrel]
  cases hfresh : st₀.resolutions[node]? with
  | some r => exact ⟨rfl, fun _ _ => hrel, nofun⟩
  | none =>
    obtain ⟨hsame, hok, herror⟩ := hbody st st₀ hrel hfresh
    cases hx : x (st.found node none) with
    | mk outcome st' =>
      cases hy : y (st₀.found node none) with
      | mk outcome₀ st₀' =>
        rw [hx, hy] at hsame hok herror
        cases hsame
        cases outcome with
        | ok r => exact ⟨rfl, fun _ _ => hdone _ _ (hok r rfl) r, nofun⟩
        | error e =>
          refine ⟨rfl, nofun, fun e' he => ?_⟩
          cases he
          exact hfailed _ _ _ (herror e rfl)

end BindM

end SourceBundle
