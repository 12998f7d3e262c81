/-
One way to answer questions tracks another (`Tracks`). From states that
are related, where the other comes to an answer, the first comes to the
same answer; and from good states it leads to good states, whether the
other comes to an answer or not. The two are independent of each other.

Each rule of binding and resolving tracks itself if the questions that
it asks are tracked, since tracking is upheld by all that a rule does:
the hierarchy it asks about is steady, and what it goes on from is
declared. What is asked about are always expressions of the workspace
(`Pool`): those inside the one at hand and the one around it, the
initializers of locals, and what a lambda is handed to.
-/
import SourceBundle.Proofs.Binding.Rules

namespace SourceBundle

variable {α β : Type}

-- ===== tracking

/-- From good states work leads to good states. From related ones, where other work comes to a
result, it comes to the same result, and the states are related again. -/
structure BindM.Tracks (G : BindState → Prop) (R : BindState → BindState → Prop)
    (x y : BindM α) : Prop where
  keeps : ∀ st, G st → G (x st).2
  follows : ∀ st st₀, R st st₀ → ∀ a, (y st₀).1 = .ok a →
    (x st).1 = .ok a ∧ R (x st).2 (y st₀).2

/-- A state that is good or related to another. -/
def BindState.SetsOut (G : BindState → Prop) (R : BindState → BindState → Prop)
    (st : BindState) : Prop :=
  G st ∨ ∃ st₀, R st st₀

/-- Work sets out from states about what is declared, and may change what is remembered of the
hierarchy as long as it is right. -/
structure Pact (ds : Declarations) (G : BindState → Prop) (R : BindState → BindState → Prop) :
    Prop where
  sound : ∀ st : BindState, st.SetsOut G R → st.Sound ds
  right : ∀ st : BindState, st.SetsOut G R → st.bases.Right ds
  right₀ : ∀ st st₀ : BindState, R st st₀ → st₀.bases.Right ds
  withBases : ∀ st (memo : BaseMemo), G st → memo.Right ds → G { st with bases := memo }
  withBases₀ : ∀ st st₀ (memo memo₀ : BaseMemo), R st st₀ → memo.Right ds → memo₀.Right ds →
    R { st with bases := memo } { st₀ with bases := memo₀ }

namespace BindM.Tracks

variable {G : BindState → Prop} {R : BindState → BindState → Prop} {x y : BindM α}
  {f g : α → BindM β}

theorem of_pure (a : α) : Tracks G R (pure a) (pure a) where
  keeps _ hst := hst
  follows _ _ hrel _ h := ⟨h, hrel⟩

theorem of_throw (e : BindError) : Tracks G R (throw e : BindM α) (throw e) where
  keeps _ hst := hst
  follows _ _ _ _ h := nomatch h

/-- Work goes on from results with a property. -/
theorem bindOf {P : α → Prop} (hx : Tracks G R x y)
    (hP : ∀ st : BindState, st.SetsOut G R → ∀ a, (x st).1 = .ok a → P a)
    (hf : ∀ a, P a → Tracks G R (f a) (g a)) : Tracks G R (x >>= f) (y >>= g) where
  keeps st hst := by
    cases hrun : (x st).1 with
    | ok a =>
      rw [run_bind_ok hrun]
      exact (hf a (hP st (.inl hst) a hrun)).keeps _ (hx.keeps st hst)
    | error e =>
      rw [run_bind_error hrun]
      exact hx.keeps st hst
  follows st st₀ hrel b hb := by
    cases hrun : (y st₀).1 with
    | ok a =>
      obtain ⟨ha, hrel'⟩ := hx.follows st st₀ hrel a hrun
      rw [run_bind_ok hrun] at hb ⊢
      rw [run_bind_ok ha]
      exact (hf a (hP st (.inr ⟨st₀, hrel⟩) a ha)).follows _ _ hrel' b hb
    | error e =>
      rw [run_bind_error hrun] at hb
      cases hb

/-- A question about the hierarchy has one answer. -/
theorem of_bases {ds : Declarations} (hpact : Pact ds G R) {z : StateM BaseMemo α}
    (hz : Steady ds z) : Tracks G R (BindM.ofBases z) (BindM.ofBases z) where
  keeps st hst := hpact.withBases st _ hst (hz.keeps _ (hpact.right st (.inl hst)))
  follows st st₀ hrel a ha := by
    have hright := hpact.right st (.inr ⟨st₀, hrel⟩)
    have hright₀ := hpact.right₀ st st₀ hrel
    refine ⟨?_, hpact.withBases₀ st st₀ _ _ hrel (hz.keeps _ hright) (hz.keeps _ hright₀)⟩
    rw [← ha]
    exact congrArg Except.ok (hz.same _ _ hright hright₀)

end BindM.Tracks

-- ===== pools

/-- Some expressions hold all those that answering a question about one of them asks about. -/
structure Index.Pool (ix : Index) (pool : List Expr) : Prop where
  children : ∀ e ∈ pool, ∀ c ∈ e.children, c ∈ pool
  parents : ∀ (node : Nat) (p : Expr), ix.places.parents[node]? = some p → p ∈ pool
  lambdaSources : ∀ (node : Nat) (s : Expr), ix.places.lambdaSources[node]? = some s → s ∈ pool
  locals : ∀ (node : Nat) (site : Site), ix.places.sites[node]? = some site →
    ∀ symbols ∈ site.scope, ∀ l ∈ symbols, ∀ d ∈ l.decl, ∀ init ∈ d.init, init ∈ pool

theorem Index.Pool.closed {ix : Index} {pool : List Expr} (h : ix.Pool pool) :
    ix.Closed (· ∈ pool) :=
  ⟨h.children, h.parents, h.lambdaSources, h.locals⟩

/-- Questions about the expressions of a pool are tracked. -/
structure Queries.Tracked (ix : Index) (pool : List Expr) (G : BindState → Prop)
    (R : BindState → BindState → Prop) (q q₀ : Queries) : Prop where
  index : ix.Sound
  uniform : ix.Uniform
  closed : ix.Pool pool
  pact : Pact ix G R
  sound : q.Sound ix
  bind : ∀ e ∈ pool, BindM.Tracks G R (q.bind e) (q₀.bind e)
  resolve : ∀ e ∈ pool, BindM.Tracks G R (q.resolve e) (q₀.resolve e)
  choice : ∀ e ∈ pool, BindM.Tracks G R (q.choice e) (q₀.choice e)

namespace Queries.Tracked

open BindM

variable {ix : Index} {pool : List Expr} {G : BindState → Prop}
  {R : BindState → BindState → Prop} {q q₀ : Queries}

/-- Putting down a choice for a node is tracked. -/
def Chooses (ds : Declarations) (G : BindState → Prop) (R : BindState → BindState → Prop)
    (node : Nat) : Prop :=
  ∀ c : Choice, c.Known ds →
    Tracks G R (modify fun s => { s with choices := s.choices.insert node c } : BindM PUnit)
      (modify fun s => { s with choices := s.choices.insert node c })

theorem upheld (h : Tracked ix pool G R q q₀) :
    q.Upheld ix (· ∈ pool) True (fun Q x y => Tracks G R x y ∧ Keeps ix Q x) q₀ where
  closed := h.closed.closed
  index _ := h.index
  pure ha := ⟨.of_pure _, .of_pure (ha trivial)⟩
  fault e _ := ⟨.of_throw e, .of_throw e⟩
  goOn hx hf :=
    ⟨hx.1.bindOf (fun st hst => (hx.2 st (h.pact.sound st hst)).2) fun a ha => (hf a fun _ => ha).1,
      hx.2.bind fun a ha => (hf a fun _ => ha).2⟩
  bases hz hsteady := ⟨.of_bases h.pact (hsteady trivial h.uniform),
    .of_bases (fun hst => ⟨hst.bindings, hst.resolutions, hst.choices⟩) hz⟩
  bind e he := ⟨h.bind e he, h.sound.bind e⟩
  resolve e he := ⟨h.resolve e he, h.sound.resolve e⟩
  choice e he := ⟨h.choice e he, Index.Sound.keeps_choice h.sound e⟩

theorem bindFresh (h : Tracked ix pool G R q q₀) {e : Expr} (he : e ∈ pool) :
    Tracks G R (ix.bindFresh q e) (ix.bindFresh q₀ e) :=
  (h.upheld.bindFresh he).1

theorem resolveFresh (h : Tracked ix pool G R q q₀) {e : Expr} (he : e ∈ pool)
    (hnode : Chooses ix G R e.node) :
    Tracks G R (ix.resolveFresh q e) (ix.resolveFresh q₀ e) :=
  (h.upheld.resolveFresh he fun c hc =>
    ⟨hnode c (hc trivial), Index.Sound.keeps_putDown (hc trivial) _⟩).1

end Queries.Tracked

end SourceBundle
