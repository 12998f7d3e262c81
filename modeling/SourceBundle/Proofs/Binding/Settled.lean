/-
Questions that do not depend on what was asked before.

Answers are remembered, and a question that is still being worked out
answers itself with nothing known; so an answer may depend on where the
questions came from. A settled question is answered in the same way from
every state that a session comes to (`Asked.bind_eq`,
`Asked.resolve_eq`).

The state that a session is in while questions are worked out `Fits`
them: what it remembers of settled questions is their answer, but for
those that are being worked out. A settled question was answered in a
later round than all that it asks, and what is being worked out around
it in a still later one or never; so it never runs into one of those.
While a question that is never settled is worked out, so is everything
around it, and it may ask what it likes.

The induction is on the bound on questions inside one another. No
question is worked out inside itself, so the bound is never reached.
-/
import SourceBundle.Proofs.Binding.Rounds
import SourceBundle.Proofs.Binding.Tracking

namespace SourceBundle

open List

-- ===== tables

section

variable {α : Type} {table : Std.TreeMap Nat α} {k n : Nat}

theorem getElem?_insert_of_ne (hne : k ≠ n) (v : α) : (table.insert k v)[n]? = table[n]? := by
  rw [Std.TreeMap.getElem?_insert, if_neg]
  simpa using hne

theorem getElem?_alter_of_ne (hne : k ≠ n) (v : Option α) :
    (table.alter k fun _ => v)[n]? = table[n]? := by
  rw [Std.TreeMap.getElem?_alter, if_neg]
  simpa using hne

end

-- ===== states

/-- The expressions of a workspace have numbers of their own. -/
structure Index.Numbered (ix : Index) (pool : List Expr) : Prop extends ix.Pool pool where
  node_inj : ∀ e ∈ pool, ∀ f ∈ pool, e.node = f.node → e = f
  below : ∀ e ∈ pool, e.node < ix.nodeCount

namespace Index.Numbered

variable {ix : Index} {pool : List Expr} (h : ix.Numbered pool)
include h

theorem node_ne {e f : Expr} (he : e ∈ pool) (hf : f ∈ pool) (hne : e ≠ f) : e.node ≠ f.node :=
  fun hnode => hne (h.node_inj e he f hf hnode)

theorem length_le {es : List Expr} (hes : ∀ e ∈ es, e ∈ pool) (hnodup : es.Nodup) :
    es.length ≤ ix.nodeCount := by
  have hnodes : (es.map (·.node)).Nodup :=
    hnodup.map_on fun e he f hf => h.node_inj e (hes e he) f (hes f hf)
  have hsubset : es.map (·.node) ⊆ List.range ix.nodeCount := by
    intro n hn
    obtain ⟨e, he, rfl⟩ := mem_map.1 hn
    exact mem_range.2 (h.below e (hes e he))
  simpa using hnodes.length_le_of_subset hsubset

end Index.Numbered

/-- What is being worked out: the expressions that are being bound, and those that are being looked
up with what has been chosen for them. -/
structure Pending where
  running : List Expr
  busy : List (Expr × Option Choice)

/-- What is being worked out are expressions of the workspace, each once. -/
structure Pending.Within (pool : List Expr) (pending : Pending) : Prop where
  running : ∀ e ∈ pending.running, e ∈ pool
  running_nodup : pending.running.Nodup
  busy : ∀ e ∈ pending.busy.map (·.1), e ∈ pool
  busy_nodup : (pending.busy.map (·.1)).Nodup

theorem Pending.Within.busy_ne {pool : List Expr} {pending : Pending} (h : pending.Within pool)
    {e : Expr} (he : e ∉ pending.busy.map (·.1)) :
    ∀ p ∈ pending.busy, p.1 ∈ pool ∧ p.1 ≠ e :=
  fun p hp => ⟨h.busy p.1 (mem_map_of_mem hp), fun heq => he (heq ▸ mem_map_of_mem hp)⟩

/-- A state fits what is being worked out: of settled questions it remembers the answers. -/
structure BindState.Fits (ix : Index) (pool : List Expr) (pending : Pending) (st : BindState) :
    Prop where
  sound : st.Sound ix
  right : st.bases.Right ix
  running : st.running = pending.running.map (·.node)
  bindings : ∀ e ∈ pool, ∀ b, st.bindings[e.node]? = some b →
    ∀ n b', (ix.rounds n).bind e = some b' → b' = b
  resolutions : ∀ e ∈ pool, (∀ c, (e, c) ∉ pending.busy) → ∀ r, st.resolutions[e.node]? = some r →
    ∀ n r' c, (ix.rounds n).resolve e = some (r', c) → r' = r ∧ st.choices[e.node]? = c
  /-- A question that is being looked up counts as nothing meanwhile. -/
  busy : ∀ p ∈ pending.busy, st.resolutions[p.1.node]? = some none ∧ st.choices[p.1.node]? = p.2
  unasked : ∀ e ∈ pool, st.resolutions[e.node]? = none → st.choices[e.node]? = none

/-- What is being worked out is not settled by some round. -/
structure Pending.Open (ix : Index) (n : Nat) (pending : Pending) : Prop where
  running : ∀ e ∈ pending.running, (ix.rounds n).bind e = none
  busy : ∀ p ∈ pending.busy, (ix.rounds n).resolve p.1 = none

theorem Pending.Open.mono {ix : Index} {n m : Nat} {pending : Pending} (h : pending.Open ix m)
    (hnm : n ≤ m) : pending.Open ix n where
  running e he := (ix.grows_bind e).eq_none_of_le hnm (h.running e he)
  busy p hp := (ix.grows_resolve p.1).eq_none_of_le hnm (h.busy p hp)

/-- Questions give settled questions their answers, if these were settled earlier than all that is
being worked out, and keep states that fit. So do those that are asked while nothing that will ever
be settled is being worked out. -/
structure Queries.Fit (ix : Index) (pool : List Expr) (q : Queries) (pending : Pending) : Prop where
  sound : q.Sound ix
  bind : ∀ n, pending.Open ix n → ∀ e ∈ pool, ∀ b, (ix.rounds n).bind e = some b →
    ∀ st : BindState, st.Fits ix pool pending →
      (q.bind e st).1 = .ok b ∧ (q.bind e st).2.Fits ix pool pending
  bind_keeps : (∀ n, pending.Open ix n) → ∀ e ∈ pool, ∀ st : BindState, st.Fits ix pool pending →
    (q.bind e st).2.Fits ix pool pending
  resolve : ∀ n, pending.Open ix n → ∀ e ∈ pool, ∀ r c, (ix.rounds n).resolve e = some (r, c) →
    ∀ st : BindState, st.Fits ix pool pending →
      (q.resolve e st).1 = .ok r ∧ (q.resolve e st).2.choices[e.node]? = c
        ∧ (q.resolve e st).2.Fits ix pool pending
  resolve_keeps : (∀ n, pending.Open ix n) → ∀ e ∈ pool, ∀ st : BindState,
    st.Fits ix pool pending → (q.resolve e st).2.Fits ix pool pending

-- ===== tracking

section

variable {ix : Index} {pool : List Expr} {q : Queries} {pending : Pending} {own : Option Expr}

/-- What is being worked out with a question that is looked up on top, or without one. -/
def Pending.looking (pending : Pending) (own : Option Expr) (c : Option Choice) : Pending :=
  { pending with busy := (own.map (·, c)).toList ++ pending.busy }

/-- States in which a question is worked out. -/
def Good (ix : Index) (pool : List Expr) (pending : Pending) (own : Option Expr)
    (st : BindState) : Prop :=
  ∃ c, st.Fits ix pool (pending.looking own c)

/-- A state in which a question is worked out and one that knows nothing but the rounds agree in
what has been chosen for the question. -/
structure Alongside (ix : Index) (pool : List Expr) (pending : Pending) (own : Option Expr)
    (st st₀ : BindState) : Prop where
  good : Good ix pool pending own st
  choices : ∀ e ∈ own, st.choices[e.node]? = st₀.choices[e.node]?
  right : st₀.bases.Right ix

theorem BindState.Fits.withBases {st : BindState} (h : st.Fits ix pool pending) {memo : BaseMemo}
    (hmemo : memo.Right ix) :
    ({ st with bases := memo } : BindState).Fits ix pool pending :=
  ⟨⟨h.sound.bindings, h.sound.resolutions, h.sound.choices⟩, hmemo, h.running, h.bindings,
    h.resolutions, h.busy, h.unasked⟩

theorem pact_good : Pact ix (Good ix pool pending own) (fun _ _ => False) where
  sound := by
    rintro st (⟨c, hst⟩ | ⟨_, hfalse⟩)
    · exact hst.sound
    · exact hfalse.elim
  right := by
    rintro st (⟨c, hst⟩ | ⟨_, hfalse⟩)
    · exact hst.right
    · exact hfalse.elim
  right₀ _ _ hfalse := hfalse.elim
  withBases := fun _ _ ⟨c, hst⟩ hmemo => ⟨c, hst.withBases hmemo⟩
  withBases₀ _ _ _ _ hfalse := hfalse.elim

theorem pact_alongside :
    Pact ix (fun _ => False) (Alongside ix pool pending own) where
  sound := by
    rintro st (hfalse | ⟨st₀, ⟨c, hst⟩, -, -⟩)
    · exact hfalse.elim
    · exact hst.sound
  right := by
    rintro st (hfalse | ⟨st₀, ⟨c, hst⟩, -, -⟩)
    · exact hfalse.elim
    · exact hst.right
  right₀ _ _ hrel := hrel.right
  withBases _ _ hfalse := hfalse.elim
  withBases₀ := fun _ _ _ _ ⟨⟨c, hst⟩, hchoices, _⟩ hmemo hmemo₀ =>
    ⟨⟨c, hst.withBases hmemo⟩, hchoices, hmemo₀⟩

theorem Pending.Open.looking {n : Nat} (h : pending.Open ix n)
    (hown : ∀ e ∈ own, (ix.rounds n).resolve e = none) (c : Option Choice) :
    (pending.looking own c).Open ix n where
  running := h.running
  busy p hp := by
    rcases mem_append.1 hp with hp | hp
    · obtain ⟨e, he, rfl⟩ := Option.map_eq_some_iff.1 (Option.mem_toList.1 hp)
      exact hown e he
    · exact h.busy p hp

theorem BindState.Fits.choices_own {c : Option Choice} {st : BindState}
    (h : st.Fits ix pool (pending.looking own c)) : ∀ e ∈ own, st.choices[e.node]? = c := by
  intro e he
  cases he
  exact (h.busy (e, c) mem_cons_self).2

/-- Questions that fit keep states while nothing that will be settled is worked out. -/
theorem Queries.Fit.tracked_good (own : Option Expr) (hix : ix.Sound) (huniform : ix.Uniform)
    (hpool : ix.Numbered pool) (hq : ∀ c, q.Fit ix pool (pending.looking own c))
    (hopen : ∀ n, pending.Open ix n)
    (hown : ∀ e ∈ own, ∀ n, (ix.rounds n).resolve e = none) :
    Queries.Tracked ix pool (Good ix pool pending own) (fun _ _ => False) q q := by
  have hopen' : ∀ c n, (pending.looking own c).Open ix n :=
    fun c n => (hopen n).looking (fun e he => hown e he n) c
  have hresolve : ∀ e ∈ pool, ∀ st, Good ix pool pending own st →
      Good ix pool pending own (q.resolve e st).2 :=
    fun e he st ⟨c, hst⟩ => ⟨c, (hq c).resolve_keeps (hopen' c) e he st hst⟩
  constructor
  case index => exact hix
  case uniform => exact huniform
  case closed => exact hpool.toPool
  case pact => exact pact_good
  case sound => exact (hq none).sound
  case bind =>
    intro e he
    exact ⟨fun st ⟨c, hst⟩ => ⟨c, (hq c).bind_keeps (hopen' c) e he st hst⟩,
      fun _ _ hfalse => hfalse.elim⟩
  case resolve =>
    intro e he
    exact ⟨hresolve e he, fun _ _ hfalse => hfalse.elim⟩
  case choice =>
    intro e he
    refine ⟨fun st hst => ?_, fun _ _ hfalse => hfalse.elim⟩
    rw [Queries.choice_snd]
    exact hresolve e he st hst

/-- Questions that fit track what was found in a round in which nothing of what is being worked out
was settled yet. -/
theorem Queries.Fit.tracked_alongside (own : Option Expr) (hix : ix.Sound) (huniform : ix.Uniform)
    (hpool : ix.Numbered pool) (hq : ∀ c, q.Fit ix pool (pending.looking own c)) {n : Nat}
    (hopen : pending.Open ix n) (hown : ∀ e ∈ own, e ∈ pool ∧ (ix.rounds n).resolve e = none) :
    Queries.Tracked ix pool (fun _ => False) (Alongside ix pool pending own) q
      (ix.rounds n).queries := by
  have hopen' : ∀ c, (pending.looking own c).Open ix n := hopen.looking fun e he => (hown e he).2
  -- a question that is found is not the one that is worked out, so it touches another choice
  have halter : ∀ {e : Expr} {r : Option Resolution} {c : Option Choice} {st₀ : BindState},
      e ∈ pool → (ix.rounds n).resolve e = some (r, c) → ∀ o ∈ own,
        (st₀.choices.alter e.node fun _ => c)[o.node]? = st₀.choices[o.node]? := by
    intro e r c st₀ he hfound o ho
    refine getElem?_alter_of_ne (hpool.node_ne he (hown o ho).1 fun heq => ?_) c
    rw [heq, (hown o ho).2] at hfound
    cases hfound
  have hresolve : ∀ e ∈ pool, BindM.Tracks (fun _ => False) (Alongside ix pool pending own)
      (q.resolve e) ((ix.rounds n).queries.resolve e) := by
    refine fun e he => ⟨fun _ hfalse => hfalse.elim, ?_⟩
    rintro st st₀ ⟨⟨c, hst⟩, hchoices, hright⟩ r hr
    obtain ⟨c', hfound, hst₀⟩ := Findings.resolve_eq_some_of_queries hr
    obtain ⟨hr', -, hst'⟩ := (hq c).resolve n (hopen' c) e he r c' hfound st hst
    refine ⟨hr', ?_⟩
    rw [hst₀]
    refine ⟨⟨c, hst'⟩, fun o ho => ?_, hright⟩
    rw [hst'.choices_own o ho, ← hst.choices_own o ho, hchoices o ho]
    exact (halter he hfound o ho).symm
  constructor
  case index => exact hix
  case uniform => exact huniform
  case closed => exact hpool.toPool
  case pact => exact pact_alongside
  case sound => exact (hq none).sound
  case bind =>
    refine fun e he => ⟨fun _ hfalse => hfalse.elim, ?_⟩
    rintro st st₀ ⟨⟨c, hst⟩, hchoices, hright⟩ b hb
    obtain ⟨hfound, hst₀⟩ := Findings.bind_eq_some_of_queries hb
    obtain ⟨hb', hst'⟩ := (hq c).bind n (hopen' c) e he b hfound st hst
    refine ⟨hb', ?_⟩
    rw [hst₀]
    refine ⟨⟨c, hst'⟩, fun o ho => ?_, hright⟩
    rw [hst'.choices_own o ho, ← hst.choices_own o ho, hchoices o ho]
  case resolve => exact hresolve
  case choice =>
    refine fun e he => ⟨fun _ hfalse => hfalse.elim, ?_⟩
    intro st st₀ hrel c hc
    rw [Queries.choice_snd, Queries.choice_snd]
    obtain ⟨r, hr, hc⟩ := Queries.exists_resolve_of_choice hc
    obtain ⟨hr', hrel'⟩ := (hresolve e he).follows st st₀ hrel r hr
    refine ⟨?_, hrel'⟩
    obtain ⟨c', hfound, hst₀⟩ := Findings.resolve_eq_some_of_queries hr
    have hc' : c' = c := by
      rw [← hc, hst₀]
      show c' = (st₀.choices.alter e.node fun _ => c')[e.node]?
      rw [Std.TreeMap.getElem?_alter_self]
    obtain ⟨⟨own', hst⟩, -, -⟩ := hrel
    have hanswer := (hq own').resolve n (hopen' own') e he r c' hfound st hst
    rw [Queries.choice_of_ok hr', hanswer.2.1, hc']

end

-- ===== updates

namespace BindState.Fits

variable {ix : Index} {pool : List Expr} {pending : Pending} {st : BindState} {e : Expr}
  {c : Option Choice}

/-- An expression is being bound. -/
theorem started (h : st.Fits ix pool pending) (e : Expr) :
    (st.entered e.node).Fits ix pool { pending with running := e :: pending.running } :=
  ⟨⟨h.sound.bindings, h.sound.resolutions, h.sound.choices⟩, h.right,
    congrArg (e.node :: ·) h.running, h.bindings, h.resolutions, h.busy, h.unasked⟩

/-- An expression is no longer bound. -/
theorem done (h : st.Fits ix pool { pending with running := e :: pending.running }) :
    (st.left e.node).Fits ix pool pending := by
  refine ⟨⟨h.sound.bindings, h.sound.resolutions, h.sound.choices⟩, h.right, ?_, h.bindings,
    h.resolutions, h.busy, h.unasked⟩
  have hrunning : st.running = e.node :: pending.running.map (·.node) := h.running
  show st.running.erase e.node = _
  rw [hrunning, erase_cons_head]

theorem not_mem_running (hpool : ix.Numbered pool) (hpending : pending.Within pool)
    (h : st.Fits ix pool pending) (he : e ∈ pool) (hidle : e ∉ pending.running) :
    e.node ∉ st.running := by
  rw [h.running]
  intro hmem
  obtain ⟨f, hf, hnode⟩ := mem_map.1 hmem
  exact hidle (hpool.node_inj f (hpending.running f hf) e he hnode ▸ hf)

/-- What an expression stands for is put down. -/
theorem bound (hpool : ix.Numbered pool) (h : st.Fits ix pool pending) (he : e ∈ pool)
    {b : Binding} (hb : b.Known ix)
    (hanswer : ∀ n b', (ix.rounds n).bind e = some b' → b' = b) :
    ({ st with bindings := st.bindings.insert e.node b } : BindState).Fits ix pool pending := by
  refine ⟨⟨forall_getElem?_insert h.sound.bindings hb, h.sound.resolutions, h.sound.choices⟩,
    h.right, h.running, ?_, h.resolutions, h.busy, h.unasked⟩
  intro f hf b' hb'
  change (st.bindings.insert e.node b)[f.node]? = some b' at hb'
  by_cases hfe : f = e
  · subst hfe
    rw [Std.TreeMap.getElem?_insert_self] at hb'
    cases hb'
    exact hanswer
  · rw [getElem?_insert_of_ne (hpool.node_ne he hf (Ne.symm hfe))] at hb'
    exact h.bindings f hf b' hb'

/-- A reference is being looked up. -/
theorem looking (hpool : ix.Numbered pool) (h : st.Fits ix pool pending) (he : e ∈ pool)
    (hfresh : st.resolutions[e.node]? = none) :
    (st.found e.node none).Fits ix pool (pending.looking (some e) none) := by
  have hother : ∀ f ∈ pool, f ≠ e →
      (st.found e.node none).resolutions[f.node]? = st.resolutions[f.node]? :=
    fun f hf hne => getElem?_insert_of_ne (hpool.node_ne he hf hne.symm) none
  refine ⟨⟨h.sound.bindings, forall_getElem?_insert
      (P := fun r : Option Resolution => ∀ answer ∈ r, answer.Known ix)
      h.sound.resolutions fun answer hanswer => absurd hanswer (Option.not_mem_none answer),
    h.sound.choices⟩, h.right, h.running, h.bindings, ?_, ?_, ?_⟩
  · intro f hf hfree r hr
    have hne : f ≠ e := by
      rintro rfl
      exact hfree none mem_cons_self
    rw [hother f hf hne] at hr
    exact h.resolutions f hf (fun c hmem => hfree c (mem_cons_of_mem _ hmem)) r hr
  · intro p hp
    rcases mem_cons.1 hp with rfl | hp
    · exact ⟨Std.TreeMap.getElem?_insert_self, h.unasked e he hfresh⟩
    · obtain ⟨hnone, hchoice⟩ := h.busy p hp
      refine ⟨?_, hchoice⟩
      refine (getElem?_insert_of_ne (fun hnode => ?_) none).trans hnone
      rw [← hnode, hfresh] at hnone
      cases hnone
  · intro f hf hnone
    by_cases hfe : f = e
    · rw [hfe]
      exact h.unasked e he hfresh
    · rw [hother f hf hfe] at hnone
      exact h.unasked f hf hnone

/-- An overload is chosen for the reference that is being looked up. -/
theorem chosen (hpool : ix.Numbered pool) (h : st.Fits ix pool (pending.looking (some e) c))
    (he : e ∈ pool) (hbusy : ∀ p ∈ pending.busy, p.1 ∈ pool ∧ p.1 ≠ e) {choice : Choice}
    (hchoice : choice.Known ix) :
    ({ st with choices := st.choices.insert e.node choice } : BindState).Fits ix pool
      (pending.looking (some e) (some choice)) := by
  have hother : ∀ f ∈ pool, f ≠ e →
      (st.choices.insert e.node choice)[f.node]? = st.choices[f.node]? :=
    fun f hf hne => getElem?_insert_of_ne (hpool.node_ne he hf hne.symm) choice
  refine ⟨⟨h.sound.bindings, h.sound.resolutions,
    forall_getElem?_insert h.sound.choices hchoice⟩, h.right, h.running, h.bindings, ?_, ?_, ?_⟩
  · intro f hf hfree r hr n r' c' hfound
    have hne : f ≠ e := by
      rintro rfl
      exact hfree (some choice) mem_cons_self
    have hfree' : ∀ c', (f, c') ∉ (pending.looking (some e) c).busy := by
      intro c' hmem
      rcases mem_cons.1 hmem with heq | hmem
      · exact hne (congrArg Prod.fst heq)
      · exact hfree c' (mem_cons_of_mem _ hmem)
    obtain ⟨hr', hc'⟩ := h.resolutions f hf hfree' r hr n r' c' hfound
    exact ⟨hr', (hother f hf hne).trans hc'⟩
  · intro p hp
    rcases mem_cons.1 hp with rfl | hp
    · exact ⟨(h.busy (e, c) mem_cons_self).1, Std.TreeMap.getElem?_insert_self⟩
    · obtain ⟨hmem, hne⟩ := hbusy p hp
      obtain ⟨hnone, hc'⟩ := h.busy p (mem_cons_of_mem _ hp)
      exact ⟨hnone, (hother p.1 hmem hne).trans hc'⟩
  · intro f hf hnone
    change st.resolutions[f.node]? = none at hnone
    have hne : f ≠ e := by
      rintro rfl
      have hasked : st.resolutions[f.node]? = some none := (h.busy (f, c) mem_cons_self).1
      rw [hasked] at hnone
      cases hnone
    exact (hother f hf hne).trans (h.unasked f hf hnone)

/-- What a reference is to is put down. -/
theorem found (hpool : ix.Numbered pool) (h : st.Fits ix pool (pending.looking (some e) c))
    (he : e ∈ pool) (hbusy : ∀ p ∈ pending.busy, p.1 ∈ pool ∧ p.1 ≠ e) {r : Option Resolution}
    (hr : ∀ answer ∈ r, answer.Known ix)
    (hanswer : ∀ n r' c', (ix.rounds n).resolve e = some (r', c') → r' = r ∧ c = c') :
    (st.found e.node r).Fits ix pool pending := by
  have hother : ∀ f ∈ pool, f ≠ e →
      (st.resolutions.insert e.node r)[f.node]? = st.resolutions[f.node]? :=
    fun f hf hne => getElem?_insert_of_ne (hpool.node_ne he hf hne.symm) r
  refine ⟨⟨h.sound.bindings, forall_getElem?_insert
      (P := fun r : Option Resolution => ∀ answer ∈ r, answer.Known ix)
      h.sound.resolutions hr,
    h.sound.choices⟩, h.right, h.running, h.bindings, ?_, ?_, ?_⟩
  · intro f hf hfree r' hr' n r'' c' hfound
    change (st.resolutions.insert e.node r)[f.node]? = some r' at hr'
    by_cases hfe : f = e
    · subst hfe
      rw [Std.TreeMap.getElem?_insert_self] at hr'
      cases hr'
      obtain ⟨hr'', hc⟩ := hanswer n r'' c' hfound
      exact ⟨hr'', (h.choices_own f rfl).trans hc⟩
    · rw [hother f hf hfe] at hr'
      refine h.resolutions f hf (fun c' hmem => ?_) r' hr' n r'' c' hfound
      rcases mem_cons.1 hmem with heq | hmem
      · exact hfe (congrArg Prod.fst heq)
      · exact hfree c' hmem
  · intro p hp
    obtain ⟨hmem, hne⟩ := hbusy p hp
    obtain ⟨hnone, hc'⟩ := h.busy p (mem_cons_of_mem _ hp)
    exact ⟨(hother p.1 hmem hne).trans hnone, hc'⟩
  · intro f hf hnone
    change (st.resolutions.insert e.node r)[f.node]? = none at hnone
    by_cases hfe : f = e
    · rw [hfe, Std.TreeMap.getElem?_insert_self] at hnone
      cases hnone
    · rw [hother f hf hfe] at hnone
      exact h.unasked f hf hnone

/-- A reference that will never be settled is given up. -/
theorem dropped (h : st.Fits ix pool (pending.looking (some e) c))
    (hnever : ∀ n, (ix.rounds n).resolve e = none) : st.Fits ix pool pending := by
  refine ⟨h.sound, h.right, h.running, h.bindings, ?_, ?_, h.unasked⟩
  · intro f hf hfree r hr n r' c' hfound
    have hne : f ≠ e := by
      rintro rfl
      rw [hnever n] at hfound
      cases hfound
    refine h.resolutions f hf (fun c' hmem => ?_) r hr n r' c' hfound
    rcases mem_cons.1 hmem with heq | hmem
    · exact hne (congrArg Prod.fst heq)
    · exact hfree c' hmem
  · exact fun p hp => h.busy p (mem_cons_of_mem _ hp)

end BindState.Fits

section

variable {ix : Index} {pool : List Expr} {pending : Pending} {e : Expr}
  (hpool : ix.Numbered pool) (he : e ∈ pool)
  (hbusy : ∀ p ∈ pending.busy, p.1 ∈ pool ∧ p.1 ≠ e)
include hpool he hbusy

theorem chooses_good :
    Queries.Tracked.Chooses ix (Good ix pool pending (some e)) (fun _ _ => False)
      e.node :=
  fun _ hchoice => ⟨fun _ ⟨_, hst⟩ => ⟨_, hst.chosen hpool he hbusy hchoice⟩,
    fun _ _ hfalse => hfalse.elim⟩

theorem chooses_alongside :
    Queries.Tracked.Chooses ix (fun _ => False)
      (Alongside ix pool pending (some e)) e.node := by
  refine fun choice hchoice => ⟨fun _ hfalse => hfalse.elim, ?_⟩
  rintro st st₀ ⟨⟨c, hst⟩, -, hright⟩ a ha
  refine ⟨ha, ⟨_, hst.chosen hpool he hbusy hchoice⟩, ?_, hright⟩
  intro o ho
  cases ho
  exact Std.TreeMap.getElem?_insert_self.trans Std.TreeMap.getElem?_insert_self.symm

end

-- ===== steps

theorem Except.eq_ok_of_toOption {ε α : Type} {x : Except ε α} {a : α}
    (h : x.toOption = some a) : x = .ok a := by
  cases x with
  | error e => cases h
  | ok a' => exact congrArg Except.ok (Option.some.inj h)

namespace Index

section

variable {ix : Index} {pool : List Expr} {q : Queries} {pending : Pending}
  (hix : ix.Sound) (huniform : ix.Uniform) (hpool : ix.Numbered pool)
  (hpending : pending.Within pool)
include hix huniform hpool hpending

section

variable (hq : ∀ e ∈ pool, e ∉ pending.running →
  q.Fit ix pool { pending with running := e :: pending.running })
include hq

/-- A settled question gets its answer from a state that fits. -/
theorem bindStep_fits {n : Nat} (hopen : pending.Open ix n) {e : Expr} (he : e ∈ pool)
    {b : Binding} (hfound : (ix.rounds n).bind e = some b) {st : BindState}
    (hst : st.Fits ix pool pending) :
    (ix.bindStep q e st).1 = .ok b ∧ (ix.bindStep q e st).2.Fits ix pool pending := by
  cases hb : st.bindings[e.node]? with
  | some b' =>
    rw [bindStep_eq, guarded_apply, hb, hst.bindings e he b' hb n b hfound]
    exact ⟨rfl, hst⟩
  | none =>
    have hidle : e ∉ pending.running := by
      intro hmem
      rw [hopen.running e hmem] at hfound
      cases hfound
    -- it was worked out in a round before which it was open itself
    obtain ⟨k, hk, hnot, hworked⟩ := (ix.grows_bind e).exists_round hfound
    have hopen' : Pending.Open ix k { pending with running := e :: pending.running } :=
      have hopen := hopen.mono (Nat.le_of_lt hk)
      ⟨forall_mem_cons.2 ⟨hnot, hopen.running⟩, hopen.busy⟩
    have hfit := hq e he hidle
    have hstart : Alongside ix pool { pending with running := e :: pending.running } none
        (st.entered e.node) {} :=
      ⟨⟨none, hst.started e⟩, fun o ho => absurd ho (Option.not_mem_none o),
        BaseMemo.right_nil _⟩
    have htracked := Queries.Fit.tracked_alongside none hix huniform hpool
      (fun _ => hfit) hopen' fun o ho => absurd ho (Option.not_mem_none o)
    obtain ⟨hok, ⟨_, hst'⟩, -, -⟩ := (htracked.bindFresh he).follows _ _ hstart b
      (Except.eq_ok_of_toOption hworked)
    have hknown := (hix.keeps_bindFresh hfit.sound e _ (hst.started e).sound).2 b hok
    cases hrun : ix.bindFresh q e (st.entered e.node) with
    | mk result st' =>
      rw [hrun] at hok hst'
      cases hok
      rw [bindStep_eq, guarded_apply, hb]
      simp only [if_neg (hst.not_mem_running hpool hpending he hidle), hrun]
      exact ⟨trivial, hst'.done.bound hpool he hknown fun _ _ h =>
        (ix.grows_bind e).unique h hfound⟩

theorem bindStep_keeps (hopen : ∀ n, pending.Open ix n) {e : Expr} (he : e ∈ pool)
    {st : BindState} (hst : st.Fits ix pool pending) :
    (ix.bindStep q e st).2.Fits ix pool pending := by
  by_cases hsettled : ∃ n b, (ix.rounds n).bind e = some b
  · obtain ⟨n, b, hfound⟩ := hsettled
    exact (bindStep_fits hix huniform hpool hpending hq (hopen n) he hfound hst).2
  have hnever : ∀ n, (ix.rounds n).bind e = none :=
    fun n => Option.eq_none_iff_forall_ne_some.2 fun b h => hsettled ⟨n, b, h⟩
  cases hb : st.bindings[e.node]? with
  | some b' =>
    rw [bindStep_eq, guarded_apply, hb]
    exact hst
  | none =>
    by_cases hidle : e ∈ pending.running
    · rw [bindStep_eq, guarded_apply, hb]
      simp only [if_pos (show e.node ∈ st.running from hst.running ▸ mem_map_of_mem hidle)]
      exact hst
    have hfree := hst.not_mem_running hpool hpending he hidle
    have hopen' : ∀ n, Pending.Open ix n { pending with running := e :: pending.running } :=
      fun n => ⟨forall_mem_cons.2 ⟨hnever n, (hopen n).running⟩, (hopen n).busy⟩
    have hfit := hq e he hidle
    have htracked := Queries.Fit.tracked_good none hix huniform hpool
      (fun _ => hfit) hopen' fun o ho => absurd ho (Option.not_mem_none o)
    obtain ⟨_, hst'⟩ := (htracked.bindFresh he).keeps _ ⟨none, hst.started e⟩
    have hknown := (hix.keeps_bindFresh hfit.sound e _ (hst.started e).sound).2
    cases hrun : ix.bindFresh q e (st.entered e.node) with
    | mk result st' =>
      rw [hrun] at hst' hknown
      rw [bindStep_eq, guarded_apply, hb]
      simp only [if_neg hfree, hrun]
      cases result with
      | error error => exact hst'.done
      | ok b =>
        refine hst'.done.bound hpool he (hknown b rfl) fun n b' h => ?_
        rw [hnever n] at h
        cases h

end

section

variable (hq : ∀ e ∈ pool, e ∉ pending.busy.map (·.1) →
  ∀ c, q.Fit ix pool (pending.looking (some e) c))
include hq

/-- A settled question gets its answer from a state that fits. -/
theorem resolveStep_fits {n : Nat} (hopen : pending.Open ix n) {e : Expr} (he : e ∈ pool)
    {r : Option Resolution} {c : Option Choice} (hfound : (ix.rounds n).resolve e = some (r, c))
    {st : BindState} (hst : st.Fits ix pool pending) :
    (ix.resolveStep q e st).1 = .ok r ∧ (ix.resolveStep q e st).2.choices[e.node]? = c
      ∧ (ix.resolveStep q e st).2.Fits ix pool pending := by
  have hidle : e ∉ pending.busy.map (·.1) := by
    intro hmem
    obtain ⟨p, hp, rfl⟩ := mem_map.1 hmem
    rw [hopen.busy p hp] at hfound
    cases hfound
  cases hr : st.resolutions[e.node]? with
  | some r' =>
    have hnot : ∀ c', (e, c') ∉ pending.busy := fun c' hmem => hidle (mem_map_of_mem hmem)
    obtain ⟨hr', hc⟩ := hst.resolutions e he hnot r' hr n r c hfound
    rw [resolveStep_eq, remembered_apply, hr, hr']
    exact ⟨rfl, hc, hst⟩
  | none =>
    obtain ⟨k, hk, hnot, hworked⟩ := (ix.grows_resolve e).exists_round hfound
    have hfit := hq e he hidle
    have hstarted := hst.looking hpool he hr
    have hstart : Alongside ix pool pending (some e)
        (st.found e.node none) {} := by
      refine ⟨⟨none, hstarted⟩, fun o ho => ?_, BaseMemo.right_nil _⟩
      rw [hstarted.choices_own o ho]
      exact Std.TreeMap.getElem?_emptyc.symm
    have hbusy := hpending.busy_ne hidle
    have htracked := Queries.Fit.tracked_alongside (some e) hix huniform hpool hfit
      (hopen.mono (Nat.le_of_lt hk)) (by rintro o ⟨⟩; exact ⟨he, hnot⟩)
    obtain ⟨r', hr', heq⟩ := Option.map_eq_some_iff.1 hworked
    cases heq
    obtain ⟨hok, ⟨c', hst'⟩, hchoices, -⟩ :=
      (htracked.resolveFresh he (chooses_alongside hpool he hbusy)).follows _ _ hstart r
        (Except.eq_ok_of_toOption hr')
    have hc := (hst'.choices_own e rfl).symm.trans (hchoices e rfl)
    have hknown := (hix.keeps_resolveFresh (hfit none).sound e _ hstarted.sound).2 r hok
    cases hrun : ix.resolveFresh q e (st.found e.node none) with
    | mk result st' =>
      rw [hrun] at hok hst' hchoices
      cases hok
      rw [resolveStep_eq, remembered_apply, hr]
      simp only [hrun]
      refine ⟨trivial, hchoices e rfl, hst'.found hpool he hbusy hknown fun m r' c'' h => ?_⟩
      have hunique := (ix.grows_resolve e).unique h hfound
      exact ⟨congrArg Prod.fst hunique, hc.trans (congrArg Prod.snd hunique).symm⟩

theorem resolveStep_keeps (hopen : ∀ n, pending.Open ix n) {e : Expr} (he : e ∈ pool)
    {st : BindState} (hst : st.Fits ix pool pending) :
    (ix.resolveStep q e st).2.Fits ix pool pending := by
  by_cases hsettled : ∃ n r c, (ix.rounds n).resolve e = some (r, c)
  · obtain ⟨n, r, c, hfound⟩ := hsettled
    exact (resolveStep_fits hix huniform hpool hpending hq (hopen n) he hfound hst).2.2
  have hnever : ∀ n, (ix.rounds n).resolve e = none :=
    fun n => Option.eq_none_iff_forall_ne_some.2 fun a h => hsettled ⟨n, a.1, a.2, h⟩
  cases hr : st.resolutions[e.node]? with
  | some r' =>
    rw [resolveStep_eq, remembered_apply, hr]
    exact hst
  | none =>
    have hidle : e ∉ pending.busy.map (·.1) := by
      intro hmem
      obtain ⟨p, hp, rfl⟩ := mem_map.1 hmem
      rw [(hst.busy p hp).1] at hr
      cases hr
    have hbusy := hpending.busy_ne hidle
    have hfit := hq e he hidle
    have hstarted := hst.looking hpool he hr
    have htracked := Queries.Fit.tracked_good (some e) hix huniform hpool hfit hopen
      (by rintro o ⟨⟩; exact hnever)
    obtain ⟨c, hst'⟩ := (htracked.resolveFresh he (chooses_good hpool he hbusy)).keeps _
      ⟨none, hstarted⟩
    have hknown := (hix.keeps_resolveFresh (hfit none).sound e _ hstarted.sound).2
    cases hrun : ix.resolveFresh q e (st.found e.node none) with
    | mk result st' =>
      rw [hrun] at hst' hknown
      rw [resolveStep_eq, remembered_apply, hr]
      simp only [hrun]
      cases result with
      | error error => exact hst'.dropped hnever
      | ok r =>
        refine hst'.found hpool he hbusy (hknown r rfl) fun n r' c' h => ?_
        rw [hnever n] at h
        cases h

end

end

-- ===== the knot

section

variable {ix : Index} {pool : List Expr} (hix : ix.Sound) (huniform : ix.Uniform)
  (hpool : ix.Numbered pool)
include hix huniform hpool

/-- Questions within a bound fit what is being worked out if it is not too much for the bound. -/
theorem fit_queriesWithin {bound : Nat} {pending : Pending} (hpending : pending.Within pool)
    (hbound : 2 * ix.nodeCount < pending.running.length + pending.busy.length + bound) :
    (ix.queriesWithin bound).Fit ix pool pending := by
  -- on the bound; a question that is being worked out is not worked out once more, so that what is
  -- being worked out grows with each step
  induction bound generalizing pending with
  | zero =>
    have hrunning := hpool.length_le hpending.running hpending.running_nodup
    have hbusy := hpool.length_le hpending.busy hpending.busy_nodup
    rw [length_map] at hbusy
    omega
  | succ bound ih =>
    have hbind : ∀ e ∈ pool, e ∉ pending.running → (ix.queriesWithin bound).Fit ix pool
        { pending with running := e :: pending.running } := by
      intro e he hidle
      refine ih ⟨forall_mem_cons.2 ⟨he, hpending.running⟩,
        nodup_cons.2 ⟨hidle, hpending.running_nodup⟩, hpending.busy,
        hpending.busy_nodup⟩ ?_
      show _ < pending.running.length + 1 + pending.busy.length + bound
      omega
    have hresolve : ∀ e ∈ pool, e ∉ pending.busy.map (·.1) → ∀ c,
        (ix.queriesWithin bound).Fit ix pool (pending.looking (some e) c) := by
      intro e he hidle c
      refine ih ⟨hpending.running, hpending.running_nodup,
        forall_mem_cons.2 ⟨he, hpending.busy⟩,
        nodup_cons.2 ⟨hidle, hpending.busy_nodup⟩⟩ ?_
      show _ < pending.running.length + (pending.busy.length + 1) + bound
      omega
    exact
      { sound := hix.queriesWithin_sound (bound + 1)
        bind := fun n hopen e he b hfound st hst =>
          bindStep_fits hix huniform hpool hpending hbind hopen he hfound hst
        bind_keeps := fun hopen e he st hst =>
          bindStep_keeps hix huniform hpool hpending hbind hopen he hst
        resolve := fun n hopen e he r c hfound st hst =>
          resolveStep_fits hix huniform hpool hpending hresolve hopen he hfound hst
        resolve_keeps := fun hopen e he st hst =>
          resolveStep_keeps hix huniform hpool hpending hresolve hopen he hst }

/-- The questions fit while nothing is being worked out. -/
theorem fit_queries : ix.queries.Fit ix pool ⟨[], []⟩ := by
  refine fit_queriesWithin hix huniform hpool
    ⟨forall_mem_nil _, nodup_nil, forall_mem_nil _, nodup_nil⟩ ?_
  simp only [length_nil]
  omega

end

-- ===== sessions

/-- The states that a session comes to in which questions about some expressions are asked, one
after another. -/
inductive Asked (ix : Index) (pool : List Expr) : BindState → Prop where
  | start : Asked ix pool {}
  | bind {st : BindState} (h : Asked ix pool st) {e : Expr} (he : e ∈ pool) :
      Asked ix pool (ix.bind e st).2
  | resolve {st : BindState} (h : Asked ix pool st) {e : Expr} (he : e ∈ pool) :
      Asked ix pool (ix.resolve e st).2

theorem Asked.mono {ix : Index} {pool pool' : List Expr} {st : BindState}
    (h : ix.Asked pool st) (hsubset : ∀ e ∈ pool, e ∈ pool') : ix.Asked pool' st := by
  induction h with
  | start => exact .start
  | bind _ he ih => exact ih.bind (hsubset _ he)
  | resolve _ he ih => exact ih.resolve (hsubset _ he)

/-- Between questions nothing is being worked out. -/
theorem open_nil (ix : Index) (n : Nat) : Pending.Open ix n ⟨[], []⟩ :=
  ⟨forall_mem_nil _, forall_mem_nil _⟩

section

variable {ix : Index} {pool : List Expr} (hix : ix.Sound) (huniform : ix.Uniform)
  (hpool : ix.Numbered pool) {st : BindState} (hst : ix.Asked pool st)
include hix huniform hpool hst

theorem Asked.fits : st.Fits ix pool ⟨[], []⟩ := by
  have hfit := fit_queries hix huniform hpool
  induction hst with
  | start =>
    exact
      { sound := BindState.sound_empty _
        right := BaseMemo.right_nil _
        running := rfl
        bindings := fun e _ b hb => by
          rw [show _ = _ from Std.TreeMap.getElem?_emptyc] at hb
          cases hb
        resolutions := fun e _ _ r hr => by
          rw [show _ = _ from Std.TreeMap.getElem?_emptyc] at hr
          cases hr
        busy := forall_mem_nil _
        unasked := fun _ _ _ => Std.TreeMap.getElem?_emptyc }
  | bind _ he ih => exact hfit.bind_keeps ix.open_nil _ he _ ih
  | resolve _ he ih => exact hfit.resolve_keeps ix.open_nil _ he _ ih

/-- A settled question about what an expression stands for has one answer. -/
theorem Asked.bind_eq {e : Expr} (he : e ∈ pool) {n : Nat} {b : Binding}
    (hfound : (ix.rounds n).bind e = some b) : (ix.bind e st).1 = .ok b :=
  ((fit_queries hix huniform hpool).bind n (ix.open_nil n) e he b hfound st
    (hst.fits hix huniform hpool)).1

/-- A settled question about what an expression refers to has one answer. -/
theorem Asked.resolve_eq {e : Expr} (he : e ∈ pool) {n : Nat} {r : Option Resolution}
    {c : Option Choice} (hfound : (ix.rounds n).resolve e = some (r, c)) :
    (ix.resolve e st).1 = .ok r :=
  ((fit_queries hix huniform hpool).resolve n (ix.open_nil n) e he r c hfound st
    (hst.fits hix huniform hpool)).1

end

end Index

end SourceBundle
