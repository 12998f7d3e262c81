/-
Bundling is repeatable in a session.

What a reference was found to be is put down once. A question writes it
provisionally before the answer is known, but only where nothing is
written yet, so what a session remembers when a question is asked it
remembers ever after (`KeptIn`), whether the question is answered or
fails. Work that only resolves references then settles (`Settles`): once
it came to a value, it comes to that value from every later state, and
leaves the state as it is. A walk is such work.

The flag to stop may be raised at one walk and not at another. A walk
that comes to its end is the one whose flag is never raised, so two walks
that come to their ends are compared through that one.
-/
import SourceBundle.Proofs.Binding.Termination
import SourceBundle.Proofs.Bundle.Workspaces
import SourceBundle.Proofs.Closure.Comparison

namespace SourceBundle

variable {α β : Type}

-- ===== what is remembered

/-- What is remembered of references in one state is remembered in another. -/
def BindState.KeptIn (st later : BindState) : Prop :=
  ∀ (node : Nat) (r : Option Resolution),
    st.resolutions[node]? = some r → later.resolutions[node]? = some r

namespace BindState.KeptIn

variable {st st' st'' : BindState} {node : Nat}

theorem refl (st : BindState) : st.KeptIn st :=
  fun _ _ h => h

theorem trans (h : st.KeptIn st') (h' : st'.KeptIn st'') : st.KeptIn st'' :=
  fun node r hr => h' node r (h node r hr)

/-- A reference that was not looked up before is put down. -/
theorem found (h : st.KeptIn st') (hnew : st.resolutions[node]? = none) (r : Option Resolution) :
    st.KeptIn (st'.found node r) := by
  intro other r' hr'
  have hne : node ≠ other := by
    rintro rfl
    rw [hnew] at hr'
    cases hr'
  show (st'.resolutions.insert node r)[other]? = some r'
  rw [getElem?_insert_of_ne hne]
  exact h other r' hr'

theorem eq_none (h : st.KeptIn st') (hnone : st'.resolutions[node]? = none) :
    st.resolutions[node]? = none := by
  cases hr : st.resolutions[node]? with
  | none => rfl
  | some r => exact nomatch (h node r hr).symm.trans hnone

end BindState.KeptIn

/-- A run beside itself that keeps what was remembered in a state. -/
def Keeping (old st st₀ : BindState) : Prop :=
  st = st₀ ∧ old.KeptIn st

theorem footing_keeping (old : BindState) : Footing (Keeping old) fun _ => Keeping old where
  bases st st₀ h := by rw [h.1]
  choices st st₀ h := by rw [h.1]
  withBases st st₀ h memo := by
    obtain ⟨rfl, hkept⟩ := h
    exact ⟨rfl, hkept⟩
  withChoice st st₀ h node c := by
    obtain ⟨rfl, hkept⟩ := h
    exact ⟨rfl, hkept⟩
  fault _ _ h _ _ := h

namespace Index

variable (ix : Index)

/-- Questions keep what was remembered. -/
theorem inStep_keeping (old : BindState) (bound : Nat) :
    Queries.InStep ix (fun _ => True) (Keeping old) (fun _ => Keeping old) (ix.queriesWithin bound)
      (ix.queriesWithin bound) := by
  induction bound with
  | zero =>
    exact ⟨ix.closed_true, footing_keeping old, fun _ _ => .of_pure _, fun _ _ => .of_pure _⟩
  | succ bound ih =>
    refine ⟨ix.closed_true, footing_keeping old, fun e _ => ?_, fun e _ => ?_⟩
    · refine BindM.Lockstep.guarded (S := Keeping old) (F := fun _ => Keeping old) ?_ ?_ ?_ ?_ ?_
      · exact fun st st₀ h => by rw [h.1]
      · exact fun st st₀ h => by rw [h.1]
      · intro st st₀ h _ _
        obtain ⟨rfl, hkept⟩ := h
        exact ih.bindFresh trivial _ _ ⟨rfl, hkept⟩
      · intro st st₀ h b
        obtain ⟨rfl, hkept⟩ := h
        exact ⟨rfl, hkept⟩
      · intro e st st₀ h
        obtain ⟨rfl, hkept⟩ := h
        exact ⟨rfl, hkept⟩
    · -- the reference is written only if nothing was remembered of it
      refine BindM.Lockstep.remembered
        (S := fun st st₀ => Keeping old st st₀ ∧ old.resolutions[e.node]? = none)
        (F := fun _ => Keeping old) ?_ ?_ ?_ ?_
      · exact fun st st₀ h => by rw [h.1]
      · intro st st₀ h hfresh
        obtain ⟨rfl, hkept⟩ := h
        have hnew := hkept.eq_none hfresh
        have hagree := ih.resolveFresh (e := e) trivial (st.found e.node none)
          (st.found e.node none) ⟨rfl, hkept.found hnew none⟩
        exact ⟨hagree.same, fun r hr => ⟨hagree.done r hr, hnew⟩, hagree.failed⟩
      · intro st st₀ h r
        obtain ⟨⟨rfl, hkept⟩, hnew⟩ := h
        exact ⟨rfl, hkept.found hnew r⟩
      · exact fun _ _ _ h => h

/-- A question keeps what was remembered, whether it is answered or fails. -/
theorem ask_keeps (question : Question) (st : BindState) :
    st.KeptIn (ix.queries.ask question st).2 :=
  ((ix.inStep_keeping st _).ask (a := question) trivial).keeps (I := st.KeptIn) (.refl st)

theorem resolve_keeps (e : Expr) (st : BindState) : st.KeptIn (ix.resolve e st).2 :=
  ((ix.inStep_keeping st _).resolve e trivial).keeps (I := st.KeptIn) (.refl st)

/-- The answer for a reference that was looked up before is the one that is remembered. -/
theorem resolve_of_remembered {e : Expr} {st : BindState} {r : Option Resolution}
    (h : st.resolutions[e.node]? = some r) : ix.resolve e st = (.ok r, st) := by
  show ix.resolveStep (ix.queriesWithin (2 * ix.nodeCount + 1)) e st = _
  rw [resolveStep_eq, remembered_apply, h]

/-- The answer for a reference is remembered. -/
theorem remembered_of_resolve {e : Expr} {st st' : BindState} {r : Option Resolution}
    (h : ix.resolve e st = (.ok r, st')) : st'.resolutions[e.node]? = some r := by
  change ix.resolveStep (ix.queriesWithin (2 * ix.nodeCount + 1)) e st = _ at h
  rw [resolveStep_eq, remembered_apply] at h
  cases hknown : st.resolutions[e.node]? with
  | some known =>
    rw [hknown] at h
    cases h
    exact hknown
  | none =>
    rw [hknown] at h
    dsimp only at h
    split at h
    · cases h
      exact Std.TreeMap.getElem?_insert_self
    · cases h

end Index

-- ===== work that settles

namespace Session

/-- Work keeps what was remembered, whether it comes to a value or fails. -/
def Recalls (work : Session Id α) : Prop :=
  ∀ st : BindState, st.KeptIn (Id.run (work st)).2

/-- Once work came to a value, it comes to it again from all later states, and changes nothing. -/
structure Settles (work : Session Id α) : Prop where
  recalls : Recalls work
  again : ∀ {st st' : BindState} {a : α}, work.Gives st a st' → ∀ {later : BindState},
    st'.KeptIn later → work.Gives later a later

namespace Gives

variable {work : Session Id α} {st st' st'' : BindState} {a b : α}

theorem state_eq (h : work.Gives st a st') : (Id.run (work st)).2 = st' :=
  congrArg Prod.snd h

theorem value_eq (h : work.Gives st a st') (h' : work.Gives st b st'') : a = b :=
  Except.ok.inj (congrArg Prod.fst (h.symm.trans h'))

end Gives

variable {x : Session Id α} {f : α → Session Id β}

theorem Recalls.bind (hx : x.Recalls) (hf : ∀ a, (f a).Recalls) : (x >>= f).Recalls := by
  intro st
  cases hrun : Id.run (x st) with
  | mk outcome st' =>
    have hfirst : st.KeptIn st' := by
      have hkept := hx st
      rw [hrun] at hkept
      exact hkept
    have hbind : Id.run (x st >>= fun r => ExceptT.bindCont f r.1 r.2)
        = Id.run (ExceptT.bindCont f outcome st') :=
      congrArg (fun r => Id.run (ExceptT.bindCont f r.1 r.2)) hrun
    show st.KeptIn (Id.run (x st >>= fun r => ExceptT.bindCont f r.1 r.2)).2
    rw [hbind]
    cases outcome with
    | ok a => exact hfirst.trans (hf a st')
    | error e => exact hfirst

namespace Settles

theorem of_pure (a : α) : (pure a : Session Id α).Settles where
  recalls st := .refl st
  again h later _ := by
    rw [gives_pure_iff] at h ⊢
    exact ⟨h.1, rfl⟩

theorem of_log (c : Context) (level : LogLevel) (message : String) :
    (c.log level message : Session Id Unit).Settles where
  recalls st := by
    have hlog : (c.log level message : Session Id Unit).Gives st () st := gives_log_iff.2 rfl
    rw [hlog.state_eq]
    exact .refl st
  again _ _ _ := gives_log_iff.2 rfl

theorem bind (hx : x.Settles) (hf : ∀ a, (f a).Settles) : (x >>= f).Settles where
  recalls := hx.recalls.bind fun a => (hf a).recalls
  again h later hlater := by
    obtain ⟨a, st₁, ha, hb⟩ := gives_bind_iff.1 h
    have hmore := (hf a).recalls st₁
    rw [hb.state_eq] at hmore
    exact gives_bind_iff.2 ⟨a, later, hx.again ha (hmore.trans hlater), (hf a).again hb hlater⟩

end Settles

end Session

theorem Index.resolve_settles (ix : Index) (e : Expr) :
    (ix.service.resolve e : Session Id (Option Resolution)).Settles where
  recalls st := ix.resolve_keeps e st
  again h _ hlater := ix.resolve_of_remembered (hlater _ _ (ix.remembered_of_resolve h))

-- ===== collecting and walking

section

variable {s : Service (Session Id)} (hs : ∀ e, (s.resolve e).Settles) (c : Context)

open Session

theorem likeness_settles : Likeness (m := Session Id) (n := Session Id) c fun _ x _ => x.Settles :=
  ⟨.of_pure, .bind, .of_log c⟩

include hs

/-- Collecting from a unit settles if resolving references does. -/
theorem collect_settles (u : TypeUnit) : (collect s c u).Settles :=
  (likeness_settles c).of_collect s s hs u

/-- Bundling settles if resolving references does. -/
theorem bundle_settles (root : String) (stop : Nat → Bool) : (bundle s c root stop).Settles :=
  (likeness_settles c).of_bundle s s hs ⟨rfl, fun _ => rfl, fun _ _ _ => rfl⟩ stop root

end

-- ===== the flag to stop

section

variable {s : Service (Session Id)} {c : Context} {stop : Nat → Bool} {st st' : BindState}

open Session

/-- A walk that comes to its end is the one whose flag to stop is never raised. -/
theorem walkWithin_gives_undisturbed {n : Nat} {stack : List TypeUnit} {w w' : Walk}
    (h : (walkWithin s c stop n stack w).Gives st (.ok w') st') :
    (walkWithin s c (fun _ => false) n stack w).Gives st (.ok w') st' := by
  induction n generalizing stack w st with
  | zero => exact h
  | succ n ihn =>
    induction stack generalizing w st with
    | nil => exact h
    | cons u stack ih =>
      rw [walkWithin_cons] at h ⊢
      rw [if_neg Bool.false_ne_true]
      cases hstop : stop w.polls with
      | true =>
        rw [hstop, if_pos rfl, gives_pure_iff] at h
        cases h.1
      | false =>
        rw [hstop, if_neg Bool.false_ne_true] at h
        cases hmarked : w.marked? u with
        | some known =>
          simp only [hmarked] at h ⊢
          by_cases hkey : known.key = u.key
          · rw [if_pos hkey] at h ⊢
            exact ih h
          · rw [if_neg hkey] at h ⊢
            exact h
        | none =>
          simp only [hmarked] at h ⊢
          by_cases henum : u.isEnum = true
          · rw [if_pos henum, gives_bind_iff] at h ⊢
            obtain ⟨a, st₁, hlog, hrest⟩ := h
            exact ⟨a, st₁, hlog, ih hrest⟩
          · rw [if_neg henum, gives_bind_iff] at h ⊢
            obtain ⟨found, st₁, hfound, hrest⟩ := h
            obtain ⟨a, st₂, hlog, hrest⟩ := gives_bind_iff.1 hrest
            exact ⟨found, st₁, hfound, gives_bind_iff.2 ⟨a, st₂, hlog, ihn hrest⟩⟩

/-- A bundle that is completed is the one of a walk whose flag to stop is never raised. -/
theorem bundle_gives_undisturbed {root : String} {b : Bundle}
    (h : (bundle s c root stop).Gives st (.ok b) st') :
    (bundle s c root).Gives st (.ok b) st' := by
  unfold bundle at h ⊢
  rw [gives_bind_iff] at h ⊢
  obtain ⟨a, st₁, hlog, h⟩ := h
  refine ⟨a, st₁, hlog, ?_⟩
  cases hroot : locateRoot s root with
  | error e =>
    simp only [hroot] at h ⊢
    exact h
  | ok u =>
    simp only [hroot, gives_bind_iff] at h ⊢
    obtain ⟨a', st₂, hlog', r, st₃, hwalk, h⟩ := h
    refine ⟨a', st₂, hlog', r, st₃, ?_, h⟩
    cases r with
    | error e =>
      rw [gives_pure_iff] at h
      cases h.1
    | ok w => exact walkWithin_gives_undisturbed hwalk

end

-- ===== operations in order

/-- What a session may be asked to do. -/
inductive Operation where
  | ask (question : Question)
  | collect (c : Context) (u : TypeUnit)
  | bundle (c : Context) (root : String) (stop : Nat → Bool)

/-- What an operation comes to. -/
inductive Operation.Outcome where
  | answer (a : Answer)
  | collection (found : Collection)
  | bundle (r : Except WalkError Bundle)

/-- The bundle that an operation comes to, if it is a completed one. -/
def Operation.Outcome.completed? : Except BindError Operation.Outcome → Option Bundle
  | .ok (.bundle (.ok b)) => some b
  | _ => none

namespace Index

variable (ix : Index)

/-- Performs an operation. -/
def perform : Operation → Session Id Operation.Outcome
  | .ask question => return .answer (← Session.ofBind (ix.queries.ask question))
  | .collect c u => return .collection (← SourceBundle.collect ix.service c u)
  | .bundle c root stop => return .bundle (← SourceBundle.bundle ix.service c root stop)

/-- What operations come to that are performed one after another. One that fails does not end the
session. -/
def performAll : List Operation → BindState → List (Except BindError Operation.Outcome)
  | [], _ => []
  | op :: ops, st =>
    let (outcome, st) := Id.run (ix.perform op st)
    outcome :: performAll ops st

theorem perform_recalls (op : Operation) : (ix.perform op).Recalls := by
  cases op with
  | ask question =>
    have hask : (Session.ofBind (ix.queries.ask question) : Session Id Answer).Recalls :=
      ix.ask_keeps question
    exact hask.bind fun _ => (Session.Settles.of_pure _).recalls
  | collect c u =>
    exact (collect_settles ix.resolve_settles c u).recalls.bind fun _ =>
      (Session.Settles.of_pure _).recalls
  | bundle c root stop =>
    exact (bundle_settles ix.resolve_settles c root stop).recalls.bind fun _ =>
      (Session.Settles.of_pure _).recalls

variable {ops : List Operation} {op op' : Operation} {i j : Nat}

/-- An operation is performed in a state that keeps what was remembered at the start. -/
theorem exists_state_of_performed (hop : ops[j]? = some op) (st : BindState) :
    ∃ later, st.KeptIn later
      ∧ (ix.performAll ops st)[j]? = some (Id.run (ix.perform op later)).1 := by
  induction ops generalizing j st with
  | nil => cases hop
  | cons first ops ih =>
    cases j with
    | zero =>
      cases hop
      exact ⟨st, .refl st, rfl⟩
    | succ j =>
      obtain ⟨later, hkept, hrun⟩ := ih hop (Id.run (ix.perform first st)).2
      exact ⟨later, (ix.perform_recalls first st).trans hkept, hrun⟩

/-- An operation after another is performed in a state that keeps what was remembered when the
other was done, whatever is performed between them. -/
theorem exists_states_of_performed (hop : ops[i]? = some op) (hop' : ops[j]? = some op')
    (hij : i < j) (st : BindState) :
    ∃ now later, (Id.run (ix.perform op now)).2.KeptIn later
      ∧ (ix.performAll ops st)[i]? = some (Id.run (ix.perform op now)).1
      ∧ (ix.performAll ops st)[j]? = some (Id.run (ix.perform op' later)).1 := by
  induction ops generalizing i j st with
  | nil => cases hop
  | cons first ops ih =>
    cases j with
    | zero => cases hij
    | succ j =>
      cases i with
      | zero =>
        obtain rfl : first = op := Option.some.inj hop
        have hrest : ops[j]? = some op' := hop'
        obtain ⟨later, hkept, hrun⟩ :=
          ix.exists_state_of_performed hrest (Id.run (ix.perform first st)).2
        exact ⟨st, later, hkept, rfl, hrun⟩
      | succ i => exact ih hop hop' (Nat.lt_of_succ_lt_succ hij) _

variable {ix} {st : BindState}

/-- A completed bundle is what bundling without a flag to stop gives. -/
theorem gives_of_completed {c : Context} {root : String} {stop : Nat → Bool} {b : Bundle}
    (h : Operation.Outcome.completed? (Id.run (ix.perform (.bundle c root stop) st)).1 = some b) :
    (SourceBundle.bundle ix.service c root).Gives st (.ok b)
      (Id.run (ix.perform (.bundle c root stop) st)).2 := by
  have hgives : (ix.perform (.bundle c root stop)).Gives st (.bundle (.ok b))
      (Id.run (ix.perform (.bundle c root stop) st)).2 := by
    unfold Operation.Outcome.completed? at h
    split at h
    · next b' hrun =>
      cases h
      exact Prod.ext hrun rfl
    · cases h
  obtain ⟨r, st', hbundle, hpure⟩ := Session.gives_bind_iff.1 hgives
  obtain ⟨heq, hstate⟩ := Session.gives_pure_iff.1 hpure
  cases heq
  rw [← hstate]
  exact bundle_gives_undisturbed hbundle

/-- Of two completed bundles of a root the later is the earlier. -/
theorem completed_eq_of_lt {c : Context} {root : String} {stop stop' : Nat → Bool} {b b' : Bundle}
    (hop : ops[i]? = some (.bundle c root stop)) (hop' : ops[j]? = some (.bundle c root stop'))
    (hij : i < j) (hb : (ix.performAll ops st)[i]?.bind Operation.Outcome.completed? = some b)
    (hb' : (ix.performAll ops st)[j]?.bind Operation.Outcome.completed? = some b') : b = b' := by
  obtain ⟨now, later, hkept, hnow, hlater⟩ := ix.exists_states_of_performed hop hop' hij st
  rw [hnow] at hb
  rw [hlater] at hb'
  have hagain := (bundle_settles ix.resolve_settles c root fun _ => false).again
    (gives_of_completed hb) hkept
  cases hagain.value_eq (gives_of_completed hb')
  rfl

end Index

namespace Workspace

/-- Bundling is repeatable: whatever operations a session performs, and whatever state it started
from, any two of them that complete the bundle of a root in a context come to the same bundle, and
so to the same text. -/
theorem bundling_repeats (w : Workspace) (ops : List Operation) (st : BindState) {c : Context}
    {root : String} {stop stop' : Nat → Bool} {i j : Nat} {b b' : Bundle}
    (hop : ops[i]? = some (.bundle c root stop)) (hop' : ops[j]? = some (.bundle c root stop'))
    (hb : (w.index.performAll ops st)[i]?.bind Operation.Outcome.completed? = some b)
    (hb' : (w.index.performAll ops st)[j]?.bind Operation.Outcome.completed? = some b') :
    b = b' ∧ b.text w.service c = b'.text w.service c := by
  have heq : b = b' := by
    rcases Nat.lt_trichotomy i j with hij | rfl | hji
    · exact Index.completed_eq_of_lt hop hop' hij hb hb'
    · exact Option.some.inj (hb.symm.trans hb')
    · exact (Index.completed_eq_of_lt hop' hop hji hb' hb).symm
  exact ⟨heq, by rw [heq]⟩

/-- Bundles a root, is stopped when it bundles it again, bundles it under another policy, asks all
there is to ask, and bundles it once more. -/
def repetition (w : Workspace) (root : String) : List Operation :=
  [.bundle {} root fun _ => false, .bundle {} root fun _ => true,
      .bundle { policy := .narrow } root fun _ => false]
    ++ w.allQuestions.map .ask ++ [.bundle {} root (10 < ·)]

/-- The class that is its own base is bundled twice. -/
theorem bundling_repeats_circles :
    let outcomes := circles.index.performAll (circles.repetition "A.R") {}
    ∃ b b', outcomes[0]?.bind Operation.Outcome.completed? = some b
      ∧ outcomes[circles.allQuestions.length + 3]?.bind Operation.Outcome.completed? = some b'
      ∧ b.units.length = 2 ∧ b = b' ∧ b.text circles.service {} = b'.text circles.service {} := by
  intro outcomes
  have hfirst :
      (outcomes[0]?.bind Operation.Outcome.completed?).any (·.units.length = 2) = true := by
    decide +kernel
  have hlast : (outcomes[circles.allQuestions.length + 3]?.bind Operation.Outcome.completed?).isSome
      = true := by
    decide +kernel
  have hop : (circles.repetition "A.R")[circles.allQuestions.length + 3]?
      = some (.bundle {} "A.R" (10 < ·)) := by
    simp [repetition]
  obtain ⟨b, hb, hunits⟩ := (Option.any_eq_true ..).1 hfirst
  obtain ⟨b', hb'⟩ := Option.isSome_iff_exists.1 hlast
  exact ⟨b, b', hb, hb', of_decide_eq_true hunits,
    bundling_repeats circles (circles.repetition "A.R") {} rfl hop hb hb'⟩

end Workspace

end SourceBundle
