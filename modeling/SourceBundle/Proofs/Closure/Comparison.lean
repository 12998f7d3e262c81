/-
Comparing work step by step.

Collecting from units and walking from one to the next is work in
whatever monad looks references up. A way to compare work in two monads
that holds of plain values and of lines of the log, and that goes on from
one step to the next (`Comparison`), holds of all that is collected as
soon as it holds of looking references up. A comparison may ask that the
values have a property; one that asks nothing of them (`Likeness`) holds
of walks and bundles too.
-/
import SourceBundle.Closure.Walk

namespace SourceBundle

variable {m n : Type → Type} [Monad m] [MonadLog m] [Monad n] [MonadLog n] {c c' : Context}
  (s : Service m) (s' : Service n)

-- ===== collecting

/-- A way to compare work, in two contexts, that comes to the same value with a property. -/
structure Comparison (c c' : Context) (R : (α : Type) → (α → Prop) → m α → n α → Prop) :
    Prop where
  pure {α : Type} {P : α → Prop} {a : α} : P a → R α P (pure a) (pure a)
  bind {α β : Type} {P : α → Prop} {Q : β → Prop} {x : m α} {y : n α} {f : α → m β}
    {g : α → n β} : R α P x y → (∀ a, P a → R β Q (f a) (g a)) → R β Q (x >>= f) (y >>= g)
  log (level : LogLevel) (message : Context → String) :
    R Unit (fun _ => True) (c.log level (message c)) (c'.log level (message c'))

/-- A property that a collection has if the answers for its references have another. -/
structure Collection.Gathers (Q : Option Resolution → Prop) (P : Collection → Prop) : Prop where
  empty : P {}
  answer (c : Context) (unit : String) (file : Option String) (e : Expr) {a : Option Resolution} :
    Q a → P (Id.run (collectAnswer c unit file e a))
  append {a b : Collection} : P a → P b → P (a.append b)
  distinct {a : Collection} :
    P a → P { a with symbols := Text.distinctBy Symbol.identity a.symbols }

theorem Collection.gathers_true : Collection.Gathers (fun _ => True) fun _ => True :=
  ⟨trivial, fun _ _ _ _ _ _ => trivial, fun _ _ => trivial, fun _ => trivial⟩

namespace Comparison

variable {R : (α : Type) → (α → Prop) → m α → n α → Prop} {P : Collection → Prop}
  {Q : Option Resolution → Prop} {unit : String} {file : Option String} (h : Comparison c c' R)
include h

theorem of_answer {e : Expr} {a : Option Resolution}
    (ha : P (Id.run (collectAnswer c unit file e a))) :
    R _ P (collectAnswer c unit file e a) (collectAnswer c' unit file e a) := by
  cases a with
  | none => exact h.pure ha
  | some answer =>
    dsimp only [collectAnswer] at ha ⊢
    cases hkeep : answer.keep e.isCreation with
    | mk symbol warning =>
      rw [hkeep] at ha
      cases warning with
      | none => exact h.pure ha
      | some message =>
        exact h.bind (h.log _ fun c => Diagnostic.format c.directory _) fun _ _ => h.pure ha

variable (hP : Collection.Gathers Q P) (hs : ∀ e, R _ Q (s.resolve e) (s'.resolve e))
include hP hs

theorem of_each (es : List Expr) :
    R _ P (collectEach s c unit file es) (collectEach s' c' unit file es) := by
  induction es with
  | nil => exact h.pure hP.empty
  | cons e es ih =>
    have hfirst : R _ P (collectFrom s c unit file e) (collectFrom s' c' unit file e) :=
      h.bind (hs e) fun _ ha => h.of_answer (hP.answer c unit file e ha)
    exact h.bind hfirst fun _ ha => h.bind ih fun _ hb => h.pure (hP.append ha hb)

theorem of_parts (ps : List UnitPart) :
    R _ P (collectParts s c unit ps) (collectParts s' c' unit ps) := by
  induction ps with
  | nil => exact h.pure hP.empty
  | cons p ps ih =>
    exact h.bind (h.of_each s s' hP hs p.decl.references) fun _ ha =>
      h.bind ih fun _ hb => h.pure (hP.append ha hb)

/-- What is collected from a unit compares as looking references up does. -/
theorem of_collect (u : TypeUnit) : R _ P (collect s c u) (collect s' c' u) :=
  h.bind (h.of_parts s s' hP hs u.parts) fun _ ha =>
    h.bind (h.log _ fun _ => _) fun _ _ => h.pure (hP.distinct ha)

end Comparison

-- ===== walking

/-- A way to compare work that asks nothing of the values it comes to. -/
structure Likeness (c : Context) (S : (α : Type) → m α → n α → Prop) : Prop where
  pure {α : Type} (a : α) : S α (pure a) (pure a)
  bind {α β : Type} {x : m α} {y : n α} {f : α → m β} {g : α → n β} :
    S α x y → (∀ a, S β (f a) (g a)) → S β (x >>= f) (y >>= g)
  log (level : LogLevel) (message : String) : S Unit (c.log level message) (c.log level message)

/-- Whatever goes on in like ways from the values with a property is alike after the work. -/
def Before (S : (α : Type) → m α → n α → Prop) (α : Type) (P : α → Prop) (x : m α) (y : n α) :
    Prop :=
  ∀ (β : Type) (f : α → m β) (g : α → n β),
    (∀ a, P a → S β (f a) (g a)) → S β (x >>= f) (y >>= g)

/-- Services that tell the same of units. -/
structure Service.Fellow (s : Service m) (s' : Service n) : Prop where
  names_eq : s.names = s'.names
  locateRoot_eq : ∀ root, locateRoot s root = locateRoot s' root
  expansion_eq : ∀ policy u found, s.expansion policy u found = s'.expansion policy u found

namespace Likeness

variable [LawfulMonad m] [LawfulMonad n] {S : (α : Type) → m α → n α → Prop}
  (h : Likeness c S)
include h

theorem before : Comparison c c (Before S) where
  pure ha _ f g hfg := by
    rw [pure_bind, pure_bind]
    exact hfg _ ha
  bind hx hf _ k l hkl := by
    rw [bind_assoc, bind_assoc]
    exact hx _ _ _ fun a ha => hf a ha _ k l hkl
  log level message _ f g hfg := h.bind (h.log level _) fun a => hfg a trivial

variable (hs : ∀ e, S _ (s.resolve e) (s'.resolve e))
include hs

theorem of_collect (u : TypeUnit) : S _ (collect s c u) (collect s' c u) := by
  have hbefore := h.before.of_collect s s' Collection.gathers_true
    (fun e _ f g hfg => h.bind (hs e) fun a => hfg a trivial) u _ Pure.pure Pure.pure
    fun a _ => h.pure a
  rwa [bind_pure, bind_pure] at hbefore

variable (hfellow : s.Fellow s') (stop : Nat → Bool)
include hfellow

theorem of_walkStep {next : List TypeUnit → Walk → m (Except WalkError Walk)}
    {next' : List TypeUnit → Walk → n (Except WalkError Walk)}
    (hnext : ∀ stack w, S _ (next stack w) (next' stack w)) (stack : List TypeUnit) (w : Walk) :
    S _ (walkStep s c stop next stack w) (walkStep s' c stop next' stack w) := by
  induction stack generalizing w with
  | nil => exact h.pure _
  | cons u stack ih =>
    dsimp only [walkStep]
    cases stop w.polls with
    | true => exact h.pure _
    | false =>
      cases w.poll.marked? u with
      | some known =>
        by_cases hkey : known.key = u.key
        · simp only [if_pos hkey]
          exact ih _
        · simp only [if_neg hkey]
          exact h.pure _
      | none =>
        cases u.isEnum with
        | true => exact h.bind (h.log ..) fun _ => ih _
        | false =>
          refine h.bind (h.of_collect s s' hs u) fun found => ?_
          rw [hfellow.expansion_eq]
          exact h.bind (h.log ..) fun _ => hnext _ _

theorem of_walkWithin (bound : Nat) (stack : List TypeUnit) (w : Walk) :
    S _ (walkWithin s c stop bound stack w) (walkWithin s' c stop bound stack w) := by
  induction bound generalizing stack w with
  | zero => exact h.pure _
  | succ bound ih => exact h.of_walkStep s s' hs hfellow stop ih stack w

/-- Bundling compares as looking references up does. -/
theorem of_bundle (root : String) :
    S _ (bundle s c root stop) (bundle s' c root stop) := by
  refine h.bind (h.log ..) fun _ => ?_
  rw [hfellow.locateRoot_eq]
  cases locateRoot s' root with
  | error e => exact h.pure _
  | ok u =>
    refine h.bind (h.log ..) fun _ => ?_
    unfold walkFrom
    rw [hfellow.names_eq]
    refine h.bind (h.of_walkWithin s s' hs hfellow stop _ [u] {}) fun r => ?_
    cases r with
    | error e => exact h.pure _
    | ok w => exact h.bind (h.log ..) fun _ => h.pure _

end Likeness

end SourceBundle
