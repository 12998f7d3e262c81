/-
The wide policy extends the narrow one: all that a root needs under the
narrow policy it needs under the wide one, and what is noted of a unit is
the same under both.

The two walks mark their units in different orders and keep different
stacks, so they are not compared step by step. What is collected from a
unit knows nothing of the policy (`collect_context`), so a step under the
narrow policy is one under the wide policy too (`Leads.widen`), and each
walk finds just what its steps reach.
-/
import SourceBundle.Proofs.Closure.Account
import SourceBundle.Proofs.Closure.Cancellation

namespace SourceBundle

-- ===== what a unit says

namespace Service

variable {s : Service Id} {c c' : Context} {u v : TypeUnit}

/-- A service that only answers collects the same from a unit in every context. -/
theorem collect_context (s : Service Id) (c c' : Context) (u : TypeUnit) :
    collect s c u = collect s c' u := by
  have hself : s.FunctionLike s.resolve := fun _ => .of_pure rfl
  have hcollect := collect_plain hself c c' u
  rw [always_id_iff] at hcollect
  exact hcollect

/-- The namespaces noted of a unit are the same in every context. -/
theorem noted_spaces_context (s : Service Id) (c c' : Context) (u : TypeUnit) :
    (noted (s.expand c) u).spaces = (noted (s.expand c') u).spaces := by
  unfold noted
  split
  · rfl
  · unfold expand
    rw [collect_context s c c']
    rfl

-- ===== steps

/-- What follows under the narrow policy follows under any. -/
theorem Follows.widen {m : Type → Type} {s : Service m} {found : Collection} {v : TypeUnit}
    (h : s.Follows .narrow found v) (policy : Policy) : s.Follows policy found v := by
  obtain ⟨symbol, hsymbol, hkind, dep, space, hunit, hspace, hv⟩ := h
  rcases hv with rfl | ⟨hwide, -⟩
  · exact ⟨symbol, hsymbol, hkind, v, space, hunit, hspace, .inl rfl⟩
  · cases hwide

theorem Leads.widen (h : s.Leads c u v) (hc : c.policy = .narrow) (c' : Context) :
    s.Leads c' u v := by
  obtain ⟨henum, hfollows⟩ := h
  rw [hc, collect_context s c c'] at hfollows
  exact ⟨henum, hfollows.widen c'.policy⟩

end Service

-- ===== the walks

/-- A walk is called off, or it is the walk whose flag to stop is never raised. -/
theorem walkWithin_undisturbed (s : Service Id) (c : Context) (stop : Nat → Bool) (n : Nat)
    (stack : List TypeUnit) (w : Walk) :
    Id.run (walkWithin s c stop n stack w) = Id.run (walkWithin s c (fun _ => false) n stack w)
      ∨ ∃ names, Id.run (walkWithin s c stop n stack w) = .error (.cancelled names) := by
  induction n generalizing stack w with
  | zero => exact .inl rfl
  | succ n ihn =>
    induction stack generalizing w with
    | nil => exact .inl rfl
    | cons u stack ih =>
      cases hstop : stop w.polls with
      | true =>
        rw [walkWithin_cons, if_pos hstop]
        exact .inr ⟨w.names, rfl⟩
      | false =>
        rw [walkWithin_pop _ hstop, walkWithin_pop _ rfl]
        cases w.marked? u with
        | some known =>
          by_cases hkey : known.key = u.key
          · simp only [if_pos hkey]
            exact ih w.poll
          · exact .inl (by simp only [if_neg hkey])
        | none =>
          cases u.isEnum with
          | true => exact ih _
          | false => exact ihn _ _

/-- The walk from a located root, with what is noted of its units. -/
theorem walkFrom_noted {s : Service Id} {c : Context} {root : String} {u : TypeUnit}
    (hdist : s.DistinctNames) (hroot : locateRoot s root = .ok u) :
    ∃ w, Id.run (walkFrom s c (fun _ => false) [u]) = .ok w
      ∧ (∀ v, v ∈ w.visited ↔ Relation.ReflTransGen (s.Leads c) u v)
      ∧ ∀ v ∈ w.visited, w.spaces.lookup v.qualifiedName = some (noted (s.expand c) v).spaces := by
  obtain ⟨w, hwalk, -, hnodup, hreach⟩ := walkFrom_eq_ok (c := c) hdist hroot
  have hvisits := walkFrom_visits (c := c) hroot
  rw [hwalk] at hvisits
  have hnotes : w.unpolled.Notes (s.expand c) := hvisits.notes rfl ⟨rfl, rfl⟩
  refine ⟨w, hwalk, hreach, fun v hv => ?_⟩
  rw [show w.spaces = _ from hnotes.spaces_eq]
  exact lookup_map_of_nodup _ hnodup hv

-- ===== the bundles

section

variable {m : Type → Type} [Monad m] [MonadLog m]

/-- Bundling a root comes to a bundle, unless it is called off. -/
structure Completes (s : Service m) (c : Context) (root : String) (b : Bundle) : Prop where
  undisturbed : Always (· = .ok b) (bundle s c root)
  stopped : ∀ stop, Always (fun r => r = .ok b ∨ ∃ names, r = .error (.cancelled names))
    (bundle s c root stop)

/-- The bundle of a root under the wide policy extends the one under the narrow policy: no unit is
lost, and for the units of both the same namespaces are noted. -/
structure Bundle.Extends (b b' : Bundle) : Prop where
  root_eq : b.root = b'.root
  units_subset : b.units ⊆ b'.units
  spaces_eq : ∀ v ∈ b.units, v ∈ b'.units → ∃ spaces,
    b.spaces.lookup v.qualifiedName = some spaces
      ∧ b'.spaces.lookup v.qualifiedName = some spaces

variable [LawfulMonad m] {s : Service m} {answer : Expr → Option Resolution}

/-- A walk that ends well unless it is called off gives a bundle. -/
theorem completes_of_walk (hs : s.FunctionLike answer) {c : Context} {root : String} {u : TypeUnit}
    {w : Walk} (hroot : locateRoot s root = .ok u)
    (hwalk : Id.run (walkFrom (s.plain answer) c (fun _ => false) [u]) = .ok w) :
    Completes s c root (w.unpolled.toBundle u c.policy) where
  undisturbed := by
    have hbundle := always_bundle hs c hroot fun _ => false
    rw [hwalk] at hbundle
    exact hbundle
  stopped stop := by
    refine (always_bundle hs c hroot stop).mono fun r hr => ?_
    rcases walkWithin_undisturbed (s.plain answer) c stop ((s.plain answer).names.length + 1) [u] {}
      with hsame | ⟨names, hnames⟩
    · rw [show Id.run (walkFrom (s.plain answer) c stop [u]) = _ from hsame.trans hwalk] at hr
      exact .inl hr
    · rw [show Id.run (walkFrom (s.plain answer) c stop [u]) = _ from hnames] at hr
      exact .inr ⟨names, hr⟩

/-- A root that is not located fails in the same way whatever the policy and the flag. -/
theorem always_bundle_error {c : Context} {root : String} {e : WalkError}
    (hroot : locateRoot s root = .error e) (stop : Nat → Bool) :
    Always (· = .error e) (bundle s c root stop) := by
  unfold bundle
  rw [hroot]
  exact .after _ fun _ => .of_pure rfl

/-- The wide policy extends the narrow one. Whatever the root, and whatever else the two contexts
ask for, bundling fails alike under both policies, or it completes under both, and the wide bundle
extends the narrow one. -/
theorem bundle_wide_extends_narrow (hs : s.FunctionLike answer) (hdist : s.DistinctNames)
    {narrow wide : Context} (hnarrow : narrow.policy = .narrow) (hwide : wide.policy = .wide)
    (root : String) :
    (∃ e, ∀ stop, Always (· = .error e) (bundle s narrow root stop)
        ∧ Always (· = .error e) (bundle s wide root stop))
      ∨ ∃ b b', Completes s narrow root b ∧ b.policy = .narrow
        ∧ Completes s wide root b' ∧ b'.policy = .wide ∧ b.Extends b' := by
  cases hroot : locateRoot s root with
  | error e =>
    exact .inl ⟨e, fun stop => ⟨always_bundle_error hroot stop, always_bundle_error hroot stop⟩⟩
  | ok u =>
    obtain ⟨w, hwalk, hreach, hspaces⟩ :=
      walkFrom_noted (s := s.plain answer) (c := narrow) hdist hroot
    obtain ⟨w', hwalk', hreach', hspaces'⟩ :=
      walkFrom_noted (s := s.plain answer) (c := wide) hdist hroot
    refine .inr ⟨_, _, completes_of_walk hs hroot hwalk, hnarrow,
      completes_of_walk hs hroot hwalk', hwide, rfl, ?_, ?_⟩
    · intro v hv
      have hstep : ∀ x y, (s.plain answer).Leads narrow x y → (s.plain answer).Leads wide x y :=
        fun _ _ hxy => hxy.widen hnarrow wide
      exact (hreach' v).2 (Relation.ReflTransGen.mono hstep u v ((hreach v).1 hv))
    · intro v hv hv'
      refine ⟨_, hspaces v hv, ?_⟩
      rw [Service.noted_spaces_context (s.plain answer) narrow wide]
      exact hspaces' v hv'

/-- The ring is bundled under both policies. -/
theorem bundle_wide_extends_narrow_ring :
    (Graph.ring.service tally).DistinctNames
      ∧ ∃ b b', Completes (Graph.ring.service tally) { policy := .narrow } "A.Root" b
        ∧ b.policy = .narrow ∧ Completes (Graph.ring.service tally) {} "A.Root" b'
        ∧ b'.policy = .wide ∧ b.Extends b' := by
  have hdist : (Graph.ring.service tally).DistinctNames :=
    Graph.service_distinctNames tally (by decide +kernel) rfl
  refine ⟨hdist, ?_⟩
  rcases bundle_wide_extends_narrow (Graph.ring.service_functionLike tally) hdist
    (show ({ policy := .narrow } : Context).policy = .narrow from rfl)
    (show ({} : Context).policy = .wide from rfl) "A.Root" with ⟨e, he⟩ | hboth
  · -- the root is located, so the bundle of a count that starts at zero is no error
    obtain ⟨y, hy⟩ := (he fun _ => false).2
    have hrun : (Id.run (y 0)).1.1
        = (Id.run (bundle (Graph.ring.service tally) {} "A.Root" (fun _ => false) 0)).1 :=
      congrArg (fun x => (Id.run (x 0)).1) hy
    rw [(Id.run (y 0)).1.2] at hrun
    cases hrun
  · exact hboth

end

end SourceBundle
