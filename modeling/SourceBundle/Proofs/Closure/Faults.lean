/-
Where the units of a service have names of their own and each lies in
the namespace that its name says (`Regular`), bundling shows none of the
faults of a service: there are no two units of one name, no root in
another namespace than its own, and no dependency without a namespace.
The collection has warnings too, but those bear other codes.
-/
import SourceBundle.Proofs.Closure.Comparison
import SourceBundle.Proofs.Closure.Reachability
import SourceBundle.Proofs.Effects

namespace SourceBundle

open List

-- ===== warnings

/-- The diagnostic is none that says that a dependency lies in no namespace. -/
def Diagnostic.IsHomed (d : Diagnostic) : Prop :=
  d.code ≠ some "CLO-0010"

theorem Diagnostic.isHomed_of_message {d : Diagnostic} {rest : List Char}
    (h : d.message.toList = '[' :: 'C' :: 'O' :: rest) : d.IsHomed := by
  intro hcode
  unfold Diagnostic.code at hcode
  rw [h] at hcode
  simp only [takeWhile_cons] at hcode
  split at hcode
  · have hlist := congrArg String.toList (Option.some.inj hcode)
    rw [String.toList_ofList] at hlist
    simp at hlist
  · cases hcode

/-- The warnings of the collection bear codes of their own. -/
theorem Resolution.keep_warning {answer : Resolution} {creation : Bool} {message : String}
    (h : (answer.keep creation).2 = some message) :
    ∃ rest, message.toList = '[' :: 'C' :: 'O' :: rest := by
  have hunresolved : ∀ name reason : String,
      ∃ rest, (unresolvedMessage name reason).toList = '[' :: 'C' :: 'O' :: rest := by
    intro name reason
    unfold unresolvedMessage
    rw [String.toList_append, String.toList_append, String.toList_append]
    exact ⟨_, rfl⟩
  cases answer with
  | resolved symbol => cases h
  | unresolved name reason =>
    cases h
    exact hunresolved name reason
  | ambiguous name candidates =>
    cases creation with
    | false =>
      cases h
      simp only [String.toList_append]
      exact ⟨_, rfl⟩
    | true =>
      cases candidates with
      | nil =>
        cases h
        exact hunresolved name ""
      | cons first rest =>
        cases h
        simp only [String.toList_append]
        exact ⟨_, rfl⟩

section

variable {m : Type → Type} [Monad m] [LawfulMonad m] [MonadLog m]

/-- All warnings of a collection are homed. -/
def Collection.IsHomed (found : Collection) : Prop :=
  ∀ d ∈ found.diagnostics, d.IsHomed

theorem Collection.gathers_isHomed : Collection.Gathers (fun _ => True) Collection.IsHomed where
  empty _ hd := nomatch hd
  answer c unit file e a _ := by
    cases a with
    | none => exact fun _ hd => nomatch hd
    | some answer =>
      dsimp only [collectAnswer]
      cases hanswer : answer.keep e.isCreation with
      | mk symbol warning =>
        cases warning with
        | none => exact fun _ hd => nomatch hd
        | some message =>
          obtain ⟨rest, hrest⟩ := Resolution.keep_warning (congrArg Prod.snd hanswer)
          intro d hd
          rw [mem_singleton.1 hd]
          cases e.span with
          | none => exact Diagnostic.isHomed_of_message hrest
          | some span => exact Diagnostic.isHomed_of_message hrest
  append ha hb d hd := (mem_append.1 hd).elim (ha d) (hb d)
  distinct h := h

theorem always_collect_isHomed (s : Service m) (c : Context) (u : TypeUnit) :
    Always Collection.IsHomed (collect s c u) :=
  have halways : Comparison c c fun _ P x (_ : m _) => Always P x :=
    ⟨.of_pure, .bind, fun _ _ => .of_any _⟩
  halways.of_collect s s Collection.gathers_isHomed (fun _ => .of_any _) u

end

-- ===== regular

section

variable {m : Type → Type} {s : Service m}

/-- The units of a service have names of their own, and each lies in the namespace that its name
says. -/
structure Service.Regular (s : Service m) : Prop where
  distinct : s.DistinctNames
  housed : ∀ u, s.HasUnit u → s.enclosingSpace u = some u.space
  named : ∀ space name u, s.findUnit space name = some u → u.qualifiedName = Text.dotted space name

/-- The walk has marked units of the service, and its warnings are homed. -/
structure Walk.IsRegular (s : Service m) (w : Walk) : Prop where
  units : ∀ u ∈ w.visited, s.HasUnit u
  homed : ∀ d ∈ w.diagnostics, d.IsHomed

theorem Walk.IsRegular.mark {w : Walk} (hw : w.IsRegular s) {u : TypeUnit} (hu : s.HasUnit u)
    {spaces : List String} {ds : List Diagnostic} (hds : ∀ d ∈ ds, d.IsHomed) :
    (w.mark u spaces ds).IsRegular s where
  units v hv := by
    rcases mem_append.1 hv with hv | hv
    · exact hw.units v hv
    · rw [mem_singleton.1 hv]
      exact hu
  homed d hd := by
    rcases mem_append.1 hd with hd | hd
    · exact hw.homed d hd
    · exact hds d hd

namespace Service.Regular

/-- Where all units have a namespace, no dependency is without one. -/
theorem warning?_dependency (hs : s.Regular) (own : String) (symbol : Symbol) :
    (s.dependency symbol).warning? own = none := by
  unfold Service.dependency
  split
  · rfl
  · cases hunit : s.declaringUnit symbol with
    | none => rfl
    | some u =>
      dsimp only
      rw [hs.housed u (.inr (.inl ⟨symbol, hunit⟩))]
      rfl

theorem expansion_isHomed (hs : s.Regular) (policy : Policy) (u : TypeUnit) {found : Collection}
    (hfound : found.IsHomed) : ∀ d ∈ (s.expansion policy u found).diagnostics, d.IsHomed := by
  intro d hd
  rcases mem_append.1 hd with hd | hd
  · exact hfound d hd
  · obtain ⟨dep, hdep, hwarning⟩ := mem_filterMap.1 hd
    obtain ⟨symbol, -, rfl⟩ := mem_map.1 hdep
    rw [hs.warning?_dependency] at hwarning
    cases hwarning

/-- A root is not located because its name is no qualified one or nothing of the name can be a
root. -/
theorem locateRoot_eq_error (hs : s.Regular) {root : String} {e : WalkError}
    (h : locateRoot s root = .error e) : e = .rootUnqualified root ∨ e = .rootNotFound root := by
  unfold locateRoot at h
  simp only at h
  split at h
  · cases h
    exact .inl rfl
  cases hfind : s.findUnit (Text.splitLast root).1 (Text.splitLast root).2 with
  | none =>
    rw [hfind] at h
    cases h
    exact .inr rfl
  | some u =>
    rw [hfind] at h
    dsimp only at h
    split at h
    · cases h
      exact .inr rfl
    have hspace := hs.housed u (.inl ⟨_, _, hfind⟩)
    rw [(Text.dotted_inj u.dotless (Text.dotless_splitLast root) (hs.named _ _ u hfind)).1]
      at hspace
    rw [if_neg (not_not.2 hspace)] at h
    cases h

end Service.Regular

end

-- ===== the walk

section

variable {m : Type → Type} [Monad m] [LawfulMonad m] [MonadLog m] {s : Service m}

/-- A walk ends in units of the service with homed warnings, or was called off. -/
def RegularWalk (s : Service m) : Except WalkError Walk → Prop
  | .ok w => w.IsRegular s
  | .error e => ∃ visited, e = .cancelled visited

/-- A walk over units of a regular service ends as it should. -/
theorem Service.Regular.walkWithin (hs : s.Regular) (c : Context) (stop : Nat → Bool) (bound : Nat)
    {stack : List TypeUnit} {w : Walk} (hstack : ∀ u ∈ stack, s.HasUnit u) (hw : w.IsRegular s) :
    Always (RegularWalk s) (walkWithin s c stop bound stack w) := by
  induction bound generalizing stack w with
  | zero => exact .of_pure hw
  | succ bound ihbound =>
    induction stack generalizing w with
    | nil => exact .of_pure hw
    | cons u stack ih =>
      have hu := hstack u mem_cons_self
      have hrest : ∀ v ∈ stack, s.HasUnit v := fun v hv => hstack v (mem_cons_of_mem _ hv)
      have hpoll : w.poll.IsRegular s := ⟨hw.units, hw.homed⟩
      rw [walkWithin_cons]
      split
      · exact .of_pure ⟨_, rfl⟩
      cases hmarked : w.marked? u with
      | some known =>
        dsimp only
        -- the unit that is marked under this name is this one
        obtain ⟨hmem, hname⟩ := Walk.mem_of_marked?_eq_some hmarked
        rw [hs.distinct known u (hw.units known hmem) hu hname, if_pos rfl]
        exact ih hrest hpoll
      | none =>
        dsimp only
        split
        · exact .after _ fun _ => ih hrest (hpoll.mark hu fun _ hd => nomatch hd)
        · refine (always_collect_isHomed s c u).bind fun found hfound => .after _ fun _ => ?_
          refine ihbound (fun v hv => ?_)
            (hpoll.mark hu (hs.expansion_isHomed c.policy u hfound))
          rcases mem_append.1 hv with hv | hv
          · exact Service.hasUnit_of_mem_successors hv
          · exact hrest v hv

/-- The outcome of a bundling shows none of the faults that a service may have. -/
def Faultless : Except WalkError Bundle → Prop
  | .ok b => ∀ d ∈ b.diagnostics, d.code ≠ some "CLO-0010"
  | .error (.duplicateUnit _) => False
  | .error (.spaceMissing _ _) => False
  | .error _ => True

/-- Bundling over a regular service shows no fault of the service. -/
theorem Service.Regular.bundle (hs : s.Regular) (c : Context) (root : String) (stop : Nat → Bool) :
    Always Faultless (bundle s c root stop) := by
  refine .after _ fun _ => ?_
  cases hroot : locateRoot s root with
  | error e =>
    rcases hs.locateRoot_eq_error hroot with rfl | rfl
    · exact .of_pure trivial
    · exact .of_pure trivial
  | ok u =>
    have hu : s.HasUnit u := .inl ⟨_, _, (locateRoot_eq_ok hroot).1⟩
    refine .after _ fun _ => ?_
    have hstack : ∀ v ∈ [u], s.HasUnit v := by
      intro v hv
      rw [mem_singleton.1 hv]
      exact hu
    have hempty : Walk.IsRegular s {} := ⟨fun _ hv => (nomatch hv), fun _ hd => nomatch hd⟩
    refine (hs.walkWithin c stop (s.names.length + 1) hstack hempty).bind fun r hr => ?_
    cases r with
    | error e =>
      obtain ⟨visited, rfl⟩ := hr
      exact .of_pure trivial
    | ok w => exact .after _ fun _ => .of_pure hr.homed

end

end SourceBundle
