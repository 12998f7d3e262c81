/-
The walk with a stack against the recursive formulation: to visit a
unit, stop if it is marked; else mark it and, unless it is an enum,
expand it and visit its successors in order.

The recursive formulation is a relation (`Visits`), one rule for each
way a visit can go, so it has no bound on its depth. The stack of the
walk is the list of all units that are still to be visited by the
frames of the recursion, innermost frame first; `visits_append` cuts it
at a frame. Units may stand on the stack more than once and may be
marked before their turn comes: both sides look at the marks only when
the unit's turn has come.

The bound of the walk is never met: each expansion marks another of the
service's names (`unmarked_mark_lt`).
-/
import SourceBundle.Closure.Walk
import SourceBundle.Proofs.Text.Distinct

namespace SourceBundle

open List

variable {m : Type → Type}

-- ===== marks

namespace Walk

@[simp] theorem names_mark (w : Walk) (u : TypeUnit) (spaces : List String)
    (diagnostics : List Diagnostic) :
    (w.mark u spaces diagnostics).names = w.names ++ [u.qualifiedName] := by
  simp [names, mark]

theorem marked?_eq_none_iff {w : Walk} {u : TypeUnit} :
    w.marked? u = none ↔ u.qualifiedName ∉ w.names := by
  simp [marked?, names]

theorem mem_of_marked?_eq_some {w : Walk} {u known : TypeUnit} (h : w.marked? u = some known) :
    known ∈ w.visited ∧ known.qualifiedName = u.qualifiedName :=
  ⟨mem_of_find?_eq_some h, by simpa using find?_some h⟩

end Walk

-- ===== successors

namespace Service

theorem dependency_eq_located_iff {s : Service m} {symbol : Symbol} {dep : TypeUnit}
    {space : String} :
    s.dependency symbol = .located dep space ↔
      symbol.kind ≠ .external ∧ s.declaringUnit symbol = some dep
        ∧ s.enclosingSpace dep = some space := by
  unfold dependency
  split
  · next hkind => simp [hkind]
  · next hkind =>
    cases hunit : s.declaringUnit symbol with
    | none => simp
    | some u =>
      dsimp only
      cases hspace : s.enclosingSpace u with
      | none =>
        simp only [reduceCtorEq, false_iff, Option.some.injEq]
        intro hlocated
        obtain ⟨-, rfl, h⟩ := hlocated
        rw [hspace] at h
        cases h
      | some sp =>
        simp only [Dependency.located.injEq, Option.some.injEq]
        constructor
        · intro hsame
          obtain ⟨rfl, rfl⟩ := hsame
          exact ⟨hkind, rfl, hspace⟩
        · intro hlocated
          obtain ⟨-, rfl, h⟩ := hlocated
          rw [hspace] at h
          exact ⟨rfl, Option.some.inj h⟩

/-- A unit that a dependency brings along is the unit itself or, under the wide policy, one of
its namespace. -/
theorem mem_brings_iff {s : Service m} {policy : Policy} {d : Dependency} {v : TypeUnit} :
    v ∈ s.brings policy d ↔
      ∃ dep space, d = .located dep space
        ∧ (v = dep ∨ policy = .wide ∧ v ∈ s.unitsIn space) := by
  cases d with
  | absent => simp [brings]
  | homeless u => simp [brings]
  | located u space =>
    simp only [brings, mem_append, mem_singleton, Dependency.located.injEq]
    constructor
    · intro h
      refine ⟨u, space, ⟨rfl, rfl⟩, ?_⟩
      rcases h with h | h
      · by_cases hp : policy = .wide
        · exact .inr ⟨hp, by simpa [hp] using h⟩
        · simp [hp] at h
      · exact .inl h
    · intro hbrings
      obtain ⟨_, _, ⟨rfl, rfl⟩, h | ⟨hp, h⟩⟩ := hbrings
      · exact .inr h
      · exact .inl (by simpa [hp] using h)

/-- Every unit that a dependency brings along is one of the service's names. -/
theorem named_of_mem_successors {s : Service m} {policy : Policy} {u v : TypeUnit}
    {found : Collection} (hv : v ∈ (s.expansion policy u found).successors) :
    v.qualifiedName ∈ s.names := by
  obtain ⟨d, hd, hv⟩ := mem_flatMap.1 (Text.mem_of_mem_distinctBy hv)
  obtain ⟨symbol, -, rfl⟩ := mem_map.1 hd
  obtain ⟨dep, space, hdep, hv⟩ := mem_brings_iff.1 hv
  obtain ⟨-, hunit, -⟩ := dependency_eq_located_iff.1 hdep
  rcases hv with rfl | ⟨-, hv⟩
  · exact s.declaringUnit_named hunit
  · exact s.unitsIn_named hv

-- ===== the bound

/-- How many names of the service are not marked. -/
def unmarked (s : Service m) (w : Walk) : Nat :=
  (s.names.filter fun n => n ∉ w.names).length

theorem unmarked_le (s : Service m) (w : Walk) : s.unmarked w ≤ s.names.length :=
  length_filter_le _ _

/-- Marking a unit of the service takes one name away. -/
theorem unmarked_mark_lt {s : Service m} {w : Walk} {u : TypeUnit} (hu : u.qualifiedName ∈ s.names)
    (hnew : w.marked? u = none) (spaces : List String) (diagnostics : List Diagnostic) :
    s.unmarked (w.mark u spaces diagnostics) < s.unmarked w := by
  have hout := Walk.marked?_eq_none_iff.1 hnew
  have hsplit : (s.names.filter fun n => n ∉ (w.mark u spaces diagnostics).names)
      = (s.names.filter fun n => n ∉ w.names).filter fun n => n ≠ u.qualifiedName := by
    rw [filter_filter]
    refine filter_congr fun n _ => ?_
    simp [not_or, and_comm]
  unfold unmarked
  rw [hsplit, length_filter_lt_length_iff_exists]
  exact ⟨u.qualifiedName, mem_filter.2 ⟨hu, by simpa using hout⟩, by simp⟩

/-- The bound of a walk is above the number of names that are not marked, and the names of the stack
are the service's. -/
structure Room (s : Service m) (n : Nat) (stack : List TypeUnit) (w : Walk) : Prop where
  bound : s.unmarked w < n
  named : ∀ u ∈ stack, u.qualifiedName ∈ s.names

namespace Room

variable {s : Service m} {n : Nat} {u : TypeUnit} {stack : List TypeUnit} {w : Walk}

theorem rest (h : s.Room n (u :: stack) w) : s.Room n stack w.poll :=
  ⟨h.bound, fun v hv => h.named v (mem_cons_of_mem u hv)⟩

theorem leaf (h : s.Room n (u :: stack) w) (hnew : w.marked? u = none) :
    s.Room n stack (w.poll.mark u [] []) :=
  ⟨Nat.lt_trans (unmarked_mark_lt (h.named u mem_cons_self) hnew [] []) h.bound, h.rest.named⟩

/-- There is room for the successors of a unit once it is marked. -/
theorem inner (h : s.Room (n + 1) (u :: stack) w) (hnew : w.marked? u = none) (policy : Policy)
    (found : Collection) : s.Room n ((s.expansion policy u found).successors ++ stack)
      (w.poll.mark u (s.expansion policy u found).spaces
        (s.expansion policy u found).diagnostics) where
  bound := by
    have hless := unmarked_mark_lt (h.named u mem_cons_self) hnew
      (s.expansion policy u found).spaces (s.expansion policy u found).diagnostics
    exact Nat.lt_of_lt_of_le hless (Nat.le_of_lt_succ h.bound)
  named := forall_mem_append.2 ⟨fun _ hv => named_of_mem_successors hv, h.rest.named⟩

end Room

/-- What a unit leads to. -/
def expand (s : Service Id) (c : Context) (u : TypeUnit) : Expansion :=
  s.expansion c.policy u (Id.run (collect s c u))

end Service

-- ===== the recursion

/-- Visiting units one after another, from the marks so far to an outcome: the marks and findings
after the last of them, or the error that ended the visits. What a unit leads to is given by
`expand`. -/
inductive Visits (expand : TypeUnit → Expansion) :
    List TypeUnit → Walk → Except WalkError Walk → Prop where
  /-- There is nothing to visit. -/
  | done (w : Walk) : Visits expand [] w (.ok w)
  /-- The unit is marked. -/
  | marked {u known : TypeUnit} {us : List TypeUnit} {w : Walk} {r : Except WalkError Walk}
      (hknown : w.marked? u = some known) (hkey : known.key = u.key)
      (hrest : Visits expand us w r) : Visits expand (u :: us) w r
  /-- Another unit is marked under its name. -/
  | clash {u known : TypeUnit} {us : List TypeUnit} {w : Walk}
      (hknown : w.marked? u = some known) (hkey : known.key ≠ u.key) :
      Visits expand (u :: us) w (.error (.duplicateUnit u.qualifiedName))
  /-- An enum is marked and left at that. -/
  | leaf {u : TypeUnit} {us : List TypeUnit} {w : Walk} {r : Except WalkError Walk}
      (hnew : w.marked? u = none) (henum : u.isEnum = true)
      (hrest : Visits expand us (w.mark u [] []) r) : Visits expand (u :: us) w r
  /-- Any other unit is marked and expanded, its successors are visited, and then the units after
  it. -/
  | inner {u : TypeUnit} {us : List TypeUnit} {w w' : Walk} {r : Except WalkError Walk}
      (hnew : w.marked? u = none) (henum : u.isEnum = false)
      (hsucc : Visits expand (expand u).successors
        (w.mark u (expand u).spaces (expand u).diagnostics) (.ok w'))
      (hrest : Visits expand us w' r) : Visits expand (u :: us) w r
  /-- An error among the successors of a unit ends the visits. -/
  | broken {u : TypeUnit} {us : List TypeUnit} {w : Walk} {e : WalkError}
      (hnew : w.marked? u = none) (henum : u.isEnum = false)
      (hsucc : Visits expand (expand u).successors
        (w.mark u (expand u).spaces (expand u).diagnostics) (.error e)) :
      Visits expand (u :: us) w (.error e)

variable {expand : TypeUnit → Expansion}

/-- A list of visits has one outcome. -/
theorem Visits.unique {us : List TypeUnit} {w : Walk} {r r' : Except WalkError Walk}
    (h : Visits expand us w r) (h' : Visits expand us w r') : r = r' := by
  induction h generalizing r' with
  | done w => cases h'; rfl
  | marked hknown hkey _ ih =>
    cases h' with
    | marked _ _ hrest => exact ih hrest
    | clash hknown' hkey' =>
      rw [hknown] at hknown'
      cases hknown'
      exact absurd hkey hkey'
    | leaf hnew => rw [hknown] at hnew; cases hnew
    | inner hnew => rw [hknown] at hnew; cases hnew
    | broken hnew => rw [hknown] at hnew; cases hnew
  | clash hknown hkey =>
    cases h' with
    | marked hknown' hkey' =>
      rw [hknown] at hknown'
      cases hknown'
      exact absurd hkey' hkey
    | clash => rfl
    | leaf hnew => rw [hknown] at hnew; cases hnew
    | inner hnew => rw [hknown] at hnew; cases hnew
    | broken hnew => rw [hknown] at hnew; cases hnew
  | leaf hnew henum _ ih =>
    cases h' with
    | marked hknown => rw [hnew] at hknown; cases hknown
    | clash hknown => rw [hnew] at hknown; cases hknown
    | leaf _ _ hrest => exact ih hrest
    | inner _ henum' => rw [henum] at henum'; cases henum'
    | broken _ henum' => rw [henum] at henum'; cases henum'
  | inner hnew henum _ _ ihsucc ihrest =>
    cases h' with
    | marked hknown => rw [hnew] at hknown; cases hknown
    | clash hknown => rw [hnew] at hknown; cases hknown
    | leaf _ henum' => rw [henum] at henum'; cases henum'
    | inner _ _ hsucc hrest =>
      cases ihsucc hsucc
      exact ihrest hrest
    | broken _ _ hsucc => cases ihsucc hsucc
  | broken hnew henum _ ih =>
    cases h' with
    | marked hknown => rw [hnew] at hknown; cases hknown
    | clash hknown => rw [hnew] at hknown; cases hknown
    | leaf _ henum' => rw [henum] at henum'; cases henum'
    | inner _ _ hsucc => cases ih hsucc
    | broken _ _ hsucc => exact ih hsucc

/-- The visits to a stack are those to its upper part and then, unless these end in an error, those
to its lower part. -/
theorem visits_append {us vs : List TypeUnit} {w : Walk} {r : Except WalkError Walk}
    (h : Visits expand (us ++ vs) w r) :
    (∃ w', Visits expand us w (.ok w') ∧ Visits expand vs w' r)
      ∨ ∃ e, Visits expand us w (.error e) ∧ r = .error e := by
  induction us generalizing w with
  | nil => exact .inl ⟨w, .done w, h⟩
  | cons u us ih =>
    cases h with
    | marked hknown hkey hrest =>
      rcases ih hrest with ⟨w', h₁, h₂⟩ | ⟨e, h₁, rfl⟩
      · exact .inl ⟨w', .marked hknown hkey h₁, h₂⟩
      · exact .inr ⟨e, .marked hknown hkey h₁, rfl⟩
    | clash hknown hkey => exact .inr ⟨_, .clash hknown hkey, rfl⟩
    | leaf hnew henum hrest =>
      rcases ih hrest with ⟨w', h₁, h₂⟩ | ⟨e, h₁, rfl⟩
      · exact .inl ⟨w', .leaf hnew henum h₁, h₂⟩
      · exact .inr ⟨e, .leaf hnew henum h₁, rfl⟩
    | inner hnew henum hsucc hrest =>
      rcases ih hrest with ⟨w', h₁, h₂⟩ | ⟨e, h₁, rfl⟩
      · exact .inl ⟨w', .inner hnew henum hsucc h₁, h₂⟩
      · exact .inr ⟨e, .inner hnew henum hsucc h₁, rfl⟩
    | broken hnew henum hsucc => exact .inr ⟨_, .broken hnew henum hsucc, rfl⟩

-- ===== the walk

variable {s : Service Id} {c : Context}

/-- The walk with its polls forgotten. -/
def Walk.unpolled (w : Walk) : Walk := { w with polls := 0 }

/-- One unit taken from the stack of a walk. -/
theorem walkWithin_cons [Monad m] [MonadLog m] (s : Service m) (c : Context)
    (stop : Nat → Bool) (n : Nat) (u : TypeUnit) (stack : List TypeUnit) (w : Walk) :
    walkWithin s c stop (n + 1) (u :: stack) w
      = (if stop w.polls then pure (.error (.cancelled w.names))
        else
          match w.marked? u with
          | some known =>
            if known.key = u.key then walkWithin s c stop (n + 1) stack w.poll
            else pure (.error (.duplicateUnit u.qualifiedName))
          | none =>
            if u.isEnum then do
              c.log .debug s!"Visited enum '{u.qualifiedName}' (not expanded)"
              walkWithin s c stop (n + 1) stack (w.poll.mark u [] [])
            else do
              let found ← collect s c u
              let x := s.expansion c.policy u found
              c.log .debug s!"Visited '{u.qualifiedName}': {x.successors.length} successor(s)"
              walkWithin s c stop n (x.successors ++ stack)
                (w.poll.mark u x.spaces x.diagnostics)) :=
  rfl

/-- The walk from any stack and any marks is the visits to the units of the stack, as long as there
is room for it. -/
theorem walkWithin_visits {n : Nat} {stack : List TypeUnit} {w : Walk}
    (hroom : s.Room n stack w) :
    Visits (s.expand c) stack w.unpolled
      (Except.map Walk.unpolled (Id.run (walkWithin s c (fun _ => false) n stack w))) := by
  -- the bound goes down with each expansion, and between two of them the stack gets shorter
  induction n generalizing stack w with
  | zero => exact absurd hroom.bound (Nat.not_lt_zero _)
  | succ n ihn =>
    induction stack generalizing w with
    | nil => exact .done w.unpolled
    | cons u stack ih =>
      rw [walkWithin_cons, if_neg Bool.false_ne_true]
      cases hmark : w.marked? u with
      | some known =>
        dsimp only
        by_cases hkey : known.key = u.key
        · rw [if_pos hkey]
          exact .marked hmark hkey (ih hroom.rest)
        · rw [if_neg hkey]
          exact .clash hmark hkey
      | none =>
        cases henum : u.isEnum with
        | true =>
          rw [if_pos rfl]
          exact .leaf hmark henum (ih (hroom.leaf hmark))
        | false =>
          rw [if_neg (by simp)]
          have hrest := ihn (hroom.inner hmark c.policy (Id.run (collect s c u)))
          rcases visits_append hrest with ⟨w', h₁, h₂⟩ | ⟨e, h₁, herr⟩
          · exact .inner hmark henum h₁ h₂
          · have hbroken : Visits (s.expand c) (u :: stack) w.unpolled (.error e) :=
              .broken hmark henum h₁
            rw [← herr] at hbroken
            exact hbroken

-- ===== the bundle

/-- The outcome of the recursive formulation for a root: the error with which it is not located, or
what comes of visiting it with no unit marked. -/
def RecursiveBundle (s : Service Id) (c : Context) (root : String)
    (r : Except WalkError Bundle) : Prop :=
  match locateRoot s root with
  | .error e => r = .error e
  | .ok u => ∃ o, Visits (s.expand c) [u] {} o ∧ r = o.map (·.toBundle u c.policy)

/-- A root is located if its name has two parts and is that of a unit which can be a root and is
declared in the namespace of the name. -/
theorem locateRoot_eq_ok_iff {s : Service m} {root : String} {u : TypeUnit} :
    locateRoot s root = .ok u ↔
      (Text.splitLast root).1.isEmpty = false ∧ (Text.splitLast root).2.isEmpty = false
      ∧ s.findUnit (Text.splitLast root).1 (Text.splitLast root).2 = some u
      ∧ u.kind = .typeLike ∧ u.keyword.canBeRoot = true
      ∧ s.enclosingSpace u = some (Text.splitLast root).1 := by
  unfold locateRoot
  simp only
  cases s.findUnit (Text.splitLast root).1 (Text.splitLast root).2 <;> grind

/-- A located root is a unit of the service, which declares it in the namespace of its name. -/
theorem locateRoot_eq_ok {s : Service m} {root : String} {u : TypeUnit}
    (h : locateRoot s root = .ok u) :
    s.findUnit (Text.splitLast root).1 (Text.splitLast root).2 = some u
      ∧ s.enclosingSpace u = some (Text.splitLast root).1 := by
  obtain ⟨-, -, hfind, -, -, hspace⟩ := locateRoot_eq_ok_iff.1 h
  exact ⟨hfind, hspace⟩

/-- There is room for the walk from a root that is located. -/
theorem Service.Room.start {s : Service m} {root : String} {u : TypeUnit}
    (hroot : locateRoot s root = .ok u) : s.Room (s.names.length + 1) [u] {} where
  bound := Nat.lt_succ_of_le (s.unmarked_le {})
  named := forall_mem_singleton.2 (s.findUnit_named (locateRoot_eq_ok hroot).1)

/-- The visits to a root that is located, from no marks at all, come to what the walk comes to. -/
theorem walkFrom_visits {root : String} {u : TypeUnit} (hroot : locateRoot s root = .ok u) :
    Visits (s.expand c) [u] {}
      (Except.map Walk.unpolled (Id.run (walkFrom s c (fun _ => false) [u]))) :=
  walkWithin_visits (.start hroot)

/-- The walk with a stack gives what the recursive formulation gives: the same units in the same
order, the same namespaces for each, the same diagnostics, or the same error. -/
theorem bundle_eq_iff_recursive (s : Service Id) (c : Context) (root : String)
    (r : Except WalkError Bundle) : bundle s c root = r ↔ RecursiveBundle s c root r := by
  cases hroot : locateRoot s root with
  | error e =>
    have hbundle : bundle s c root = .error e := by
      unfold bundle
      rw [hroot]
      rfl
    rw [hbundle, RecursiveBundle, hroot]
    exact eq_comm
  | ok u =>
    have hbundle : bundle s c root
        = (Except.map Walk.unpolled (Id.run (walkFrom s c (fun _ => false) [u]))).map
            (·.toBundle u c.policy) := by
      unfold bundle
      rw [hroot]
      show (match walkFrom s c (fun _ => false) [u] with
        | .error e => Except.error e
        | .ok w => .ok (w.toBundle u c.policy)) = _
      cases walkFrom s c (fun _ => false) [u] with
      | error e => rfl
      | ok w => rfl
    have hvisits := walkFrom_visits (c := c) hroot
    rw [hbundle, RecursiveBundle, hroot]
    constructor
    · intro hr
      subst hr
      exact ⟨_, hvisits, rfl⟩
    · intro hrecursive
      obtain ⟨o, ho, rfl⟩ := hrecursive
      rw [hvisits.unique ho]

end SourceBundle
