/-
A walk that is called off: what it has marked by then.

The flag to stop is read once for each unit that is taken from the
stack, marked or not. `pop` takes one unit, so the walk is `pop` again
and again until the stack is empty, and a flag that is raised after `n`
readings cuts it after `n` pops (`walkWithin_cuts`). A pop takes one unit
from the stack; the pop that marks a unit and expands it puts its
successors there. So a walk from one root comes to its end after as many
pops as there are successors of expanded units, and one for the root.
-/
import Mathlib.Logic.Function.Iterate
import SourceBundle.Proofs.Closure.Exactness

namespace SourceBundle

open List

-- ===== pops

/-- The stack and the marks after one more unit is taken. -/
def pop (expand : TypeUnit → Expansion) : List TypeUnit × Walk → List TypeUnit × Walk
  | ([], w) => ([], w)
  | (u :: stack, w) =>
    match w.marked? u with
    | some _ => (stack, w)
    | none =>
      if u.isEnum then (stack, w.mark u [] [])
      else ((expand u).successors ++ stack, w.mark u (expand u).spaces (expand u).diagnostics)

section

variable {expand : TypeUnit → Expansion} {u : TypeUnit} {stack : List TypeUnit} {w : Walk}

theorem pop_marked {known : TypeUnit} (hknown : w.marked? u = some known) :
    pop expand (u :: stack, w) = (stack, w) := by
  simp [pop, hknown]

theorem pop_enum (hnew : w.marked? u = none) (henum : u.isEnum = true) :
    pop expand (u :: stack, w) = (stack, w.mark u [] []) := by
  simp [pop, hnew, henum]

theorem pop_inner (hnew : w.marked? u = none) (henum : u.isEnum = false) :
    pop expand (u :: stack, w)
      = ((expand u).successors ++ stack,
          w.mark u (expand u).spaces (expand u).diagnostics) := by
  simp [pop, hnew, henum]

/-- A pop marks at most one unit, behind those marked before. -/
theorem names_prefix_pop (x : List TypeUnit × Walk) : x.2.names <+: (pop expand x).2.names := by
  obtain ⟨stack, w⟩ := x
  cases stack with
  | nil => exact prefix_rfl
  | cons u stack =>
    cases hmark : w.marked? u with
    | some known =>
      simp [pop_marked hmark]
    | none =>
      cases henum : u.isEnum with
      | true =>
        rw [pop_enum hmark henum, Walk.names_mark]
        exact prefix_append _ _
      | false =>
        rw [pop_inner hmark henum, Walk.names_mark]
        exact prefix_append _ _

/-- Marks stay from pop to pop. -/
theorem names_prefix_pops (x : List TypeUnit × Walk) {n k : Nat} (hnk : n ≤ k) :
    ((pop expand)^[n] x).2.names <+: ((pop expand)^[k] x).2.names := by
  obtain ⟨j, rfl⟩ := Nat.exists_eq_add_of_le hnk
  induction j with
  | zero => exact prefix_rfl
  | succ j ih =>
    rw [← Nat.add_assoc, Function.iterate_succ_apply']
    exact (ih (Nat.le_add_right n j)).trans (names_prefix_pop _)

/-- An empty stack stays empty. -/
theorem pops_nil (w : Walk) (n : Nat) : (pop expand)^[n] ([], w) = ([], w) :=
  Function.iterate_fixed rfl n

end

/-- How many units the expansions of some units put on the stack. -/
def successorCount (expand : TypeUnit → Expansion) (us : List TypeUnit) : Nat :=
  ((us.filter (!·.isEnum)).map fun u => (expand u).successors.length).foldr (· + ·) 0

theorem successorCount_cons_enum {expand : TypeUnit → Expansion} {u : TypeUnit}
    {us : List TypeUnit} (henum : u.isEnum = true) :
    successorCount expand (u :: us) = successorCount expand us := by
  simp [successorCount, henum]

theorem successorCount_cons_inner {expand : TypeUnit → Expansion} {u : TypeUnit}
    {us : List TypeUnit} (henum : u.isEnum = false) :
    successorCount expand (u :: us)
      = (expand u).successors.length + successorCount expand us := by
  simp [successorCount, henum]

-- ===== a walk cut short

section

variable {s : Service Id} {c : Context}

/-- What a walk whose flag is down does with the first unit of its stack. -/
theorem walkWithin_pop (stop : Nat → Bool) {n : Nat} {u : TypeUnit} {stack : List TypeUnit}
    {w : Walk} (hstop : stop w.polls = false) :
    walkWithin s c stop (n + 1) (u :: stack) w
      = match w.marked? u with
        | some known =>
          if known.key = u.key then walkWithin s c stop (n + 1) stack w.poll
          else .error (.duplicateUnit u.qualifiedName)
        | none =>
          if u.isEnum then walkWithin s c stop (n + 1) stack (w.poll.mark u [] [])
          else walkWithin s c stop n ((s.expand c u).successors ++ stack)
            (w.poll.mark u (s.expand c u).spaces (s.expand c u).diagnostics) := by
  rw [walkWithin_cons, if_neg (by simp [hstop])]
  rfl

/-- How a walk that comes from `stack` and `w` to `w'` is cut: `us` are the units that are marked
on the way, and the stack and what these put on it count the pops. -/
structure Cuts (s : Service Id) (c : Context) (bound : Nat) (stack : List TypeUnit) (w w' : Walk)
    (us : List TypeUnit) : Prop where
  visited_eq : w'.visited = w.visited ++ us
  /-- All pops taken, the stack is empty. -/
  pops_eq : (pop (s.expand c))^[stack.length + successorCount (s.expand c) us]
    (stack, w.unpolled) = ([], w'.unpolled)
  /-- A flag that is raised after `n` readings leaves the pops before. -/
  cut_eq : ∀ n, w.polls ≤ n →
    Except.map Walk.unpolled (Id.run (walkWithin s c (fun i => n ≤ i) bound stack w))
      = if w.polls + (stack.length + successorCount (s.expand c) us) ≤ n then .ok w'.unpolled
        else .error (.cancelled ((pop (s.expand c))^[n - w.polls] (stack, w.unpolled)).2.names)

namespace Cuts

variable {bound bound' : Nat} {u : TypeUnit} {stack stack' us us' : List TypeUnit}
  {w w₁ w' : Walk}

theorem nil (bound : Nat) (w : Walk) : Cuts s c (bound + 1) [] w w [] where
  visited_eq := (append_nil _).symm
  pops_eq := rfl
  cut_eq n hn := by
    rw [if_pos (by simpa [successorCount] using hn)]
    rfl

/-- A walk takes one unit and goes on from `stack'` and `w₁`. The pop adds as many pops to come
as it puts units on the stack. -/
theorem cons (h : Cuts s c bound' stack' w₁ w' us) (hpoll : w₁.polls = w.polls + 1)
    (hpop : pop (s.expand c) (u :: stack, w.unpolled) = (stack', w₁.unpolled))
    (hvisited : w₁.visited ++ us = w.visited ++ us')
    (hcount : stack'.length + successorCount (s.expand c) us
      = stack.length + successorCount (s.expand c) us')
    (hwalk : ∀ n, ¬n ≤ w.polls →
      walkWithin s c (fun i => n ≤ i) (bound + 1) (u :: stack) w
        = walkWithin s c (fun i => n ≤ i) bound' stack' w₁) :
    Cuts s c (bound + 1) (u :: stack) w w' us' where
  visited_eq := h.visited_eq.trans hvisited
  pops_eq := by
    have hlength : (u :: stack).length + successorCount (s.expand c) us'
        = (stack'.length + successorCount (s.expand c) us) + 1 := by
      rw [length_cons]
      omega
    rw [hlength, Function.iterate_succ_apply, hpop]
    exact h.pops_eq
  cut_eq n hn := by
    by_cases hstop : n ≤ w.polls
    · -- the flag is up before the unit is taken
      obtain rfl : w.polls = n := Nat.le_antisymm hn hstop
      rw [walkWithin_cons, if_pos (by simp), Nat.sub_self,
        if_neg (by rw [length_cons]; omega)]
      rfl
    · have hless : n - w.polls = (n - w₁.polls) + 1 := by omega
      have hsum : w.polls + ((u :: stack).length + successorCount (s.expand c) us')
          = w₁.polls + (stack'.length + successorCount (s.expand c) us) := by
        rw [length_cons]
        omega
      rw [hwalk n hstop, h.cut_eq n (by omega), hless, Function.iterate_succ_apply, hpop, hsum]

end Cuts

/-- A walk that comes to an end if the flag is never raised is cut by one that is. -/
theorem walkWithin_cuts {bound : Nat} {stack : List TypeUnit} {w w' : Walk}
    (hend : Id.run (walkWithin s c (fun _ => false) bound stack w) = .ok w')
    (hroom : s.Room bound stack w) :
    ∃ us, Cuts s c bound stack w w' us := by
  -- the bound goes down with each expansion, and between two of them the stack gets shorter
  induction bound generalizing stack w with
  | zero => exact absurd hroom.bound (Nat.not_lt_zero _)
  | succ bound ihn =>
    induction stack generalizing w with
    | nil =>
      cases hend
      exact ⟨[], .nil bound _⟩
    | cons u stack ih =>
      have hdown : ∀ n, ¬n ≤ w.polls → decide (n ≤ w.polls) = false :=
        fun n hn => decide_eq_false hn
      rw [walkWithin_pop _ rfl] at hend
      cases hmark : w.marked? u with
      | some known =>
        simp only [hmark] at hend
        by_cases hkey : known.key = u.key
        · rw [if_pos hkey] at hend
          obtain ⟨us, hus⟩ := ih hend hroom.rest
          refine ⟨us, hus.cons rfl (pop_marked hmark) rfl rfl fun n hn => ?_⟩
          simp only [walkWithin_pop (fun i => n ≤ i) (hdown n hn), hmark, if_pos hkey]
        · rw [if_neg hkey] at hend
          cases hend
      | none =>
        simp only [hmark] at hend
        cases henum : u.isEnum with
        | true =>
          rw [henum, if_pos rfl] at hend
          obtain ⟨us, hus⟩ := ih hend (hroom.leaf hmark)
          refine ⟨u :: us, hus.cons rfl (pop_enum hmark henum) ?_ ?_ fun n hn => ?_⟩
          · exact append_assoc _ _ _
          · rw [successorCount_cons_enum henum]
          · simp only [walkWithin_pop (fun i => n ≤ i) (hdown n hn), hmark, henum, if_true]
        | false =>
          rw [henum, if_neg Bool.false_ne_true] at hend
          obtain ⟨us, hus⟩ := ihn hend (hroom.inner hmark c.policy (Id.run (collect s c u)))
          refine ⟨u :: us, hus.cons rfl (pop_inner hmark henum) ?_ ?_ fun n hn => ?_⟩
          · exact append_assoc _ _ _
          · rw [successorCount_cons_inner henum, length_append]
            omega
          · simp only [walkWithin_pop (fun i => n ≤ i) (hdown n hn), hmark, henum,
              Bool.false_eq_true, if_false]

end

-- ===== the bundle

/-- How often the flag to stop is read while a bundle is put together: once for its root, and once
for each successor of each unit that is no enum. -/
def Bundle.pollCount (b : Bundle) (s : Service Id) (c : Context) : Nat :=
  1 + successorCount (s.expand c) b.units

/-- The names newly marked in the first `n` pops from a root. -/
def Service.namesAfter (s : Service Id) (c : Context) (root : TypeUnit) (n : Nat) : List String :=
  ((pop (s.expand c))^[n] ([root], {})).2.names

section

variable {m : Type → Type} [Monad m] [LawfulMonad m] [MonadLog m] {s : Service m}
  {answer : Expr → Option Resolution}

/-- Bundling a root that is located comes to what the walk over the answers alone comes to. -/
theorem always_bundle (hs : s.FunctionLike answer) (c : Context) {root : String} {u : TypeUnit}
    (hroot : locateRoot s root = .ok u) (stop : Nat → Bool) :
    Always (· = (Except.map Walk.unpolled (Id.run (walkFrom (s.plain answer) c stop [u]))).map
      (·.toBundle u c.policy)) (bundle s c root stop) := by
  obtain ⟨us, hus⟩ := walkWithin_comesApart hs c stop (s.names.length + 1) [u] {}
  have hwalk : walkFrom s c stop [u] = _ := hus.walk_eq
  unfold bundle
  rw [hroot]
  refine .after _ fun _ => .after _ fun _ => ?_
  rw [hwalk, bind_assoc]
  refine .after _ fun _ => ?_
  rw [pure_bind]
  have hsame : Id.run (walkFrom (s.plain answer) c stop [u])
      = Id.run (walkWithin (s.plain answer) c stop (s.names.length + 1) [u] {}) := rfl
  rw [hsame]
  cases Id.run (walkWithin (s.plain answer) c stop (s.names.length + 1) [u] {}) with
  | error e => exact .of_pure rfl
  | ok w => exact .after _ fun _ => .of_pure rfl

/-- A service that only answers gives a bundle where it locates the root and the walk from it comes
to an end. -/
theorem walkFrom_of_bundle {s : Service Id} {c : Context} {root : String} {b : Bundle}
    (hb : Id.run (bundle s c root) = .ok b) :
    ∃ w, locateRoot s root = .ok b.root
      ∧ Id.run (walkFrom s c (fun _ => false) [b.root]) = .ok w
      ∧ b = w.unpolled.toBundle b.root c.policy := by
  cases hroot : locateRoot s root with
  | error e =>
    unfold bundle at hb
    rw [hroot] at hb
    cases hb
  | ok u =>
    have hself : s.FunctionLike s.resolve := fun e => .of_pure rfl
    have hbundle := always_id_iff.1 (always_bundle hself c hroot fun _ => false)
    rw [hb] at hbundle
    cases hwalk : Id.run (walkFrom s c (fun _ => false) [u]) with
    | error e =>
      rw [show Id.run (walkFrom (s.plain s.resolve) c (fun _ => false) [u]) = _ from hwalk]
        at hbundle
      cases hbundle
    | ok w =>
      rw [show Id.run (walkFrom (s.plain s.resolve) c (fun _ => false) [u]) = _ from hwalk]
        at hbundle
      cases hbundle
      exact ⟨w, rfl, hwalk, rfl⟩

/-- Cancellation is exact. Where the walk comes to the bundle `b` if the flag to stop is never
raised, a flag that reads false `n` times and then true leaves the bundle as it is if `n` is no
less than the number of its readings. If it is less, the walk is called off with the names that
were newly marked in the first `n` pops. These are the first names of the bundle, and the more
pops, the more of them. -/
theorem bundle_cancellation (hs : s.FunctionLike answer) (c : Context) {root : String} {b : Bundle}
    (hb : Id.run (bundle (s.plain answer) c root) = .ok b) :
    (∀ n, Always (· = if b.pollCount (s.plain answer) c ≤ n then .ok b
        else .error (.cancelled ((s.plain answer).namesAfter c b.root n)))
      (bundle s c root fun i => n ≤ i))
    ∧ (∀ n, (s.plain answer).namesAfter c b.root n <+: b.units.map (·.qualifiedName))
    ∧ ∀ n k, n ≤ k →
      (s.plain answer).namesAfter c b.root n <+: (s.plain answer).namesAfter c b.root k := by
  obtain ⟨w, hroot, hwalk, hb⟩ := walkFrom_of_bundle hb
  obtain ⟨us, hus⟩ := walkWithin_cuts hwalk (.start hroot)
  have hunits : b.units = us := by
    rw [hb]
    exact hus.visited_eq
  have hcount : [b.root].length + successorCount ((s.plain answer).expand c) us
      = b.pollCount (s.plain answer) c := by
    rw [Bundle.pollCount, hunits]
    rfl
  -- from the last reading on there is nothing left to pop
  have hall : ∀ k, (s.plain answer).namesAfter c b.root (b.pollCount (s.plain answer) c + k)
      = b.units.map (·.qualifiedName) := by
    intro k
    have hpops := hus.pops_eq
    rw [hcount] at hpops
    rw [Service.namesAfter, Nat.add_comm, Function.iterate_add_apply,
      show ([b.root], ({} : Walk)) = ([b.root], Walk.unpolled {}) from rfl, hpops, pops_nil, hb]
    rfl
  refine ⟨fun n => ?_, fun n => ?_, fun n k hnk => names_prefix_pops _ hnk⟩
  · have hcut := hus.cut_eq n (Nat.zero_le n)
    rw [hcount] at hcut
    have hbundle := always_bundle hs c (show locateRoot s root = .ok b.root from hroot)
      fun i => n ≤ i
    rw [show Except.map Walk.unpolled
      (Id.run (walkFrom (s.plain answer) c (fun i => n ≤ i) [b.root])) = _ from hcut] at hbundle
    by_cases hn : b.pollCount (s.plain answer) c ≤ n
    · rw [if_pos (by simpa using hn)] at hbundle
      rw [if_pos hn]
      exact hbundle.mono fun r hr => hr.trans (congrArg Except.ok hb.symm)
    · rw [if_neg (by simpa using hn)] at hbundle
      rw [if_neg hn]
      exact hbundle
  · rw [← hall n]
    exact names_prefix_pops _ (Nat.le_add_left n _)

/-- The ring called off: the first pop marks its root and the second the first of its successors.
The flag would be read five times in all. -/
theorem bundle_cancellation_ring :
    ∃ b, Id.run (bundle ((Graph.ring.service tally).plain
          fun e => (Graph.target? e).bind Graph.ring.lookup) {} "A.Root") = .ok b
      ∧ Always (· = .error (.cancelled ["A.Root", "B.Next"]))
        (bundle (Graph.ring.service tally) {} "A.Root" fun i => 2 ≤ i) := by
  have hb : Id.run (bundle ((Graph.ring.service tally).plain
      fun e => (Graph.target? e).bind Graph.ring.lookup) {} "A.Root") = .ok _ := rfl
  exact ⟨_, hb, (bundle_cancellation (Graph.ring.service_functionLike tally) {} hb).1 2⟩

end

end SourceBundle
