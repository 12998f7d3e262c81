/-
Questions about expressions come to an end.

Questions are asked inside one another along initializers, parents,
arguments and what lambdas are handed to, so the syntax tree does not
bound how deep they go. What does is that no expression is bound while it
is being bound, and none is looked up twice: each question inside another
leaves fewer of them open (`Guards.slack`). So the bound on questions
inside one another is never met: whatever stands for the questions beyond
it (`queriesOver`), it is never asked. The same goes for the bases of
types, however they lead back to one another (`lineageOver`).

How often questions are worked out is counted by a watch
(`watchedWithin`): the same rules, but each time a question is worked out,
a ticket is put behind the numbers of the expressions that are being
bound. Tickets are no numbers of expressions, so no rule sees them. As
long as there is no error, no ticket is given twice: what was worked out
once is remembered, or is still being worked out.
-/
import SourceBundle.Proofs.Binding.Lockstep
import SourceBundle.Proofs.Binding.Sessions

namespace SourceBundle

open List

-- ===== the hierarchy

namespace Declarations

variable {ds : Declarations}

/-- What a queue leads to through bases, where `deeper` says what comes after `bound` types. -/
def lineageOver (ds : Declarations) (deeper : List DeclaredType → List String → List DeclaredType) :
    (bound : Nat) → List DeclaredType → List String → List DeclaredType
  | 0 => deeper
  | bound + 1 => ds.lineageStep (ds.lineageOver deeper bound)

/-- What lies beyond a bound above the number of names that were not seen is never asked for. -/
theorem Visits.lineageOver_eq {queue found : List DeclaredType} {seen : List String}
    (h : ds.Visits queue seen found) (hqueue : ∀ t ∈ queue, t ∈ ds.types)
    (deeper : List DeclaredType → List String → List DeclaredType) {bound : Nat}
    (hbound : ds.unseen seen < bound) : ds.lineageOver deeper bound queue seen = found := by
  induction h generalizing bound with
  | done =>
    obtain ⟨bound, rfl⟩ := Nat.exists_eq_succ_of_ne_zero (Nat.ne_zero_of_lt hbound)
    rfl
  | pass hseen _ ih =>
    obtain ⟨bound, rfl⟩ := Nat.exists_eq_succ_of_ne_zero (Nat.ne_zero_of_lt hbound)
    rw [lineageOver, lineageStep, if_pos (contains_iff_mem.2 hseen)]
    exact ih (forall_mem_cons.1 hqueue).2 hbound
  | take hnew _ ih =>
    obtain ⟨bound, rfl⟩ := Nat.exists_eq_succ_of_ne_zero (Nat.ne_zero_of_lt hbound)
    obtain ⟨ht, hrest⟩ := forall_mem_cons.1 hqueue
    have hless := unseen_cons_lt ht hnew
    rw [lineageOver, lineageStep, if_neg fun hseen => hnew (contains_iff_mem.1 hseen),
      ih (forall_mem_append_basesOf hrest _) (by omega)]

end Declarations

-- ===== the questions

/-- What is being bound, and some references that were looked up or are being looked up. -/
structure Guards where
  running : List Nat
  asked : List Nat

namespace Guards

/-- A state has the guards up. -/
structure Up (g : Guards) (st : BindState) : Prop where
  running : st.running = g.running
  asked : ∀ n ∈ g.asked, st.resolutions[n]?.isSome

/-- How many questions about the first `count` numbers are not guarded. -/
def slack (g : Guards) (count : Nat) : Nat :=
  ((List.range count).filter (· ∉ g.running)).length
    + ((List.range count).filter (· ∉ g.asked)).length

theorem slack_le (g : Guards) (count : Nat) : g.slack count ≤ 2 * count := by
  have hrunning := length_filter_le (fun n => decide (n ∉ g.running)) (List.range count)
  have hasked := length_filter_le (fun n => decide (n ∉ g.asked)) (List.range count)
  rw [length_range] at hrunning hasked
  unfold slack
  omega

theorem slack_running_lt {g : Guards} {node count : Nat} (hnode : node < count)
    (hnew : node ∉ g.running) :
    slack { g with running := node :: g.running } count < g.slack count :=
  Nat.add_lt_add_right (length_filter_cons_lt id (mem_range.2 hnode) hnew) _

theorem slack_asked_lt {g : Guards} {node count : Nat} (hnode : node < count)
    (hnew : node ∉ g.asked) :
    slack { g with asked := node :: g.asked } count < g.slack count :=
  Nat.add_lt_add_left (length_filter_cons_lt id (mem_range.2 hnode) hnew) _

/-- The same state, with the guards up. -/
def Same (g : Guards) (st st₀ : BindState) : Prop :=
  st = st₀ ∧ g.Up st

/-- The same state after an error at the number of a tuple element, with the guards up. -/
def Fault (g : Guards) (e : BindError) (st st₀ : BindState) : Prop :=
  e.AtElementNumber ∧ g.Same st st₀

theorem footing (g : Guards) : Footing g.Same g.Fault where
  bases _ _ h := congrArg _ h.1
  choices _ _ h := congrArg _ h.1
  withBases st st₀ h memo := by
    obtain ⟨rfl, hup⟩ := h
    exact ⟨rfl, hup.running, hup.asked⟩
  withChoice st st₀ h node c := by
    obtain ⟨rfl, hup⟩ := h
    exact ⟨rfl, hup.running, hup.asked⟩
  fault _ _ h _ he := ⟨he, h⟩

variable {g : Guards} {st : BindState}

theorem Up.entered (h : g.Up st) (node : Nat) :
    Up { g with running := node :: g.running } (st.entered node) :=
  ⟨congrArg (node :: ·) h.running, h.asked⟩

theorem Up.left {node : Nat} (h : Up { g with running := node :: g.running } st) :
    g.Up (st.left node) := by
  refine ⟨?_, h.asked⟩
  show st.running.erase node = g.running
  rw [h.running, erase_cons_head]

theorem Up.found (h : g.Up st) (node : Nat) (r : Option Resolution) :
    Up { g with asked := node :: g.asked } (st.found node r) := by
  refine ⟨h.running, fun n hn => ?_⟩
  show ((st.resolutions.insert node r)[n]?).isSome
  by_cases hnode : node = n
  · rw [hnode, Std.TreeMap.getElem?_insert_self]
    rfl
  · rw [getElem?_insert_of_ne hnode]
    exact h.asked n ((mem_cons.1 hn).resolve_left fun heq => hnode heq.symm)

theorem Up.unasked {node : Nat} (h : Up { g with asked := node :: g.asked } st) : g.Up st :=
  ⟨h.running, fun n hn => h.asked n (mem_cons_of_mem _ hn)⟩

end Guards

namespace Index

variable {ix : Index} {P : Expr → Prop}

/-- The questions, where `deeper` answers those that are asked more than `bound` deep inside one
another. -/
def queriesOver (ix : Index) (deeper : Queries) : (bound : Nat) → Queries
  | 0 => deeper
  | bound + 1 =>
    ⟨fun e => ix.bindStep (ix.queriesOver deeper bound) e,
     fun e => ix.resolveStep (ix.queriesOver deeper bound) e⟩

theorem queriesOver_unknown (ix : Index) (bound : Nat) :
    ix.queriesOver ⟨fun _ => return .unknown, fun _ => return none⟩ bound
      = ix.queriesWithin bound := by
  induction bound with
  | zero => rfl
  | succ bound ih => rw [queriesOver, queriesWithin, ih]

/-- Where fewer questions are open than the bounds allow inside one another, what stands for deeper
questions makes no difference. -/
theorem inStep_queriesOver (hclosed : ix.Closed P) (hbelow : ∀ e, P e → e.node < ix.nodeCount)
    {deeper deeper' : Queries} {bound bound' : Nat} {g : Guards}
    (hbound : g.slack ix.nodeCount < bound) (hbound' : g.slack ix.nodeCount < bound') :
    Queries.InStep ix P g.Same g.Fault (ix.queriesOver deeper bound)
      (ix.queriesOver deeper' bound') := by
  -- each question inside another puts up a guard, so fewer are open and the bounds go down by one
  induction bound generalizing bound' g with
  | zero => omega
  | succ bound ih =>
    obtain ⟨bound', rfl⟩ := Nat.exists_eq_succ_of_ne_zero (Nat.ne_zero_of_lt hbound')
    refine ⟨hclosed, g.footing, fun e he => ?_, fun e he => ?_⟩
    · refine BindM.Lockstep.guarded (S := Guards.Same { g with running := e.node :: g.running })
        (F := Guards.Fault { g with running := e.node :: g.running }) ?_ ?_ ?_ ?_ ?_
      · exact fun st st₀ hsame => congrArg (fun s : BindState => s.bindings[e.node]?) hsame.1
      · exact fun st st₀ hsame => by rw [hsame.1]
      · intro st st₀ hsame hfresh hfree
        obtain ⟨rfl, hup⟩ := hsame
        rw [hup.running] at hfree
        have hless := Guards.slack_running_lt (hbelow e he) hfree
        exact (ih (by omega) (by omega)).bindFresh he _ _ ⟨rfl, hup.entered e.node⟩
      · intro st st₀ hsame b
        obtain ⟨rfl, hup⟩ := hsame
        exact ⟨rfl, hup.left.running, hup.left.asked⟩
      · intro error st st₀ hfault
        obtain ⟨herror, rfl, hup⟩ := hfault
        exact ⟨herror, rfl, hup.left⟩
    · refine BindM.Lockstep.remembered (S := Guards.Same { g with asked := e.node :: g.asked })
        (F := Guards.Fault { g with asked := e.node :: g.asked }) ?_ ?_ ?_ ?_
      · exact fun st st₀ hsame => congrArg (fun s : BindState => s.resolutions[e.node]?) hsame.1
      · intro st st₀ hsame hfresh
        obtain ⟨rfl, hup⟩ := hsame
        have hnew : e.node ∉ g.asked := by
          intro hmem
          have hasked := hup.asked _ hmem
          rw [hfresh] at hasked
          cases hasked
        have hless := Guards.slack_asked_lt (hbelow e he) hnew
        exact (ih (by omega) (by omega)).resolveFresh he _ _ ⟨rfl, hup.found e.node none⟩
      · intro st st₀ hsame r
        obtain ⟨rfl, hup⟩ := hsame
        exact ⟨rfl, (hup.unasked.found e.node r).unasked⟩
      · intro error st st₀ hfault
        obtain ⟨herror, rfl, hup⟩ := hfault
        exact ⟨herror, rfl, hup.unasked⟩

/-- Whatever the state, a question about an expression comes to the same outcome whatever stands for
questions that are asked too deep, and an error is one at the number of a tuple element. -/
theorem inStep_queries (hclosed : ix.Closed P) (hbelow : ∀ e, P e → e.node < ix.nodeCount)
    (deeper : Queries) {bound : Nat} (hbound : 2 * ix.nodeCount < bound) (st : BindState) :
    Queries.InStep ix P (Guards.Same ⟨st.running, []⟩) (Guards.Fault ⟨st.running, []⟩)
      (ix.queriesOver deeper bound) ix.queries := by
  have hslack := Guards.slack_le ⟨st.running, []⟩ ix.nodeCount
  rw [queries, ← queriesOver_unknown]
  exact inStep_queriesOver hclosed hbelow (by omega) (by omega)

end Index

-- ===== the watch

/-- A question about an expression. -/
inductive Question where
  | bind (e : Expr)
  | resolve (e : Expr)

/-- The expression that a question is about. -/
def Question.subject : Question → Expr
  | bind e => e
  | resolve e => e

/-- What a question is answered with. -/
inductive Answer where
  | binding (b : Binding)
  | reference (r : Option Resolution)

namespace Queries

/-- Asks a question. -/
def ask (q : Queries) : Question → BindM Answer
  | .bind e => return .binding (← q.bind e)
  | .resolve e => return .reference (← q.resolve e)

/-- The answers to questions that are asked one after another, and the state after them. -/
def askAll (q : Queries) : List Question → BindState → List (Except BindError Answer) × BindState
  | [], st => ([], st)
  | a :: rest, st =>
    let (answer, st) := q.ask a st
    let (answers, st) := q.askAll rest st
    (answer :: answers, st)

end Queries

namespace Index

/-- The ticket of a question. It is the number of no expression. -/
def ticket (ix : Index) : Question → Nat
  | .bind e => ix.nodeCount + 2 * e.node
  | .resolve e => ix.nodeCount + 2 * e.node + 1

/-- Gives a ticket for a question that is worked out. -/
def note (ix : Index) (a : Question) : BindM PUnit :=
  modify fun s => { s with running := s.running ++ [ix.ticket a] }

/-- The questions, each of which gets a ticket each time that it is worked out. -/
def watchedWithin (ix : Index) : (bound : Nat) → Queries
  | 0 => ⟨fun _ => return .unknown, fun _ => return none⟩
  | bound + 1 =>
    ⟨fun e => guarded e.node do
      ix.note (.bind e)
      ix.bindFresh (ix.watchedWithin bound) e,
     fun e => remembered e.node do
      ix.note (.resolve e)
      ix.resolveFresh (ix.watchedWithin bound) e⟩

/-- The questions under watch. -/
def watched (ix : Index) : Queries :=
  ix.watchedWithin (2 * ix.nodeCount + 2)

/-- The tickets that were given when questions were asked one after another. -/
def tickets (ix : Index) (questions : List Question) : List Nat :=
  (ix.watched.askAll questions {}).2.running

end Index

/-- A question was worked out, or is being worked out. -/
def BindState.Knows (st : BindState) : Question → Prop
  | .bind e => e.node ∈ st.running ∨ st.bindings[e.node]?.isSome
  | .resolve e => st.resolutions[e.node]?.isSome

namespace BindState.Knows

variable {st : BindState} {a : Question}

theorem entered (h : st.Knows a) (node : Nat) : (st.entered node).Knows a := by
  cases a with
  | bind e => exact h.imp_left (mem_cons_of_mem _)
  | resolve e => exact h

theorem bound (h : st.Knows a) (node : Nat) (b : Binding) : (st.bound node b).Knows a := by
  cases a with
  | bind e =>
    by_cases hnode : node = e.node
    · refine .inr ?_
      show ((st.bindings.insert node b)[e.node]?).isSome
      rw [hnode, Std.TreeMap.getElem?_insert_self]
      rfl
    · refine h.imp (fun hmem => (mem_erase_of_ne (Ne.symm hnode)).2 hmem) fun hsome => ?_
      show ((st.bindings.insert node b)[e.node]?).isSome
      rw [getElem?_insert_of_ne hnode]
      exact hsome
  | resolve e => exact h

theorem found (h : st.Knows a) (node : Nat) (r : Option Resolution) :
    (st.found node r).Knows a := by
  cases a with
  | bind e => exact h
  | resolve e =>
    show ((st.resolutions.insert node r)[e.node]?).isSome
    by_cases hnode : node = e.node
    · rw [hnode, Std.TreeMap.getElem?_insert_self]
      rfl
    · rw [getElem?_insert_of_ne hnode]
      exact h

/-- What is known of a question is known of all that get its ticket. -/
theorem of_ticket {ix : Index} {b : Question} (h : st.Knows a)
    (hticket : ix.ticket b = ix.ticket a) :
    st.Knows b := by
  cases a with
  | bind e =>
    cases b with
    | bind f =>
      have hnode : f.node = e.node := by
        simp only [Index.ticket] at hticket
        omega
      simpa only [Knows, hnode] using h
    | resolve f =>
      simp only [Index.ticket] at hticket
      omega
  | resolve e =>
    cases b with
    | bind f =>
      simp only [Index.ticket] at hticket
      omega
    | resolve f =>
      have hnode : f.node = e.node := by
        simp only [Index.ticket] at hticket
        omega
      simpa only [Knows, hnode] using h

end BindState.Knows

/-- Tickets were given while a state was come to: each once, and for questions that are known. -/
structure Tickets (ix : Index) (ts : List Nat) (st : BindState) : Prop where
  above : ∀ t ∈ ts, ix.nodeCount ≤ t
  nodup : ts.Nodup
  known : ∀ a, ix.ticket a ∈ ts → st.Knows a

namespace Tickets

variable {ix : Index} {ts : List Nat} {st st' : BindState}

theorem mono (h : Tickets ix ts st) (hknows : ∀ a, st.Knows a → st'.Knows a) : Tickets ix ts st' :=
  ⟨h.above, h.nodup, fun a ha => hknows a (h.known a ha)⟩

/-- A question that gets known gets a ticket. -/
theorem give (h : Tickets ix ts st) {a : Question} (hnew : ¬st.Knows a)
    (hknows : ∀ b, st.Knows b → st'.Knows b) (ha : st'.Knows a) :
    Tickets ix (ts ++ [ix.ticket a]) st' where
  above t ht := by
    rcases mem_append.1 ht with ht | ht
    · exact h.above t ht
    · rw [mem_singleton.1 ht]
      cases a <;> simp only [Index.ticket] <;> omega
  nodup := nodup_append.2 ⟨h.nodup, nodup_singleton _, fun t ht t' ht' heq =>
    hnew (h.known a (mem_singleton.1 ht' ▸ heq ▸ ht))⟩
  known b hb := by
    rcases mem_append.1 hb with hb | hb
    · exact hknows b (h.known b hb)
    · exact ha.of_ticket (mem_singleton.1 hb)

/-- No expression has the number of a ticket. -/
theorem not_mem (h : Tickets ix ts st) {node : Nat} (hnode : node < ix.nodeCount) : node ∉ ts :=
  fun hmem => Nat.not_le_of_lt hnode (h.above node hmem)

end Tickets

/-- The state of a watched session beside that of a plain one. -/
def Watching (ix : Index) (st st₀ : BindState) : Prop :=
  ∃ ts, Tickets ix ts st₀ ∧ st = { st₀ with running := st₀.running ++ ts }

namespace Watching

variable {ix : Index} {P : Expr → Prop} {st st₀ : BindState}

theorem footing (ix : Index) : Footing (Watching ix) fun _ _ _ => True where
  bases st st₀ h := by
    obtain ⟨ts, -, rfl⟩ := h
    rfl
  choices st st₀ h := by
    obtain ⟨ts, -, rfl⟩ := h
    rfl
  withBases st st₀ h memo := by
    obtain ⟨ts, ht, rfl⟩ := h
    exact ⟨ts, ht.mono fun a ha => by cases a <;> exact ha, rfl⟩
  withChoice st st₀ h node c := by
    obtain ⟨ts, ht, rfl⟩ := h
    exact ⟨ts, ht.mono fun a ha => by cases a <;> exact ha, rfl⟩
  fault _ _ _ _ _ := trivial

/-- An expression is bound for the first time, and gets a ticket. -/
theorem entered (h : Watching ix st st₀) {e : Expr} (hfresh : st₀.bindings[e.node]? = none)
    (hfree : e.node ∉ st₀.running) :
    Watching ix { st.entered e.node with
      running := (st.entered e.node).running ++ [ix.ticket (.bind e)] } (st₀.entered e.node) := by
  obtain ⟨ts, ht, rfl⟩ := h
  refine ⟨ts ++ [ix.ticket (.bind e)], ht.give ?_ (fun b hb => hb.entered e.node) ?_, ?_⟩
  · rintro (hrunning | hbound)
    · exact hfree hrunning
    · rw [hfresh] at hbound
      cases hbound
  · exact .inl mem_cons_self
  · simp [BindState.entered]

theorem bound (h : Watching ix st st₀) {node : Nat} (hnode : node < ix.nodeCount) (b : Binding) :
    Watching ix (st.bound node b) (st₀.bound node b) := by
  obtain ⟨ts, ht, rfl⟩ := h
  have herase : (st₀.running ++ ts).erase node = st₀.running.erase node ++ ts := by
    by_cases hmem : node ∈ st₀.running
    · exact erase_append_left _ hmem
    · rw [erase_append_right _ hmem, erase_of_not_mem hmem,
        erase_of_not_mem (ht.not_mem hnode)]
  refine ⟨ts, ht.mono fun a ha => ha.bound node b, ?_⟩
  simp only [BindState.bound, BindState.left, herase]

/-- A reference is looked up for the first time, and gets a ticket. -/
theorem opened (h : Watching ix st st₀) {e : Expr} (hfresh : st₀.resolutions[e.node]? = none) :
    Watching ix { st.found e.node none with
      running := (st.found e.node none).running ++ [ix.ticket (.resolve e)] }
        (st₀.found e.node none) := by
  obtain ⟨ts, ht, rfl⟩ := h
  refine ⟨ts ++ [ix.ticket (.resolve e)], ht.give ?_ (fun b hb => hb.found e.node none) ?_, ?_⟩
  · intro hknown
    rw [BindState.Knows, hfresh] at hknown
    cases hknown
  · show ((st₀.resolutions.insert e.node none)[e.node]?).isSome
    rw [Std.TreeMap.getElem?_insert_self]
    rfl
  · simp [BindState.found]

theorem found (h : Watching ix st st₀) (node : Nat) (r : Option Resolution) :
    Watching ix (st.found node r) (st₀.found node r) := by
  obtain ⟨ts, ht, rfl⟩ := h
  exact ⟨ts, ht.mono fun a ha => ha.found node r, rfl⟩

/-- The watch sees all and changes nothing. -/
theorem inStep (hclosed : ix.Closed P) (hbelow : ∀ e, P e → e.node < ix.nodeCount) (bound : Nat) :
    Queries.InStep ix P (Watching ix) (fun _ _ _ => True) (ix.watchedWithin bound)
      (ix.queriesWithin bound) := by
  induction bound with
  | zero =>
    exact ⟨hclosed, footing ix, fun _ _ => .of_pure _, fun _ _ => .of_pure _⟩
  | succ bound ih =>
    refine ⟨hclosed, footing ix, fun e he => ?_, fun e he => ?_⟩
    · refine BindM.Lockstep.guarded (S := Watching ix) (F := fun _ _ _ => True) ?_ ?_ ?_ ?_ ?_
      · intro st st₀ h
        obtain ⟨ts, -, rfl⟩ := h
        rfl
      · intro st st₀ h
        obtain ⟨ts, ht, rfl⟩ := h
        show e.node ∈ st₀.running ++ ts ↔ _
        rw [mem_append, or_iff_left (ht.not_mem (hbelow e he))]
      · intro st st₀ h hfresh hfree
        exact ih.bindFresh he _ _ (h.entered hfresh hfree)
      · exact fun st st₀ h b => h.bound (hbelow e he) b
      · exact fun _ _ _ _ => trivial
    · refine BindM.Lockstep.remembered (S := Watching ix) (F := fun _ _ _ => True) ?_ ?_ ?_ ?_
      · intro st st₀ h
        obtain ⟨ts, -, rfl⟩ := h
        rfl
      · intro st st₀ h hfresh
        exact ih.resolveFresh he _ _ (h.opened hfresh)
      · exact fun st st₀ h r => h.found e.node r
      · exact fun _ _ _ _ => trivial

end Watching

-- ===== coming to an end

namespace Queries.InStep

variable {ix : Index} {P : Expr → Prop} {R : BindState → BindState → Prop}
  {E : BindError → BindState → BindState → Prop} {q q₀ : Queries}

theorem ask (h : InStep ix P R E q q₀) {a : Question} (ha : P a.subject) :
    BindM.Lockstep R E (q.ask a) (q₀.ask a) := by
  cases a with
  | bind e => exact (h.bind e ha).bind fun _ => .of_pure _
  | resolve e => exact (h.resolve e ha).bind fun _ => .of_pure _

/-- Questions that are asked one after another go in lockstep as long as there is no error. -/
theorem askAll (h : InStep ix P R E q q₀) {questions : List Question}
    (hquestions : ∀ a ∈ questions, P a.subject) {st st₀ : BindState} (hrel : R st st₀)
    (hok : ∀ r ∈ (q₀.askAll questions st₀).1, ∃ answer, r = .ok answer) :
    (q.askAll questions st).1 = (q₀.askAll questions st₀).1
      ∧ R (q.askAll questions st).2 (q₀.askAll questions st₀).2 := by
  induction questions generalizing st st₀ with
  | nil => exact ⟨rfl, hrel⟩
  | cons a questions ih =>
    have hagree := h.ask (hquestions a mem_cons_self) st st₀ hrel
    obtain ⟨answer, hanswer⟩ := hok _ mem_cons_self
    have hrest := ih (fun b hb => hquestions b (mem_cons_of_mem _ hb))
      (hagree.done answer (hagree.same.trans hanswer))
      fun r hr => hok r (mem_cons_of_mem _ hr)
    exact ⟨congrArg₂ List.cons hagree.same hrest.1, hrest.2⟩

end Queries.InStep

/-- Questions about some expressions come to an end. -/
structure Index.Ends (ix : Index) (es : List Expr) : Prop where
  /-- No type is so deep below a type that its bases are not followed. -/
  lineage_eq : ∀ deeper bound, ix.types.length < bound → ∀ t ∈ ix.types,
    ix.lineageOver deeper bound [t] [] = ix.lineage t
  /-- Whatever the state, no question is so deep inside a question that it is not worked out. -/
  ask_eq : ∀ deeper bound, 2 * ix.nodeCount < bound → ∀ a : Question, a.subject ∈ es → ∀ st,
    (ix.queriesOver deeper bound).ask a st = ix.queries.ask a st
  /-- The only error is that of the number of a tuple element. -/
  atElementNumber : ∀ a : Question, a.subject ∈ es → ∀ st e,
    (ix.queries.ask a st).1 = .error e → e.AtElementNumber
  /-- As long as there is no error, no expression is bound or looked up more than once, however many
  questions are asked. -/
  once : ∀ questions : List Question, (∀ a ∈ questions, a.subject ∈ es) →
    (∀ r ∈ (ix.queries.askAll questions {}).1, ∃ answer, r = .ok answer) →
    (ix.watched.askAll questions {}).1 = (ix.queries.askAll questions {}).1
      ∧ ∀ e ∈ es, (ix.tickets questions).count (ix.ticket (.bind e)) ≤ 1
        ∧ (ix.tickets questions).count (ix.ticket (.resolve e)) ≤ 1

theorem Index.lineageOver_eq_lineage {ix : Index}
    (deeper : List DeclaredType → List String → List DeclaredType) {bound : Nat}
    (hbound : ix.types.length < bound) {t : DeclaredType} (ht : t ∈ ix.types) :
    ix.lineageOver deeper bound [t] [] = ix.lineage t := by
  have hunseen : ix.unseen [] ≤ ix.types.length := length_filter_le _ _
  exact (Declarations.visits_lineage ht).lineageOver_eq (forall_mem_singleton.2 ht)
    deeper (by omega)

theorem watching_start (ix : Index) : Watching ix {} {} :=
  ⟨[], ⟨forall_mem_nil _, nodup_nil, nofun⟩, rfl⟩

/-- Where expressions are numbered, questions about them come to an end. -/
theorem Index.Numbered.ends {ix : Index} {pool : List Expr} (h : ix.Numbered pool) :
    ix.Ends pool where
  lineage_eq deeper bound hbound t ht := lineageOver_eq_lineage deeper hbound ht
  ask_eq deeper bound hbound a ha st := by
    have hagree := (inStep_queries h.toPool.closed h.below deeper hbound st).ask ha st st
      ⟨rfl, rfl, forall_mem_nil _⟩
    refine Prod.ext hagree.same ?_
    cases hrun : ((ix.queriesOver deeper bound).ask a st).1 with
    | ok answer => exact (hagree.done answer hrun).1
    | error e => exact (hagree.failed e hrun).2.1
  atElementNumber a ha st e he := by
    have hagree := (inStep_queries h.toPool.closed h.below ix.queries (Nat.lt_succ_self _) st).ask
      ha st st ⟨rfl, rfl, forall_mem_nil _⟩
    exact (hagree.failed e (hagree.same.trans he)).1
  once questions hquestions hok := by
    have hwatched := (Watching.inStep h.toPool.closed h.below (2 * ix.nodeCount + 2)).askAll
      hquestions (watching_start ix) hok
    have hidle := ((inStep_queries h.toPool.closed h.below ix.queries (Nat.lt_succ_self _)
      {}).askAll hquestions ⟨rfl, rfl, forall_mem_nil _⟩ hok).2
    obtain ⟨hsame, ts, ht, hst⟩ := hwatched
    -- when all is answered nothing is being bound, so only tickets are left
    have htickets : ix.tickets questions = ts := by
      have hrunning : (ix.queries.askAll questions {}).2.running = [] := by
        rw [← hidle.1]
        exact hidle.2.running
      have htickets := congrArg BindState.running hst
      dsimp only at htickets
      rw [show ix.queriesWithin (2 * ix.nodeCount + 2) = ix.queries from rfl, hrunning] at htickets
      exact htickets
    refine ⟨hsame, fun e he => ?_⟩
    rw [htickets]
    exact ⟨nodup_iff_count_le_one.1 ht.nodup _, nodup_iff_count_le_one.1 ht.nodup _⟩

namespace Workspace

theorem WellNumbered.ends {w : Workspace} (hw : w.WellNumbered) : w.index.Ends w.expressions := by
  obtain ⟨pool, hpool, hsubset⟩ := hw.exists_numbered
  have hends := hpool.ends
  exact
    { lineage_eq := hends.lineage_eq
      ask_eq := fun deeper bound hbound a ha => hends.ask_eq deeper bound hbound a (hsubset _ ha)
      atElementNumber := fun a ha => hends.atElementNumber a (hsubset _ ha)
      once := fun questions hquestions hok => by
        obtain ⟨hsame, hcount⟩ := hends.once questions (fun a ha => hsubset _ (hquestions a ha)) hok
        exact ⟨hsame, fun e he => hcount e (hsubset e he)⟩ }

/-- In every workspace that is made of texts or loaded from files, questions about expressions come
to an end. -/
theorem questions_end (c : Context) :
    (∀ {m : Type → Type} [Monad m] [LawfulMonad m] [MonadLog m] (sources : List (String × String))
      (implicitUsings : Bool),
      Always (fun w : Workspace => w.index.Ends w.expressions)
        (ofSources c sources implicitUsings : m Workspace))
    ∧ ∀ {m : Type → Type} [Monad m] [LawfulMonad m] [MonadLog m] [MonadFiles m] (locator : String),
      Always (fun r : Except LoadError Workspace => ∀ w, r = .ok w → w.index.Ends w.expressions)
        (load c locator : m (Except LoadError Workspace)) :=
  ⟨fun sources implicitUsings =>
      (wellNumbered_ofSources c sources implicitUsings).mono fun _ hw => hw.ends,
    fun locator => (wellNumbered_load c locator).mono fun _ hr w heq => (hr w heq).ends⟩

/-- A local whose initializer refers to the local itself, in a class that is its own base through
another one. -/
def circlesSources : List (String × String) :=
  [("A.cs", "namespace A \x7b class B : R \x7b \x7d class R : B \x7b R F(R a) => a; "
    ++ "void M() \x7b var x = F(x); \x7d \x7d \x7d")]

def circles : Workspace :=
  Id.run (ofSources {} circlesSources)

/-- Questions about all expressions of a workspace. -/
def allQuestions (w : Workspace) : List Question :=
  w.expressions.flatMap fun e => [.resolve e, .bind e]

/-- All questions are answered, for which every expression is bound and looked up. -/
theorem questions_end_circles :
    ((circles.index.queries.askAll circles.allQuestions {}).1.all (·.isOk)
        && (circles.index.tickets circles.allQuestions).length == 2 * circles.index.nodeCount)
          = true
      ∧ circles.index.Ends circles.expressions := by
  have hends := always_id_iff.1 ((questions_end {}).1 (m := Id) circlesSources false)
  refine ⟨?_, hends⟩
  decide +kernel

end Workspace

end SourceBundle
