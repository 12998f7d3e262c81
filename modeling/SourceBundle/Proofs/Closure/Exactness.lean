/-
The closure is exact: bundling a root that is located comes to an end,
with the root first, no name twice, and just the units that the root
leads to.

Looking a reference up may have effects in whatever monad the service
works in (it may count, log or remember), so what a walk does is more
than what it finds. Where the answers are functions of the references
(`FunctionLike`), the two come apart: a walk does what `look` does to
each unit that it marks, in the order of the marks, and finds what the
same walk finds over the service that only answers (`plain`). An enum is
looked at without collecting from it; from any other unit it is
collected once.
-/
import SourceBundle.Graph
import SourceBundle.Proofs.Closure.Comparison
import SourceBundle.Proofs.Closure.Reachability
import SourceBundle.Proofs.Effects

namespace SourceBundle

open List

variable {m : Type → Type}

-- ===== answers alone

namespace Service

/-- The service that only answers, and as `answer` says where references are concerned. -/
def plain (s : Service m) (answer : Expr → Option Resolution) : Service Id where
  names := s.names
  findUnit := s.findUnit
  resolve := answer
  declaringUnit := s.declaringUnit
  enclosingSpace := s.enclosingSpace
  importsOf := s.importsOf
  unitsIn := s.unitsIn
  declaresSpace := s.declaresSpace
  globalImports := s.globalImports
  findUnit_named := s.findUnit_named
  declaringUnit_named := s.declaringUnit_named
  unitsIn_named := s.unitsIn_named

end Service

/-- Whatever else looking up a reference does, the answer is a function of the reference. -/
def Service.FunctionLike [Monad m] (s : Service m) (answer : Expr → Option Resolution) : Prop :=
  ∀ e, Always (· = answer e) (s.resolve e)

-- ===== graphs

namespace Graph

variable [Monad m] [LawfulMonad m]

theorem service_functionLike (g : Graph) (count : m Unit) :
    (g.service count).FunctionLike fun e => (target? e).bind g.lookup :=
  fun _ => .after count fun _ => .of_pure rfl

omit [LawfulMonad m] in
/-- A graph without repeated names and impostors has distinct names. -/
theorem service_distinctNames {g : Graph} (count : m Unit)
    (hnames : (g.typeUnits.map (·.qualifiedName)).Nodup) (himpostors : g.impostors = []) :
    (g.service count).DistinctNames := by
  have hmem : ∀ {u : TypeUnit}, (g.service count).HasUnit u → u ∈ g.typeUnits := by
    intro u hu
    rcases hu with ⟨space, name, hu⟩ | ⟨symbol, hu⟩ | ⟨space, hu⟩
    · exact mem_of_find?_eq_some hu
    · obtain ⟨key, -, hu⟩ := Option.bind_eq_some_iff.1 hu
      obtain ⟨v, hv, hu⟩ := Option.bind_eq_some_iff.1 hu
      rw [himpostors] at hu
      cases hu
      exact mem_of_getElem? hv
    · exact (mem_filter.1 hu).1
  intro u v hu hv hname
  exact inj_on_of_nodup_map hnames (hmem hu) (hmem hv) hname

/-- Two units that refer to each other, and an enum. -/
def ring : Graph where
  units := [
    { name := "A.Root", refs := [.call "B.Next", .access "B.Color"] },
    { name := "B.Next", refs := [.creation "A.Root"] },
    { name := "B.Color", refs := [.call "B.Other"], kind := .enumLike },
    { name := "B.Other" }]

end Graph

/-- How the service of the ring counts. -/
def tally : StateM Nat Unit := modify (· + 1)

section

variable [Monad m] [LawfulMonad m] [MonadLog m] {s : Service m}
  {answer : Expr → Option Resolution}

-- ===== collecting

/-- What is collected from a unit is a function of the unit, in whatever context. -/
theorem collect_plain (hs : s.FunctionLike answer) (c c' : Context) (u : TypeUnit) :
    Always (· = Id.run (collect (s.plain answer) c' u)) (collect s c u) := by
  have hplain : Comparison c c' fun _ P (x : m _) (y : Id _) =>
      P y.run ∧ Always (· = y.run) x := by
    refine ⟨fun ha => ⟨ha, .of_pure rfl⟩, ?_, fun _ _ => ⟨trivial, .mono (.of_any _) ?_⟩⟩
    · intro _ _ _ _ _ _ _ _ hx hf
      refine ⟨(hf _ hx.1).1, hx.2.bind ?_⟩
      rintro _ rfl
      exact (hf _ hx.1).2
    · exact fun _ _ => rfl
  exact (hplain.of_collect s (s.plain answer) Collection.gathers_true
    (fun e => ⟨trivial, hs e⟩) u).2

-- ===== looking

/-- What a walk does to a unit besides marking it: an enum is only noted, from any other unit it
is collected once. -/
def Service.look (s : Service m) (c : Context) (u : TypeUnit) : m Unit :=
  if u.isEnum then c.log .debug s!"Visited enum '{u.qualifiedName}' (not expanded)"
  else do
    let found ← collect s c u
    let x := s.expansion c.policy u found
    c.log .debug s!"Visited '{u.qualifiedName}': {x.successors.length} successor(s)"

/-- Collecting from a unit and going on with what it leads to is looking at the unit and going on
with what the answers alone say that it leads to. -/
theorem look_bind (hs : s.FunctionLike answer) (c : Context) {u : TypeUnit} {α : Type}
    (henum : u.isEnum = false) (f : Expansion → m α) :
    (do
      let found ← collect s c u
      let x := s.expansion c.policy u found
      c.log .debug s!"Visited '{u.qualifiedName}': {x.successors.length} successor(s)"
      f x) = s.look c u >>= fun _ => f ((s.plain answer).expand c u) := by
  unfold Service.look
  rw [if_neg (by simp [henum]), bind_assoc]
  refine (collect_plain hs c c u).bind_congr ?_
  intro _ h
  subst h
  rfl

/-- What a walk does and finds come apart: it looks at the units `us` that it marks, in order,
after those marked `before`. -/
structure ComesApart (s : Service m) (c : Context) (walk : m (Except WalkError Walk))
    (found : Except WalkError Walk) (before us : List TypeUnit) : Prop where
  walk_eq : walk = do
    forM us (s.look c)
    return found
  visited_eq : ∀ w, found = .ok w → w.visited = before ++ us

namespace ComesApart

variable {c : Context} {walk : m (Except WalkError Walk)} {found : Except WalkError Walk}
  {before us : List TypeUnit}

theorem done (w : Walk) : ComesApart s c (pure (.ok w)) (.ok w) w.visited [] where
  walk_eq := by rw [forM_nil, pure_bind]
  visited_eq w' hw' := by
    cases hw'
    exact (append_nil _).symm

theorem failed (e : WalkError) : ComesApart s c (pure (.error e)) (.error e) before [] where
  walk_eq := by rw [forM_nil, pure_bind]
  visited_eq w hw := by cases hw

/-- A unit that is marked is looked at before the units that are marked later. -/
theorem step {u : TypeUnit} (h : ComesApart s c walk found (before ++ [u]) us) :
    ComesApart s c (s.look c u >>= fun _ => walk) found before (u :: us) where
  walk_eq := by rw [h.walk_eq, forM_cons, bind_assoc]
  visited_eq w hw := by rw [h.visited_eq w hw, append_assoc, singleton_append]

end ComesApart

/-- What any walk does and finds come apart. -/
theorem walkWithin_comesApart (hs : s.FunctionLike answer) (c : Context) (stop : Nat → Bool)
    (n : Nat) (stack : List TypeUnit) (w : Walk) :
    ∃ us, ComesApart s c (walkWithin s c stop n stack w)
      (Id.run (walkWithin (s.plain answer) c stop n stack w)) w.visited us := by
  induction n generalizing stack w with
  | zero => exact ⟨[], .done w⟩
  | succ n ihn =>
    induction stack generalizing w with
    | nil => exact ⟨[], .done w⟩
    | cons u stack ih =>
      rw [walkWithin_cons s, walkWithin_cons (s.plain answer)]
      by_cases hstop : stop w.polls
      · rw [if_pos hstop, if_pos hstop]
        exact ⟨[], .failed _⟩
      rw [if_neg hstop, if_neg hstop]
      cases w.marked? u with
      | some known =>
        by_cases hkey : known.key = u.key
        · simp only [if_pos hkey]
          exact ih w.poll
        · simp only [if_neg hkey]
          exact ⟨[], .failed _⟩
      | none =>
        cases henum : u.isEnum with
        | true =>
          simp only [if_true]
          obtain ⟨us, hus⟩ := ih (w.poll.mark u [] [])
          have hlook : s.look c u
              = c.log .debug s!"Visited enum '{u.qualifiedName}' (not expanded)" :=
            if_pos henum
          rw [← hlook]
          exact ⟨u :: us, hus.step⟩
        | false =>
          simp only [Bool.false_eq_true, if_false]
          obtain ⟨us, hus⟩ := ihn (((s.plain answer).expand c u).successors ++ stack)
            (w.poll.mark u ((s.plain answer).expand c u).spaces
              ((s.plain answer).expand c u).diagnostics)
          refine ⟨u :: us, ?_⟩
          rw [look_bind hs c henum fun x => walkWithin s c stop n (x.successors ++ stack)
            (w.poll.mark u x.spaces x.diagnostics)]
          exact hus.step

-- ===== exactness

/-- The walk from a located root over the answers alone: it ends well, and finds just what the
root reaches. -/
theorem walkFrom_eq_ok {s : Service Id} {c : Context} {root : String} {u : TypeUnit}
    (hdist : s.DistinctNames) (hroot : locateRoot s root = .ok u) :
    ∃ w, Id.run (walkFrom s c (fun _ => false) [u]) = .ok w ∧ w.visited.head? = some u
      ∧ w.names.Nodup ∧ ∀ v, v ∈ w.visited ↔ Relation.ReflTransGen (s.Leads c) u v := by
  have hu : s.HasUnit u := .inl ⟨_, _, (locateRoot_eq_ok hroot).1⟩
  have hleads : s.Leads c = Expands (s.expand c) :=
    funext₂ fun _ _ => propext (Service.leads_iff_expands hdist)
  obtain ⟨w', hw', hhead, hnodup, hreach⟩ := (walkFrom_visits (c := c) hroot).exact_of_distinctNames
    hdist (fun _ _ hv => Service.hasUnit_of_mem_successors hv) hu
  cases hwalk : Id.run (walkFrom s c (fun _ => false) [u]) with
  | error e =>
    rw [hwalk] at hw'
    cases hw'
  | ok w =>
    rw [hwalk] at hw'
    cases hw'
    rw [hleads]
    exact ⟨w, rfl, hhead, hnodup, hreach⟩

/-- What bundling a root located as `u` comes to. -/
structure Exact (s : Service m) (answer : Expr → Option Resolution) (c : Context) (root : String)
    (u : TypeUnit) (b : Bundle) : Prop where
  /-- It comes to an end with the bundle, and on the way looks once at each unit of it. -/
  bundle_eq : bundle s c root = do
    c.log .info (stageMessage "Walking closure of" root)
    c.log .debug (rootMessage root u)
    forM b.units (s.look c)
    c.log .info s!"Closure of '{root}' has {b.units.length} unit(s)"
    return .ok b
  root_first : b.units.head? = some u
  nodup_names : (b.units.map (·.qualifiedName)).Nodup
  mem_units_iff : ∀ v, v ∈ b.units ↔ Relation.ReflTransGen ((s.plain answer).Leads c) u v

/-- The bundle of a root that is located is exact: looking at each unit once collects once from
every unit but the enums, the root is first, no name comes twice, and the units are just those that
the root leads to. -/
theorem bundle_exact (hs : s.FunctionLike answer) (hdist : s.DistinctNames) (c : Context)
    {root : String} {u : TypeUnit} (hroot : locateRoot s root = .ok u) :
    ∃ b, Exact s answer c root u b := by
  obtain ⟨w, hwalk, hhead, hnodup, hreach⟩ :=
    walkFrom_eq_ok (s := s.plain answer) (c := c) hdist hroot
  obtain ⟨us, hus⟩ := walkWithin_comesApart hs c (fun _ => false) (s.names.length + 1) [u] {}
  have hmarks : w.visited = us := hus.visited_eq w hwalk
  refine ⟨w.toBundle u c.policy, ?_, hhead, hnodup, hreach⟩
  have hdoes : walkFrom s c (fun _ => false) [u] = do
      forM w.visited (s.look c)
      return .ok w := by
    rw [hmarks, ← hwalk]
    exact hus.walk_eq
  unfold bundle
  rw [hroot]
  dsimp only
  rw [hdoes, bind_assoc]
  simp only [pure_bind]
  rfl

theorem bundle_exact_ring :
    (Graph.ring.typeUnits.map (·.qualifiedName)).Nodup
      ∧ ∃ u b, locateRoot (Graph.ring.service tally) "A.Root" = .ok u
        ∧ Exact (Graph.ring.service tally) (fun e => (Graph.target? e).bind Graph.ring.lookup) {}
          "A.Root" u b := by
  have hnames : (Graph.ring.typeUnits.map (·.qualifiedName)).Nodup := by decide +kernel
  have hroot : locateRoot (Graph.ring.service tally) "A.Root"
      = .ok (GraphUnit.toUnit
          { name := "A.Root", refs := [.call "B.Next", .access "B.Color"] } 0) :=
    rfl
  obtain ⟨b, hb⟩ := bundle_exact (Graph.ring.service_functionLike tally)
    (Graph.service_distinctNames tally hnames rfl) {} hroot
  exact ⟨hnames, _, b, hroot, hb⟩

end

end SourceBundle
