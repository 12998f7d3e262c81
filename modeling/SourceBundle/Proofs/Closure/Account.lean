/-
What a session finds on a walk. Its answers may depend on what it was
asked before, so what a unit leads to is no function of the unit. But a
walk asks about each unit at most once. What the session collects from
the units of the walk, one after another (`account`), says what each of
them leads to, and by this the walk is the visits of the recursive
formulation (`walkWithin_account`).

A unit that is expanded puts its entry in front of the account of all
that comes after it. The visits after it keep to the longer account too
(`Visits.congr`), since the unit is marked by then and none of them
expands it again.
-/
import SourceBundle.Binding.Language
import SourceBundle.Proofs.Closure.Reachability

namespace SourceBundle

open List

-- ===== sessions

namespace Session

variable {α β : Type}

/-- The work of a session goes from one state to another and comes to a value. -/
def Gives (work : Session Id α) (st : BindState) (a : α) (st' : BindState) : Prop :=
  Id.run (work st) = (.ok a, st')

theorem gives_pure_iff {a b : α} {st st' : BindState} :
    (pure a : Session Id α).Gives st b st' ↔ a = b ∧ st = st' := by
  show (Except.ok a, st) = (Except.ok b, st') ↔ _
  rw [Prod.mk.injEq, Except.ok.injEq]

theorem gives_bind_iff {x : Session Id α} {f : α → Session Id β} {st st'' : BindState} {b : β} :
    (x >>= f).Gives st b st'' ↔ ∃ a st', x.Gives st a st' ∧ (f a).Gives st' b st'' := by
  show Id.run (x st >>= fun r => ExceptT.bindCont f r.1 r.2) = _ ↔ _
  unfold Gives
  cases hx : Id.run (x st) with
  | mk outcome st₁ =>
    have hrun : Id.run (x st >>= fun r => ExceptT.bindCont f r.1 r.2)
        = Id.run (ExceptT.bindCont f outcome st₁) :=
      congrArg (fun r => Id.run (ExceptT.bindCont f r.1 r.2)) hx
    rw [hrun]
    cases outcome with
    | ok a =>
      constructor
      · intro h
        exact ⟨a, st₁, rfl, h⟩
      · intro hsteps
        obtain ⟨a', st', ha, h⟩ := hsteps
        cases ha
        exact h
    | error e =>
      constructor
      · intro h
        cases h
      · intro hsteps
        obtain ⟨a', st', ha, -⟩ := hsteps
        cases ha

/-- Work with a workspace that nothing was asked of starts from the empty state. -/
theorem exists_gives_of_start {work : Session Id α} {a : α} (h : Id.run work.start = .ok a) :
    ∃ st, work.Gives {} a st :=
  ⟨(Id.run (work {})).2, Prod.ext h rfl⟩

/-- A message leaves the state as it is. -/
theorem gives_log_iff {c : Context} {level : LogLevel} {message : String} {st st' : BindState}
    {a : Unit} : (c.log level message : Session Id Unit).Gives st a st' ↔ st = st' := by
  have hlog : Id.run ((c.log level message : Session Id Unit) st) = (.ok (), st) := by
    unfold Context.log
    cases c.admit? level message with
    | none => rfl
    | some line => rfl
  unfold Gives
  rw [hlog, Prod.mk.injEq]
  exact and_iff_right rfl

end Session

-- ===== accounts

namespace Service

/-- What a session collects from units that it is asked about one after another; from enums
nothing is collected. -/
def account (s : Service (Session Id)) (c : Context) :
    List TypeUnit → BindState → List (String × Collection)
  | [], _ => []
  | u :: us, st =>
    if u.isEnum then s.account c us st
    else
      match Id.run (collect s c u st) with
      | (.ok found, st') => (u.qualifiedName, found) :: s.account c us st'
      | (.error _, _) => []

/-- What a unit leads to by an account. -/
def expandBy {m : Type → Type} (s : Service m) (policy : Policy)
    (account : List (String × Collection)) (u : TypeUnit) : Expansion :=
  s.expansion policy u ((account.lookup u.qualifiedName).getD {})

/-- A unit leads to another by an account: it is no enum, and the other follows from what was
collected from it. -/
def LeadsBy {m : Type → Type} (s : Service m) (policy : Policy)
    (account : List (String × Collection)) (u v : TypeUnit) : Prop :=
  u.isEnum = false ∧ ∃ found, account.lookup u.qualifiedName = some found ∧ s.Follows policy found v

theorem leadsBy_iff_expands {m : Type → Type} {s : Service m} (hdist : s.DistinctNames)
    {policy : Policy} {account : List (String × Collection)} {u v : TypeUnit} :
    s.LeadsBy policy account u v ↔ Expands (s.expandBy policy account) u v := by
  refine and_congr_right fun _ => ?_
  rw [expandBy, mem_successors_iff hdist]
  cases account.lookup u.qualifiedName with
  | none =>
    constructor
    · intro hleads
      obtain ⟨_, hnone, -⟩ := hleads
      cases hnone
    · intro hfollows
      obtain ⟨_, hsymbol, -⟩ := hfollows
      cases hsymbol
  | some found => simp

variable {s : Service (Session Id)} {c : Context}

theorem account_enum {u : TypeUnit} (henum : u.isEnum = true) (us : List TypeUnit)
    (st : BindState) : s.account c (u :: us) st = s.account c us st := by
  rw [account, if_pos henum]

theorem account_cons {u : TypeUnit} {st st' : BindState} {found : Collection}
    (henum : u.isEnum = false) (hfound : (collect s c u).Gives st found st')
    (us : List TypeUnit) :
    s.account c (u :: us) st = (u.qualifiedName, found) :: s.account c us st' := by
  unfold Session.Gives at hfound
  rw [account, if_neg (by simp [henum]), hfound]

section

variable {m : Type → Type} (t : Service m) (policy : Policy) {u v : TypeUnit} (found : Collection)
  (rest : List (String × Collection))

theorem expandBy_cons_self (u : TypeUnit) :
    t.expandBy policy ((u.qualifiedName, found) :: rest) u = t.expansion policy u found := by
  simp [expandBy]

theorem expandBy_cons_of_ne (hne : v.qualifiedName ≠ u.qualifiedName) :
    t.expandBy policy ((u.qualifiedName, found) :: rest) v = t.expandBy policy rest v := by
  have hname : (v.qualifiedName == u.qualifiedName) = false := beq_false_of_ne hne
  rw [expandBy, lookup_cons, hname]
  rfl

end

end Service

-- ===== visits

/-- What is noted of a unit when it is marked: of an enum nothing, of any other unit what it leads
to. -/
def noted (expand : TypeUnit → Expansion) (u : TypeUnit) : Expansion :=
  if u.isEnum then ⟨[], [], []⟩ else expand u

/-- The findings of a walk are what was noted of the units that it has marked. -/
structure Walk.Notes (expand : TypeUnit → Expansion) (w : Walk) : Prop where
  spaces_eq : w.spaces = w.visited.map fun u => (u.qualifiedName, (noted expand u).spaces)
  diagnostics_eq : w.diagnostics = w.visited.flatMap fun u => (noted expand u).diagnostics

theorem Walk.Notes.mark {expand : TypeUnit → Expansion} {w : Walk} (hw : w.Notes expand)
    (u : TypeUnit) :
    (w.mark u (noted expand u).spaces (noted expand u).diagnostics).Notes expand where
  spaces_eq := by simp [Walk.mark, hw.spaces_eq]
  diagnostics_eq := by simp [Walk.mark, hw.diagnostics_eq]

namespace Visits

variable {expand expand' : TypeUnit → Expansion} {us : List TypeUnit} {w w' : Walk}
  {r : Except WalkError Walk}

/-- Visits look only at what units lead to that are not marked yet. -/
theorem congr (h : Visits expand us w r)
    (hsame : ∀ u : TypeUnit, u.qualifiedName ∉ w.names → expand u = expand' u) :
    Visits expand' us w r := by
  have hmark : ∀ {w : Walk} {u : TypeUnit} (spaces : List String) (ds : List Diagnostic),
      (∀ v : TypeUnit, v.qualifiedName ∉ w.names → expand v = expand' v) →
      ∀ v : TypeUnit, v.qualifiedName ∉ (w.mark u spaces ds).names → expand v = expand' v := by
    intro w u spaces ds hsame v hv
    rw [Walk.names_mark] at hv
    exact hsame v fun hmem => hv (mem_append_left _ hmem)
  induction h with
  | done w => exact .done w
  | marked hknown hkey _ ih => exact .marked hknown hkey (ih hsame)
  | clash hknown hkey => exact .clash hknown hkey
  | leaf hnew henum _ ih => exact .leaf hnew henum (ih (hmark _ _ hsame))
  | @inner u _ _ _ _ hnew henum hsucc _ ihsucc ihrest =>
    have hu : expand u = expand' u := hsame u (Walk.marked?_eq_none_iff.1 hnew)
    have hsucc' := ihsucc (hmark _ _ hsame)
    have hrest' := ihrest fun v hv =>
      hmark _ _ hsame v fun hmem => hv (hsucc.names_subset rfl hmem)
    rw [hu] at hsucc'
    exact .inner hnew henum hsucc' hrest'
  | @broken u _ _ _ hnew henum _ ih =>
    have hu : expand u = expand' u := hsame u (Walk.marked?_eq_none_iff.1 hnew)
    have hsucc' := ih (hmark _ _ hsame)
    rw [hu] at hsucc'
    exact .broken hnew henum hsucc'

/-- The findings keep to the units that are marked. -/
theorem notes (h : Visits expand us w r) (hr : r = .ok w') (hw : w.Notes expand) :
    w'.Notes expand := by
  induction h generalizing w' with
  | done w => cases hr; exact hw
  | marked _ _ _ ih => exact ih hr hw
  | clash => cases hr
  | @leaf u _ _ _ _ henum _ ih =>
    have hmark := hw.mark u
    rw [noted, if_pos henum] at hmark
    exact ih hr hmark
  | @inner u _ _ _ _ _ henum _ _ ihsucc ihrest =>
    have hmark := hw.mark u
    rw [noted, if_neg (by simp [henum])] at hmark
    exact ihrest hr (ihsucc rfl hmark)
  | broken => cases hr

end Visits

-- ===== the walk

section

variable {s : Service (Session Id)} {c : Context}

/-- What a walk of a session comes to, from marks `w` and a state: the visits by the account of
some units, which are those newly marked if it ends well. -/
structure Accounted (s : Service (Session Id)) (c : Context) (st : BindState)
    (stack : List TypeUnit) (w : Walk) (r : Except WalkError Walk) (us : List TypeUnit) : Prop where
  visits : Visits (s.expandBy c.policy (s.account c us st)) stack w.unpolled (r.map Walk.unpolled)
  visited_eq : ∀ w', r = .ok w' → w'.visited = w.visited ++ us
  collected : ∀ w', r = .ok w' → ∀ u ∈ us, u.isEnum = false →
    ∃ found, (s.account c us st).lookup u.qualifiedName = some found

namespace Accounted

variable {st st' : BindState} {stack us : List TypeUnit} {w : Walk} {r : Except WalkError Walk}
  {u : TypeUnit}

theorem done (w : Walk) : Accounted s c st [] w (.ok w) [] where
  visits := .done w.unpolled
  visited_eq w' hw' := by
    cases hw'
    exact (append_nil _).symm
  collected _ _ u hu := nomatch hu

theorem clash {known : TypeUnit} (hknown : w.marked? u = some known) (hkey : known.key ≠ u.key) :
    Accounted s c st (u :: stack) w (.error (.duplicateUnit u.qualifiedName)) [] where
  visits := .clash hknown hkey
  visited_eq _ hw' := nomatch hw'
  collected _ hw' := nomatch hw'

theorem marked {known : TypeUnit} (hknown : w.marked? u = some known) (hkey : known.key = u.key)
    (h : Accounted s c st stack w.poll r us) : Accounted s c st (u :: stack) w r us where
  visits := .marked hknown hkey h.visits
  visited_eq := h.visited_eq
  collected := h.collected

theorem leaf (hnew : w.marked? u = none) (henum : u.isEnum = true)
    (h : Accounted s c st stack (w.poll.mark u [] []) r us) :
    Accounted s c st (u :: stack) w r (u :: us) where
  visits := by
    rw [Service.account_enum henum]
    exact .leaf hnew henum h.visits
  visited_eq w' hw' := by
    rw [h.visited_eq w' hw']
    exact append_assoc _ [u] us
  collected w' hw' v hv hv' := by
    rw [Service.account_enum henum]
    rcases mem_cons.1 hv with rfl | hv
    · rw [henum] at hv'
      cases hv'
    · exact h.collected w' hw' v hv hv'

/-- A unit that is expanded opens the account, and then no visit expands a unit of its name. -/
theorem inner {found : Collection} (hnew : w.marked? u = none) (henum : u.isEnum = false)
    (hfound : (collect s c u).Gives st found st')
    (h : Accounted s c st' ((s.expansion c.policy u found).successors ++ stack)
      (w.poll.mark u (s.expansion c.policy u found).spaces
        (s.expansion c.policy u found).diagnostics) r us) :
    Accounted s c st (u :: stack) w r (u :: us) where
  visits := by
    have hself := s.expandBy_cons_self c.policy found (s.account c us st') u
    have hsame : ∀ v : TypeUnit,
        v.qualifiedName ∉ (w.poll.mark u (s.expansion c.policy u found).spaces
          (s.expansion c.policy u found).diagnostics).unpolled.names →
        s.expandBy c.policy (s.account c us st') v
          = s.expandBy c.policy ((u.qualifiedName, found) :: s.account c us st') v := by
      intro v hv
      refine (s.expandBy_cons_of_ne c.policy found (s.account c us st') fun hname => hv ?_).symm
      rw [hname]
      exact Visits.mem_mark_names w.poll u (s.expansion c.policy u found).spaces
        (s.expansion c.policy u found).diagnostics
    have hvisits := h.visits.congr hsame
    rw [Service.account_cons henum hfound]
    rw [← hself] at hvisits
    rcases visits_append hvisits with ⟨w₁, h₁, h₂⟩ | ⟨e, h₁, herr⟩
    · exact .inner hnew henum h₁ h₂
    · rw [herr]
      exact .broken hnew henum h₁
  visited_eq w' hw' := by
    rw [h.visited_eq w' hw']
    exact append_assoc _ [u] us
  collected w' hw' v hv hv' := by
    rw [Service.account_cons henum hfound, lookup_cons]
    cases hname : v.qualifiedName == u.qualifiedName with
    | true => exact ⟨found, rfl⟩
    | false =>
      rcases mem_cons.1 hv with rfl | hv
      · rw [beq_self_eq_true] at hname
        cases hname
      · exact h.collected w' hw' v hv hv'

end Accounted

/-- The walk of a session from any stack and any marks is accounted for, as long as there is
room for it. -/
theorem walkWithin_account {n : Nat} {stack : List TypeUnit} {w : Walk} {st st' : BindState}
    {r : Except WalkError Walk}
    (hgives : (walkWithin s c (fun _ => false) n stack w).Gives st r st')
    (hroom : s.Room n stack w) : ∃ us, Accounted s c st stack w r us := by
  induction n generalizing stack w st with
  | zero => exact absurd hroom.bound (Nat.not_lt_zero _)
  | succ n ihn =>
    induction stack generalizing w st with
    | nil =>
      obtain ⟨rfl, -⟩ := Session.gives_pure_iff.1 hgives
      exact ⟨[], .done w⟩
    | cons u stack ih =>
      rw [walkWithin_cons, if_neg Bool.false_ne_true] at hgives
      cases hmark : w.marked? u with
      | some known =>
        rw [hmark] at hgives
        dsimp only at hgives
        by_cases hkey : known.key = u.key
        · rw [if_pos hkey] at hgives
          obtain ⟨us, hus⟩ := ih hgives hroom.rest
          exact ⟨us, hus.marked hmark hkey⟩
        · rw [if_neg hkey] at hgives
          obtain ⟨rfl, -⟩ := Session.gives_pure_iff.1 hgives
          exact ⟨[], .clash hmark hkey⟩
      | none =>
        rw [hmark] at hgives
        dsimp only at hgives
        cases henum : u.isEnum with
        | true =>
          rw [if_pos henum] at hgives
          obtain ⟨_, st₁, hlog, hrest⟩ := Session.gives_bind_iff.1 hgives
          obtain rfl := Session.gives_log_iff.1 hlog
          obtain ⟨us, hus⟩ := ih hrest (hroom.leaf hmark)
          exact ⟨u :: us, hus.leaf hmark henum⟩
        | false =>
          rw [if_neg (by simp [henum])] at hgives
          obtain ⟨found, st₁, hfound, hgives⟩ := Session.gives_bind_iff.1 hgives
          obtain ⟨_, st₂, hlog, hrest⟩ := Session.gives_bind_iff.1 hgives
          obtain rfl := Session.gives_log_iff.1 hlog
          obtain ⟨us, hus⟩ := ihn hrest (hroom.inner hmark c.policy found)
          exact ⟨u :: us, hus.inner hmark henum hfound⟩

-- ===== the bundle

/-- What a session collects from the units of a bundle, one after another from a state, explains
the bundle: the units are those that the root leads to, and the namespaces and diagnostics are what
was noted of them. -/
structure Bundle.Explained (s : Service (Session Id)) (c : Context) (st : BindState)
    (b : Bundle) : Prop where
  nodup_names : (b.units.map (·.qualifiedName)).Nodup
  collected : ∀ u ∈ b.units, u.isEnum = false →
    ∃ found, (s.account c b.units st).lookup u.qualifiedName = some found
  mem_units_iff : ∀ v, v ∈ b.units ↔
    Relation.ReflTransGen (s.LeadsBy c.policy (s.account c b.units st)) b.root v
  spaces_eq : b.spaces = b.units.map fun u =>
    (u.qualifiedName, (noted (s.expandBy c.policy (s.account c b.units st)) u).spaces)
  diagnostics_eq : b.diagnostics = b.units.flatMap fun u =>
    (noted (s.expandBy c.policy (s.account c b.units st)) u).diagnostics

/-- Among units with distinct names each finds its own entry. -/
theorem lookup_map_of_nodup {α : Type} {us : List TypeUnit} {u : TypeUnit} (f : TypeUnit → α)
    (hnodup : (us.map (·.qualifiedName)).Nodup) (hu : u ∈ us) :
    (us.map fun v => (v.qualifiedName, f v)).lookup u.qualifiedName = some (f u) := by
  induction us with
  | nil => cases hu
  | cons v us ih =>
    rw [map_cons, nodup_cons] at hnodup
    rw [map_cons, lookup_cons]
    rcases mem_cons.1 hu with rfl | hu
    · rw [beq_self_eq_true]
    · have hne : (u.qualifiedName == v.qualifiedName) = false :=
        beq_false_of_ne fun hname => hnodup.1 (hname ▸ mem_map_of_mem hu)
      rw [hne]
      exact ih hnodup.2 hu

/-- The walk of a session from a located root ends well, and what was collected explains it. -/
theorem walkFrom_explained {root : String} {u : TypeUnit} {st st' : BindState}
    {r : Except WalkError Walk} (hdist : s.DistinctNames) (hroot : locateRoot s root = .ok u)
    (hgives : (walkFrom s c (fun _ => false) [u]).Gives st r st') :
    ∃ w, r = .ok w ∧ (w.toBundle u c.policy).Explained s c st := by
  have hfind := (locateRoot_eq_ok hroot).1
  obtain ⟨us, hus⟩ := walkWithin_account hgives (.start hroot)
  obtain ⟨w', hw', -, hnodup, hreach⟩ := hus.visits.exact_of_distinctNames hdist
    (fun _ _ hv => Service.hasUnit_of_mem_successors hv) (.inl ⟨_, _, hfind⟩)
  cases r with
  | error e => cases hw'
  | ok w =>
    cases hw'
    have hunits : w.visited = us := hus.visited_eq w rfl
    have hnotes := hus.visits.notes rfl ⟨rfl, rfl⟩
    subst hunits
    have hleads : s.LeadsBy c.policy (s.account c w.visited st)
        = Expands (s.expandBy c.policy (s.account c w.visited st)) :=
      funext₂ fun _ _ => propext (Service.leadsBy_iff_expands hdist)
    rw [← hleads] at hreach
    exact ⟨w, rfl, hnodup, hus.collected w rfl, hreach, hnotes.spaces_eq, hnotes.diagnostics_eq⟩

/-- What comes of bundling in a session: the error with which the root is not located, or a bundle
which is explained by what was collected. -/
theorem bundle_explained {root : String} {st st' : BindState} {r : Except WalkError Bundle}
    (hdist : s.DistinctNames) (hgives : (bundle s c root).Gives st r st') :
    (∃ e, locateRoot s root = .error e ∧ r = .error e)
      ∨ ∃ b, r = .ok b ∧ locateRoot s root = .ok b.root ∧ b.Explained s c st := by
  unfold bundle at hgives
  obtain ⟨_, st₁, hlog, hgives⟩ := Session.gives_bind_iff.1 hgives
  obtain rfl := Session.gives_log_iff.1 hlog
  cases hroot : locateRoot s root with
  | error e =>
    rw [hroot] at hgives
    obtain ⟨rfl, -⟩ := Session.gives_pure_iff.1 hgives
    exact .inl ⟨e, rfl, rfl⟩
  | ok u =>
    rw [hroot] at hgives
    obtain ⟨_, st₂, hlog, hgives⟩ := Session.gives_bind_iff.1 hgives
    obtain rfl := Session.gives_log_iff.1 hlog
    obtain ⟨o, st₃, hwalk, hgives⟩ := Session.gives_bind_iff.1 hgives
    obtain ⟨w, rfl, hexplained⟩ := walkFrom_explained hdist hroot hwalk
    obtain ⟨_, st₄, hlog, hgives⟩ := Session.gives_bind_iff.1 hgives
    obtain ⟨rfl, -⟩ := Session.gives_pure_iff.1 hgives
    exact .inr ⟨w.toBundle u c.policy, rfl, rfl, hexplained⟩

end

end SourceBundle
