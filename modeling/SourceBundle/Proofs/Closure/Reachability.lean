/-
What the visits from a root find: exactly the units that it leads to.

One unit leads to another if it is no enum and refers to a symbol that
the other declares, or, under the wide policy, to a symbol of a unit in
the other's namespace. Both halves go by induction on the visits. Every
unit found is reached from one that was to be visited (`Visits.sound`);
and when the visits are over, all that a newly marked unit leads to is
marked (`Visits.closed`), so the marks are closed under the steps.
-/
import Mathlib.Logic.Relation
import SourceBundle.Proofs.Closure.Recursion

namespace SourceBundle

open List

-- ===== vocabulary

namespace Service

variable {m : Type → Type}

/-- The units that a service answers with. -/
def HasUnit (s : Service m) (u : TypeUnit) : Prop :=
  (∃ space name, s.findUnit space name = some u) ∨ (∃ symbol, s.declaringUnit symbol = some u)
    ∨ ∃ space, u ∈ s.unitsIn space

/-- No two units of a service share a qualified name. -/
def DistinctNames (s : Service m) : Prop :=
  ∀ u v, s.HasUnit u → s.HasUnit v → u.qualifiedName = v.qualifiedName → u = v

/-- A unit follows from what was collected: some symbol is declared by a unit with a namespace,
which is this one or, under the wide policy, has this one beside it in that namespace. -/
def Follows (s : Service m) (policy : Policy) (found : Collection) (v : TypeUnit) : Prop :=
  ∃ symbol ∈ found.symbols, symbol.kind ≠ .external
    ∧ ∃ dep space, s.declaringUnit symbol = some dep ∧ s.enclosingSpace dep = some space
      ∧ (v = dep ∨ policy = .wide ∧ v ∈ s.unitsIn space)

/-- A unit leads to another: it is no enum, and the other follows from what is collected from
it. -/
def Leads (s : Service Id) (c : Context) (u v : TypeUnit) : Prop :=
  u.isEnum = false ∧ s.Follows c.policy (Id.run (collect s c u)) v

end Service

-- ===== successors

namespace Service

section

variable {m : Type → Type} {s : Service m} {policy : Policy} {u v : TypeUnit} {found : Collection}

/-- A successor is what a located dependency brings along. -/
theorem follows_of_mem_successors (hv : v ∈ (s.expansion policy u found).successors) :
    s.Follows policy found v := by
  obtain ⟨d, hd, hv⟩ := mem_flatMap.1 (Text.mem_of_mem_distinctBy hv)
  obtain ⟨symbol, hsymbol, rfl⟩ := mem_map.1 hd
  obtain ⟨dep, space, hdep, hv⟩ := mem_brings_iff.1 hv
  obtain ⟨hkind, hunit, hspace⟩ := dependency_eq_located_iff.1 hdep
  exact ⟨symbol, hsymbol, hkind, dep, space, hunit, hspace, hv⟩

theorem Follows.hasUnit (hv : s.Follows policy found v) : s.HasUnit v := by
  obtain ⟨symbol, -, -, dep, space, hunit, -, hv⟩ := hv
  rcases hv with rfl | ⟨-, hv⟩
  · exact .inr (.inl ⟨symbol, hunit⟩)
  · exact .inr (.inr ⟨space, hv⟩)

theorem hasUnit_of_mem_successors (hv : v ∈ (s.expansion policy u found).successors) :
    s.HasUnit v :=
  (follows_of_mem_successors hv).hasUnit

/-- Where names are distinct, dropping repeated names loses no successor. -/
theorem mem_successors_iff (hdist : s.DistinctNames) :
    v ∈ (s.expansion policy u found).successors ↔ s.Follows policy found v := by
  constructor
  · exact follows_of_mem_successors
  · intro hv
    have hvUnit := hv.hasUnit
    obtain ⟨symbol, hsymbol, hkind, dep, space, hunit, hspace, hv⟩ := hv
    have hbrought : v ∈ (found.symbols.map s.dependency).flatMap (s.brings policy) :=
      mem_flatMap.2 ⟨_, mem_map_of_mem hsymbol,
        mem_brings_iff.2 ⟨dep, space, dependency_eq_located_iff.2 ⟨hkind, hunit, hspace⟩, hv⟩⟩
    obtain ⟨v', hv', hname⟩ :=
      Text.exists_mem_distinctBy (f := TypeUnit.qualifiedName) hbrought
    rw [← hdist v' v (hasUnit_of_mem_successors (u := u) hv') hvUnit hname]
    exact hv'

end

end Service

/-- One unit leads to another by what units lead to: it is no enum, and the other is one of its
successors. -/
def Expands (expand : TypeUnit → Expansion) (u v : TypeUnit) : Prop :=
  u.isEnum = false ∧ v ∈ (expand u).successors

theorem Service.leads_iff_expands {s : Service Id} {c : Context} (hdist : s.DistinctNames)
    {u v : TypeUnit} : s.Leads c u v ↔ Expands (s.expand c) u v :=
  and_congr_right fun _ => (Service.mem_successors_iff hdist).symm

-- ===== what visits keep

namespace Visits

variable {expand : TypeUnit → Expansion} {us : List TypeUnit} {w w' : Walk}
  {r : Except WalkError Walk}

/-- Marks stay, in their order. -/
theorem marks_prefix (h : Visits expand us w r) (hr : r = .ok w') : w.visited <+: w'.visited := by
  induction h generalizing w' with
  | done w => cases hr; exact prefix_rfl
  | marked _ _ _ ih => exact ih hr
  | clash => cases hr
  | leaf _ _ _ ih => exact (prefix_append _ _).trans (ih hr)
  | inner _ _ _ _ ihsucc ihrest =>
    exact (prefix_append _ _).trans ((ihsucc rfl).trans (ihrest hr))
  | broken => cases hr

theorem names_subset (h : Visits expand us w r) (hr : r = .ok w') : w.names ⊆ w'.names :=
  map_subset _ (h.marks_prefix hr).subset

theorem mem_mark_names (w : Walk) (u : TypeUnit) (spaces : List String)
    (diagnostics : List Diagnostic) :
    u.qualifiedName ∈ (w.mark u spaces diagnostics).names := by
  rw [Walk.names_mark]
  exact mem_append_right _ (mem_singleton_self _)

/-- Every unit that was to be visited is marked in the end, perhaps by another of its name. -/
theorem marks_all (h : Visits expand us w r) (hr : r = .ok w') :
    ∀ u ∈ us, u.qualifiedName ∈ w'.names := by
  induction h generalizing w' with
  | done w => intro u hu; cases hu
  | marked hknown _ hrest ih =>
    intro v hv
    rcases mem_cons.1 hv with rfl | hv
    · obtain ⟨hmem, hname⟩ := Walk.mem_of_marked?_eq_some hknown
      rw [← hname]
      exact hrest.names_subset hr (mem_map_of_mem hmem)
    · exact ih hr v hv
  | clash => cases hr
  | leaf _ _ hrest ih =>
    intro v hv
    rcases mem_cons.1 hv with rfl | hv
    · exact hrest.names_subset hr (mem_mark_names _ _ _ _)
    · exact ih hr v hv
  | inner _ _ hsucc hrest _ ihrest =>
    intro v hv
    rcases mem_cons.1 hv with rfl | hv
    · exact hrest.names_subset hr (hsucc.names_subset rfl (mem_mark_names _ _ _ _))
    · exact ihrest hr v hv
  | broken => cases hr

/-- No name is marked twice. -/
theorem nodup_names (h : Visits expand us w r) (hr : r = .ok w') (hw : w.names.Nodup) :
    w'.names.Nodup := by
  have hmark : ∀ {w : Walk} {u : TypeUnit} (spaces : List String) (ds : List Diagnostic),
      w.marked? u = none → w.names.Nodup → (w.mark u spaces ds).names.Nodup := by
    intro w u spaces ds hnew hw
    rw [Walk.names_mark]
    exact nodup_append.2 ⟨hw, nodup_singleton _, fun a ha b hb hab =>
      Walk.marked?_eq_none_iff.1 hnew (mem_singleton.1 hb ▸ hab ▸ ha)⟩
  induction h generalizing w' with
  | done w => cases hr; exact hw
  | marked _ _ _ ih => exact ih hr hw
  | clash => cases hr
  | leaf hnew _ _ ih => exact ih hr (hmark _ _ hnew hw)
  | inner hnew _ _ _ ihsucc ihrest => exact ihrest hr (ihsucc rfl (hmark _ _ hnew hw))
  | broken => cases hr

/-- When the visits are over, the successors of every unit that they marked are marked. -/
theorem closed (h : Visits expand us w r) (hr : r = .ok w') :
    ∀ u ∈ w'.visited, u ∈ w.visited ∨ u.isEnum = true
      ∨ ∀ v ∈ (expand u).successors, v.qualifiedName ∈ w'.names := by
  induction h generalizing w' with
  | done w => cases hr; exact fun u hu => .inl hu
  | marked _ _ _ ih => exact ih hr
  | clash => cases hr
  | leaf _ henum _ ih =>
    intro v hv
    rcases ih hr v hv with hv | hv
    · rcases mem_append.1 hv with hv | hv
      · exact .inl hv
      · rw [mem_singleton.1 hv]
        exact .inr (.inl henum)
    · exact .inr hv
  | inner _ _ hsucc hrest ihsucc ihrest =>
    intro v hv
    rcases ihrest hr v hv with hv | hv
    · rcases ihsucc rfl v hv with hv | hv | hv
      · rcases mem_append.1 hv with hv | hv
        · exact .inl hv
        · -- the unit expanded here: its successors are those just visited
          rw [mem_singleton.1 hv]
          exact .inr (.inr fun x hx => hrest.names_subset hr (hsucc.marks_all rfl x hx))
      · exact .inr (.inl hv)
      · exact .inr (.inr fun x hx => hrest.names_subset hr (hv x hx))
    · exact .inr hv
  | broken => cases hr

/-- Every unit marked by the visits is reached from one that was to be visited. -/
theorem sound (h : Visits expand us w r) (hr : r = .ok w') :
    ∀ v ∈ w'.visited, v ∈ w.visited ∨ ∃ u ∈ us, Relation.ReflTransGen (Expands expand) u v := by
  induction h generalizing w' with
  | done w => cases hr; exact fun v hv => .inl hv
  | marked _ _ _ ih =>
    intro v hv
    rcases ih hr v hv with hv | ⟨x, hx, hreach⟩
    · exact .inl hv
    · exact .inr ⟨x, mem_cons_of_mem _ hx, hreach⟩
  | clash => cases hr
  | leaf _ _ _ ih =>
    intro v hv
    rcases ih hr v hv with hv | ⟨x, hx, hreach⟩
    · rcases mem_append.1 hv with hv | hv
      · exact .inl hv
      · exact .inr ⟨v, mem_cons.2 (.inl (mem_singleton.1 hv)), .refl⟩
    · exact .inr ⟨x, mem_cons_of_mem _ hx, hreach⟩
  | @inner u us _ _ _ _ henum _ _ ihsucc ihrest =>
    intro v hv
    rcases ihrest hr v hv with hv | ⟨x, hx, hreach⟩
    · rcases ihsucc rfl v hv with hv | ⟨x, hx, hreach⟩
      · rcases mem_append.1 hv with hv | hv
        · exact .inl hv
        · exact .inr ⟨v, mem_cons.2 (.inl (mem_singleton.1 hv)), .refl⟩
      · exact .inr ⟨u, mem_cons_self, .head ⟨henum, hx⟩ hreach⟩
    · exact .inr ⟨x, mem_cons_of_mem _ hx, hreach⟩
  | broken => cases hr

section

variable {m : Type → Type} {s : Service m}

/-- Where names are distinct the visits come to an end without an error, and mark units of the
service only. -/
theorem ok_of_distinctNames (h : Visits expand us w r) (hdist : s.DistinctNames)
    (hexpand : ∀ u, ∀ v ∈ (expand u).successors, s.HasUnit v) (hus : ∀ u ∈ us, s.HasUnit u)
    (hw : ∀ u ∈ w.visited, s.HasUnit u) :
    ∃ w', r = .ok w' ∧ ∀ u ∈ w'.visited, s.HasUnit u := by
  have hmark : ∀ {w : Walk} {u : TypeUnit} (spaces : List String) (ds : List Diagnostic),
      s.HasUnit u → (∀ v ∈ w.visited, s.HasUnit v) →
      ∀ v ∈ (w.mark u spaces ds).visited, s.HasUnit v := by
    intro w u spaces ds hu hw v hv
    rcases mem_append.1 hv with hv | hv
    · exact hw v hv
    · exact mem_singleton.1 hv ▸ hu
  induction h with
  | done w => exact ⟨w, rfl, hw⟩
  | marked _ _ _ ih => exact ih (fun v hv => hus v (mem_cons_of_mem _ hv)) hw
  | clash hknown hkey =>
    obtain ⟨hmem, hname⟩ := Walk.mem_of_marked?_eq_some hknown
    have hsame := hdist _ _ (hw _ hmem) (hus _ mem_cons_self) hname
    exact absurd (by rw [hsame]) hkey
  | leaf _ _ _ ih =>
    exact ih (fun v hv => hus v (mem_cons_of_mem _ hv))
      (hmark _ _ (hus _ mem_cons_self) hw)
  | inner _ _ _ _ ihsucc ihrest =>
    obtain ⟨w₁, hok, hw₁⟩ := ihsucc (hexpand _)
      (hmark _ _ (hus _ mem_cons_self) hw)
    cases hok
    exact ihrest (fun v hv => hus v (mem_cons_of_mem _ hv)) hw₁
  | broken _ _ _ ih =>
    obtain ⟨w₁, hok, -⟩ := ih (hexpand _)
      (hmark _ _ (hus _ mem_cons_self) hw)
    cases hok

/-- What a unit reaches is what the visits from it mark, where names are distinct. -/
theorem mem_visited_iff {u : TypeUnit} (h : Visits expand [u] {} (.ok w))
    (hdist : s.DistinctNames) (hexpand : ∀ u, ∀ v ∈ (expand u).successors, s.HasUnit v)
    (hu : s.HasUnit u) (hw : ∀ v ∈ w.visited, s.HasUnit v) (v : TypeUnit) :
    v ∈ w.visited ↔ Relation.ReflTransGen (Expands expand) u v := by
  -- a unit whose name is marked is marked itself
  have hmarked : ∀ {v : TypeUnit}, s.HasUnit v → v.qualifiedName ∈ w.names → v ∈ w.visited := by
    intro v hv hname
    obtain ⟨v', hv', hsame⟩ := mem_map.1 hname
    rw [← hdist v' v (hw v' hv') hv hsame]
    exact hv'
  constructor
  · intro hv
    rcases h.sound rfl v hv with hv | ⟨x, hx, hreach⟩
    · cases hv
    · rw [← mem_singleton.1 hx]
      exact hreach
  · intro hreach
    induction hreach with
    | refl => exact hmarked hu (h.marks_all rfl u (mem_singleton_self u))
    | tail _ hstep ih =>
      obtain ⟨henum, hsucc⟩ := hstep
      rcases h.closed rfl _ ih with hold | henum' | hclosed
      · cases hold
      · rw [henum] at henum'
        cases henum'
      · exact hmarked (hexpand _ _ hsucc) (hclosed _ hsucc)

/-- The first unit marked is the first one visited. -/
theorem head?_visited {u : TypeUnit} (h : Visits expand [u] {} (.ok w)) :
    w.visited.head? = some u := by
  have hhead : [u] <+: w.visited → w.visited.head? = some u := by
    intro hprefix
    obtain ⟨rest, hrest⟩ := hprefix
    rw [← hrest]
    rfl
  cases h with
  | marked hknown => cases hknown
  | leaf _ _ hrest => exact hhead (hrest.marks_prefix rfl)
  | inner _ _ hsucc hrest =>
    exact hhead ((hsucc.marks_prefix rfl).trans (hrest.marks_prefix rfl))

/-- The visits from one unit, with nothing marked before: where names are distinct they end well,
with this unit first and no name twice, in just the units that it reaches. -/
theorem exact_of_distinctNames {u : TypeUnit} (h : Visits expand [u] {} r)
    (hdist : s.DistinctNames) (hexpand : ∀ u, ∀ v ∈ (expand u).successors, s.HasUnit v)
    (hu : s.HasUnit u) :
    ∃ w, r = .ok w ∧ w.visited.head? = some u ∧ w.names.Nodup
      ∧ ∀ v, v ∈ w.visited ↔ Relation.ReflTransGen (Expands expand) u v := by
  obtain ⟨w, rfl, hunits⟩ := h.ok_of_distinctNames hdist hexpand
    (fun v hv => mem_singleton.1 hv ▸ hu) nofun
  exact ⟨w, rfl, h.head?_visited, h.nodup_names rfl nodup_nil,
    h.mem_visited_iff hdist hexpand hu hunits⟩

end

end Visits

end SourceBundle
