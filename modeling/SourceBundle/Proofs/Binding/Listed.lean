/-
Every declaration of a workspace is accounted for.

A declaration that stands directly in a namespace is an entry of the
workspace. Declaring goes through the entries in the order they are
written, and comes to a verdict on each: the entry is listed, or there
is a warning for it. `Accounts` ties the declarations so far to the
verdicts so far. A listed entry adds its own type and those nested in
it, all of which lead out to that entry, and a warning adds nothing but
itself; so one entry brings one verdict (`Accounts.addUnit`), and a
whole workspace brings one for each of its entries
(`Workspace.exists_accounts`).

The units are the names of the listed entries, each once, and the parts
of a unit are the listed entries of its name.
-/
import SourceBundle.Proofs.Binding.Declared

namespace SourceBundle

open List

-- ===== families

mutual

/-- A declaration and those nested in it, outer ones first. -/
def TypeDecl.family : TypeDecl → List TypeDecl
  | d@{ nested, .. } => d :: TypeDecl.families nested
termination_by structural d => d

/-- Declarations one after another, each with those nested in it. -/
def TypeDecl.families : List TypeDecl → List TypeDecl
  | [] => []
  | d :: more => d.family ++ TypeDecl.families more
termination_by structural more => more

end

theorem TypeDecl.family_eq (d : TypeDecl) : d.family = d :: TypeDecl.families d.nested := by
  cases d
  rfl

-- ===== verdicts

/-- What becomes of an entry: it is listed, or there is a warning for it. -/
structure Verdict where
  entry : UnitEntry
  warning : Option Diagnostic := none

/-- The entries without a warning. -/
def listed (vs : List Verdict) : List UnitEntry :=
  (vs.filter (·.warning.isNone)).map (·.entry)

/-- The warnings. -/
def warnings (vs : List Verdict) : List Diagnostic :=
  vs.filterMap (·.warning)

@[simp] theorem listed_append (vs ws : List Verdict) :
    listed (vs ++ ws) = listed vs ++ listed ws := by
  simp [listed]

@[simp] theorem warnings_append (vs ws : List Verdict) :
    warnings (vs ++ ws) = warnings vs ++ warnings ws :=
  filterMap_append

/-- The entry that a namespace-level type was declared by. -/
def DeclaredType.entry (t : DeclaredType) : UnitEntry :=
  ⟨⟨t.file, t.project, t.space, t.levels⟩, t.decl⟩

/-- The warning that an entry is left out because of a type of the same name. -/
def UnitEntry.duplicate (e : UnitEntry) (first : DeclaredType) : Diagnostic :=
  Diagnostic.atSpan
    { severity := .warning,
      message := "[WSP-0030] duplicate declaration of '" ++ e.name ++ "' in project '"
        ++ e.place.project ++ "' ignored; first declared in project '" ++ first.project ++ "'",
      unit := some e.name, file := some e.place.file } (some e.decl.span)

/-- Two entries of one name may stand side by side: they differ in the number of their type
parameters, or are parts of one type of a project. -/
def UnitEntry.Joins (e e' : UnitEntry) : Prop :=
  e.decl.typeParams.length ≠ e'.decl.typeParams.length
    ∨ e.decl.modifiers.contains "partial" = true ∧ e'.decl.modifiers.contains "partial" = true
      ∧ e.place.project = e'.place.project

/-- A type has the name of an entry, and the entry may not stand beside it. -/
def UnitEntry.Clashes (e : UnitEntry) (first : DeclaredType) : Prop :=
  first.qualifiedName = e.name ∧ ¬first.entry.Joins e

namespace Declarations

theorem compatible_iff {t t' : DeclaredType} :
    compatible t t' = true ↔ t.entry.Joins t'.entry := by
  simp only [compatible, Bool.or_eq_true, Bool.and_eq_true, decide_eq_true_eq, and_assoc]
  rfl

/-- Declarations are those of the listed ones among some entries, and warn of the others. -/
structure Accounts (ds : Declarations) (vs : List Verdict) : Prop where
  /-- The types are the listed entries and what is nested in them. -/
  types_eq : ds.types.map (fun t => (t.decl, t.outermost.entry))
    = (listed vs).flatMap fun e => e.decl.family.map (·, e)
  tops_eq : (ds.types.filter (·.isTopLevel)).map (·.entry) = listed vs
  duplicates_eq : ds.duplicates = warnings vs
  clashes : ∀ v ∈ vs, ∀ d ∈ v.warning,
    ∃ first ∈ ds.types, v.entry.Clashes first ∧ d = v.entry.duplicate first
  joins : (ds.types.filter (·.isTopLevel)).Pairwise fun t t' =>
    t.qualifiedName = t'.qualifiedName → t.entry.Joins t'.entry

-- ===== steps

/-- Types are added one after another behind those that are there. They stand at a place, inside the
types around them. -/
structure Appends (ds ds' : Declarations) (p : Place) (outer : List DeclaredType)
    (decls : List TypeDecl) (block : List DeclaredType) : Prop where
  eq : ds' = { ds with types := ds.types ++ block }
  decls_eq : block.map (·.decl) = decls
  outer_suffix : ∀ t ∈ block, outer <:+ t.outer
  places : ∀ t ∈ block, t.entry.place = p ∧ ∀ o ∈ t.outer, o ∈ outer ∨ o.entry.place = p

theorem exists_appends_addTypes {p : Place} {outer : List DeclaredType} {more : List TypeDecl}
    (hmore : ∀ d ∈ more, ∀ ds : Declarations,
      ∃ block, ds.Appends (ds.addType p outer d) p outer d.family block)
    (ds : Declarations) :
    ∃ block, ds.Appends (ds.addTypes p outer more) p outer (TypeDecl.families more) block := by
  induction more generalizing ds with
  | nil =>
    refine ⟨[], ?_, rfl, nofun, nofun⟩
    rw [append_nil]
    rfl
  | cons d more ih =>
    obtain ⟨block, hblock⟩ := hmore d mem_cons_self ds
    obtain ⟨rest, hrest⟩ := ih (fun e he => hmore e (mem_cons_of_mem _ he)) (ds.addType p outer d)
    refine ⟨block ++ rest, ?_, ?_, forall_mem_append.2 ⟨hblock.outer_suffix, hrest.outer_suffix⟩,
      forall_mem_append.2 ⟨hblock.places, hrest.places⟩⟩
    · refine hrest.eq.trans ?_
      rw [hblock.eq, ← append_assoc]
    · rw [map_append, hblock.decls_eq, hrest.decls_eq]
      rfl

/-- A type is added, and behind it those nested in it. -/
theorem exists_appends_nested (p : Place) (d : TypeDecl) :
    ∀ (outer : List DeclaredType) (ds : Declarations), ∃ block,
      Appends { ds with types := ds.types ++ [p.declare outer ds.types.length d] }
        (ds.addType p outer d) p (p.declare outer ds.types.length d :: outer)
        (TypeDecl.families d.nested) block := by
  induction d using TypeDecl.inductionNested with
  | step d ih =>
    intro outer ds
    rw [addType_eq]
    generalize p.declare outer ds.types.length d :: outer = around
    refine exists_appends_addTypes (fun e he ds' => ?_) _
    obtain ⟨block, hblock⟩ := ih e he around ds'
    refine ⟨p.declare around ds'.types.length e :: block, ?_, ?_, ?_, ?_⟩
    · rw [hblock.eq]
      exact congrArg (fun types => { ds' with types }) (append_assoc _ [_] _)
    · rw [map_cons, hblock.decls_eq, TypeDecl.family_eq]
      rfl
    · exact forall_mem_cons.2 ⟨suffix_rfl,
        fun t ht => (suffix_cons _ _).trans (hblock.outer_suffix t ht)⟩
    · refine forall_mem_cons.2 ⟨⟨rfl, fun o ho => .inl ho⟩, fun t ht => ?_⟩
      refine (hblock.places t ht).imp_right fun houter o ho => ?_
      rcases houter o ho with ho | hplace
      · rcases mem_cons.1 ho with rfl | ho
        · exact .inr rfl
        · exact .inl ho
      · exact .inr hplace

/-- A type that stands in a namespace adds types at its place, or a warning. -/
theorem exists_addUnit_eq (ds : Declarations) (p : Place) (d : TypeDecl) : ∃ block warnings,
    ds.addUnit p d
        = { ds with types := ds.types ++ block, duplicates := ds.duplicates ++ warnings }
      ∧ ∀ t ∈ block, ∀ o ∈ t.chain, o.entry.place = p := by
  unfold addUnit
  simp only
  split
  next first _ =>
    refine ⟨[], [duplicateWarning (p.declare [] ds.types.length d) first], ?_, nofun⟩
    rw [append_nil]
  next =>
    obtain ⟨block, hblock⟩ := exists_appends_nested p d [] ds
    refine ⟨p.declare [] ds.types.length d :: block, [], ?_, ?_⟩
    · rw [append_nil, hblock.eq]
      exact congrArg (fun types => { ds with types }) (append_assoc _ [_] _)
    · refine forall_mem_cons.2 ⟨forall_mem_singleton.2 rfl, fun t ht => forall_mem_cons.2 ?_⟩
      refine (hblock.places t ht).imp_right fun houter o ho => ?_
      exact (houter o ho).elim (fun ho => mem_singleton.1 ho ▸ rfl) id

theorem conflict?_eq_some {ds : Declarations} {t first : DeclaredType}
    (h : ds.conflict? t = some first) :
    first ∈ ds.types ∧ first.qualifiedName = t.qualifiedName ∧ ¬first.entry.Joins t.entry := by
  unfold conflict? at h
  split at h
  · obtain ⟨hmem, hname⟩ := mem_filter.1 (mem_of_find?_eq_some h)
    refine ⟨hmem, of_decide_eq_true hname, fun hjoins => ?_⟩
    have hclash := find?_some h
    rw [compatible_iff.2 hjoins] at hclash
    cases hclash
  · cases h

/-- A type without a conflict may stand beside the namespace-level types of its name. -/
theorem joins_of_conflict?_eq_none {ds : Declarations} {t t' : DeclaredType}
    (h : ds.conflict? t = none) (ht' : t' ∈ ds.types) (htop : t'.isTopLevel = true)
    (hname : t'.qualifiedName = t.qualifiedName) : t'.entry.Joins t.entry := by
  have hmem : t' ∈ ds.named t.qualifiedName := mem_filter.2 ⟨ht', decide_eq_true hname⟩
  have hunit : ds.hasUnit t.qualifiedName = true := any_eq_true.2 ⟨t', hmem, htop⟩
  rw [conflict?, if_pos hunit, find?_eq_none] at h
  exact compatible_iff.1 (by simpa using h t' hmem)

/-- The type around a block of types is the outermost one around each of them. -/
theorem Appends.outermost_eq {ds ds' : Declarations} {p : Place} {top : DeclaredType}
    {decls : List TypeDecl} {block : List DeclaredType} (h : ds.Appends ds' p [top] decls block)
    {t : DeclaredType} (ht : t ∈ block) : t.outermost = top ∧ t.isTopLevel = false := by
  obtain ⟨inner, hinner⟩ := h.outer_suffix t ht
  rw [DeclaredType.outermost, DeclaredType.isTopLevel, ← hinner]
  simp

/-- One more entry brings one more verdict. -/
theorem Accounts.addUnit {ds : Declarations} {vs : List Verdict} (h : ds.Accounts vs) (p : Place)
    (d : TypeDecl) : ∃ warning, (ds.addUnit p d).Accounts (vs ++ [⟨⟨p, d⟩, warning⟩]) := by
  unfold Declarations.addUnit
  simp only
  cases hconflict : ds.conflict? (p.declare [] ds.types.length d) with
  | some first =>
    obtain ⟨hfirst, hclash⟩ := conflict?_eq_some hconflict
    refine ⟨some (duplicateWarning (p.declare [] ds.types.length d) first), ?_, ?_, ?_, ?_, ?_⟩
    · rw [listed_append]
      exact h.types_eq.trans (by simp [listed])
    · rw [listed_append]
      exact h.tops_eq.trans (by simp [listed])
    · rw [warnings_append, ← h.duplicates_eq]
      rfl
    · intro v hv warning hwarning
      rcases mem_append.1 hv with hv | hv
      · exact h.clashes v hv warning hwarning
      · cases mem_singleton.1 hv
        cases Option.mem_some.1 hwarning
        exact ⟨first, hfirst, hclash, rfl⟩
    · exact h.joins
  | none =>
    obtain ⟨block, hblock⟩ := exists_appends_nested p d [] ds
    generalize htop : p.declare [] ds.types.length d = top at hblock hconflict
    have hsites : block.map (fun t => (t.decl, t.outermost.entry))
        = (TypeDecl.families d.nested).map (·, ⟨p, d⟩) := by
      rw [← hblock.decls_eq, map_map]
      refine map_congr_left fun t ht => ?_
      rw [(hblock.outermost_eq ht).1, ← htop]
      rfl
    have hnested : block.filter (·.isTopLevel) = [] :=
      filter_eq_nil_iff.2 fun t ht => by simp [(hblock.outermost_eq ht).2]
    refine ⟨none, ?_, ?_, ?_, ?_, ?_⟩
    · rw [hblock.eq, listed_append, map_append, map_append, hsites, h.types_eq,
        ← htop]
      simp only [listed, TypeDecl.family_eq, map_cons, map_nil, filter_cons,
        filter_nil, Option.isNone_none, if_pos, flatMap_append, flatMap_cons,
        flatMap_nil, append_nil, append_assoc]
      rfl
    · rw [hblock.eq, listed_append, filter_append, filter_append, hnested,
        append_nil, map_append, h.tops_eq, ← htop]
      rfl
    · rw [warnings_append, hblock.eq, h.duplicates_eq]
      exact (append_nil _).symm
    · intro v hv warning hwarning
      rcases mem_append.1 hv with hv | hv
      · obtain ⟨first, hfirst, hrest⟩ := h.clashes v hv warning hwarning
        rw [hblock.eq, append_assoc]
        exact ⟨first, mem_append_left _ hfirst, hrest⟩
      · cases mem_singleton.1 hv
        cases hwarning
    · rw [hblock.eq, filter_append, filter_append, hnested, append_nil]
      refine pairwise_append.2 ⟨h.joins, ?_, ?_⟩
      · exact (pairwise_singleton _ _).filter _
      · intro t ht t' ht' hname
        obtain ⟨hmem, htopLevel⟩ := mem_filter.1 ht
        cases mem_singleton.1 (mem_filter.1 ht').1
        exact joins_of_conflict?_eq_none hconflict hmem htopLevel hname

-- ===== runs

/-- From some declarations to others there is a verdict on each of some entries. -/
def Enters (ds : Declarations) (es : List UnitEntry) (ds' : Declarations) : Prop :=
  ∀ vs, ds.Accounts vs → ∃ ws : List Verdict, ws.map (·.entry) = es ∧ ds'.Accounts (vs ++ ws)

theorem Enters.trans {ds ds' ds'' : Declarations} {es fs : List UnitEntry} (h : ds.Enters es ds')
    (h' : ds'.Enters fs ds'') : ds.Enters (es ++ fs) ds'' := by
  intro vs hvs
  obtain ⟨ws, rfl, hws⟩ := h vs hvs
  obtain ⟨ws', rfl, hws'⟩ := h' _ hws
  exact ⟨ws ++ ws', map_append, append_assoc vs ws ws' ▸ hws'⟩

/-- Namespaces and directives are no entries. -/
theorem Enters.nil {ds ds' : Declarations} (htypes : ds'.types = ds.types)
    (hduplicates : ds'.duplicates = ds.duplicates) : ds.Enters [] ds' := by
  intro vs hvs
  refine ⟨[], rfl, ?_, ?_, ?_, ?_, ?_⟩
  · rw [htypes, append_nil]
    exact hvs.types_eq
  · rw [htypes, append_nil]
    exact hvs.tops_eq
  · rw [hduplicates, append_nil]
    exact hvs.duplicates_eq
  · rw [htypes, append_nil]
    exact hvs.clashes
  · rw [htypes]
    exact hvs.joins

end Declarations

/-- There is a verdict on each entry of a workspace. -/
theorem Workspace.exists_accounts (w : Workspace) :
    ∃ vs : List Verdict, vs.map (·.entry) = w.entries ∧ w.declarations.Accounts vs := by
  have hrun : Declarations.Enters {} w.entries w.declarations := by
    refine Declarations.Composes.declarations_of_steps ⟨fun _ => .nil rfl rfl, .trans⟩
      (fun {p} _ ds d vs hvs => ?_) (fun _ _ => .nil rfl rfl) fun _ _ => .nil rfl rfl
    obtain ⟨warning, hwarning⟩ := hvs.addUnit p d
    exact ⟨_, rfl, hwarning⟩
  exact hrun [] ⟨rfl, rfl, rfl, (fun _ hv => nomatch hv), .nil⟩

-- ===== units

namespace Declarations

variable {ds : Declarations} {vs : List Verdict}

theorem name_entry (hplaced : WellPlaced ds.types) {t : DeclaredType} (ht : t ∈ ds.types)
    (htop : t.isTopLevel = true) : t.entry.name = t.qualifiedName :=
  ((hplaced t ht).name_eq (isEmpty_iff.1 htop)).symm

/-- The units are the names of the listed entries, in order. -/
theorem Accounts.units_map_qualifiedName (h : ds.Accounts vs) (hplaced : WellPlaced ds.types) :
    ds.units.map (·.qualifiedName) = Text.distinct ((listed vs).map (·.name)) := by
  rw [Declarations.units_map_qualifiedName hplaced, unitHeads, Text.map_distinctBy, ← h.tops_eq,
    map_map]
  refine congrArg Text.distinct (map_congr_left fun t ht => ?_)
  obtain ⟨hmem, htop⟩ := mem_filter.1 ht
  exact (name_entry hplaced hmem htop).symm

/-- The parts of a unit are the listed entries of its name, in order. -/
theorem Accounts.parts_eq (h : ds.Accounts vs) (hplaced : WellPlaced ds.types) {u : TypeUnit}
    (hu : u ∈ ds.units) :
    u.parts = ((listed vs).filter (·.name = u.qualifiedName)).map (·.part) := by
  obtain ⟨i, hi⟩ := getElem?_of_mem hu
  rw [units_getElem?] at hi
  obtain ⟨head, hhead, rfl⟩ := Option.map_eq_some_iff.1 hi
  obtain ⟨hmem, htop⟩ := mem_of_mem_unitHeads (mem_of_getElem? hhead)
  rw [unitOf_qualifiedName hplaced hmem htop, ← h.tops_eq, filter_map, map_map]
  refine congrArg _ (filter_congr fun t ht => ?_)
  obtain ⟨hmem, htop⟩ := mem_filter.1 ht
  rw [Function.comp_apply, name_entry hplaced hmem htop]

/-- Listed entries of one name may stand side by side. -/
theorem Accounts.pairwise_joins (h : ds.Accounts vs) (hplaced : WellPlaced ds.types) :
    (listed vs).Pairwise fun e e' => e.name = e'.name → e.Joins e' := by
  rw [← h.tops_eq, pairwise_map]
  refine h.joins.imp_of_mem fun ht ht' hjoins hname => hjoins ?_
  obtain ⟨hmem, htop⟩ := mem_filter.1 ht
  obtain ⟨hmem', htop'⟩ := mem_filter.1 ht'
  rw [← name_entry hplaced hmem htop, hname, name_entry hplaced hmem' htop']

theorem order_of_getElem? {i : Nat} {u : TypeUnit} (hu : ds.units[i]? = some u) : u.order = i := by
  rw [units_getElem?] at hu
  obtain ⟨head, -, rfl⟩ := Option.map_eq_some_iff.1 hu
  rfl

theorem pairwise_order (ds : Declarations) :
    ds.units.Pairwise fun u v => u.order < v.order := by
  rw [pairwise_iff_getElem]
  intro i j hi hj hij
  rw [order_of_getElem? (getElem?_eq_getElem hi),
    order_of_getElem? (getElem?_eq_getElem hj)]
  exact hij

/-- The unit of a listed entry is the one of its namespace and name. -/
theorem Accounts.existsUnique_unit (h : ds.Accounts vs) (hplaced : WellPlaced ds.types)
    {e : UnitEntry} (he : e ∈ listed vs) :
    ∃! u, u ∈ ds.units ∧ u.space = e.place.space ∧ u.name = e.decl.name := by
  have hname : e.name ∈ ds.units.map (·.qualifiedName) := by
    rw [h.units_map_qualifiedName hplaced, Text.mem_distinct_iff]
    exact mem_map_of_mem he
  obtain ⟨u, hu, hname⟩ := mem_map.1 hname
  obtain ⟨hspace, hlast⟩ := Text.dotted_inj u.dotless e.decl.dotless hname
  refine ⟨u, ⟨hu, hspace, hlast⟩, ?_⟩
  rintro v ⟨hv, hvspace, hvlast⟩
  have hsame : v.qualifiedName = u.qualifiedName := by
    rw [TypeUnit.qualifiedName, TypeUnit.qualifiedName, hvspace, hvlast, hspace, hlast]
  exact inj_on_of_nodup_map (nodup_units_qualifiedName hplaced) hv hu hsame

end Declarations

-- ===== index

namespace Workspace

theorem reportAll_diagnostics (w : Workspace) (ds : List Diagnostic) :
    (Id.run (w.reportAll ds)).diagnostics = w.diagnostics ++ ds := by
  induction ds generalizing w with
  | nil => exact (append_nil _).symm
  | cons d ds ih =>
    refine (ih _).trans ?_
    exact append_assoc w.diagnostics [d] ds

/-- An open workspace accounts for the entries of the workspace by a verdict on each. -/
structure Accounted (w : Workspace) (opened : OpenWorkspace) (vs : List Verdict) : Prop where
  entries_eq : vs.map (·.entry) = w.entries
  /-- There is a warning for each entry that is not listed, and no other. -/
  diagnostics_eq : opened.workspace.diagnostics = w.diagnostics ++ warnings vs
  clashes : ∀ v ∈ vs, ∀ d ∈ v.warning, ∃ first ∈ opened.index.types,
    v.entry.Clashes first ∧ d = v.entry.duplicate first
  joins : (listed vs).Pairwise fun e e' => e.name = e'.name → e.Joins e'
  /-- The types are the listed entries and what is nested in them. -/
  types_eq : opened.index.types.map (fun t => (t.decl, t.outermost.entry))
    = (listed vs).flatMap fun e => e.decl.family.map (·, e)
  /-- A type belongs to the unit of the entry around it. -/
  declaringUnit : ∀ t ∈ opened.index.types, ∀ s : Symbol, s.container = some t.number →
    ∃ u ∈ opened.index.units, opened.index.declaringUnit s = some u
      ∧ u.qualifiedName = t.outermost.entry.name
  unit : ∀ e ∈ listed vs, ∃! u, u ∈ opened.index.units
    ∧ u.space = e.place.space ∧ u.name = e.decl.name
  parts_eq : ∀ u ∈ opened.index.units,
    u.parts = ((listed vs).filter (·.name = u.qualifiedName)).map (·.part)
  /-- The units stand in the order of their first entries. -/
  names_eq : opened.index.units.map (·.qualifiedName) = Text.distinct ((listed vs).map (·.name))
  order_eq : ∀ (i : Nat) (u : TypeUnit), opened.index.units[i]? = some u → u.order = i
  /-- Each unit stands in the list of its namespace and in no other, and the lists are in order. -/
  mem_unitsIn : ∀ space u, u ∈ (opened.index.service : Service (Session Id)).unitsIn space
    ↔ u ∈ opened.index.units ∧ u.space = space
  pairwise_unitsIn : ∀ space, ((opened.index.service : Service (Session Id)).unitsIn space).Pairwise
    fun u v => u.order < v.order

/-- Each entry of a workspace is listed in one unit, with all that is nested in it, or has one
warning and is not listed at all. -/
theorem exists_accounted (w : Workspace) : ∃ vs, w.Accounted (Id.run w.openIndex) vs := by
  obtain ⟨vs, hentries, h⟩ := w.exists_accounts
  have hplaced := w.declarations_wellPlaced
  refine ⟨vs, ?_⟩
  constructor
  case entries_eq => exact hentries
  case diagnostics_eq =>
    rw [← h.duplicates_eq]
    exact w.reportAll_diagnostics w.declarations.duplicates
  case clashes => exact h.clashes
  case joins => exact h.pairwise_joins hplaced
  case types_eq => exact h.types_eq
  case declaringUnit =>
    intro t ht s hs
    obtain ⟨houtermost, htop, -⟩ := hplaced.outermost_spec ht
    obtain ⟨u, hu, hname, -⟩ := Declarations.exists_unit hplaced houtermost htop
    refine ⟨u, hu, (w.index_declaringUnit_eq ht hs).trans ?_, ?_⟩
    · exact hname ▸ Index.unitNamed_qualifiedName w.index_nodup_units hu
    · exact hname.trans
        (Declarations.name_entry hplaced houtermost (isEmpty_iff.2 htop)).symm
  case unit => exact fun e he => h.existsUnique_unit hplaced he
  case parts_eq => exact fun u hu => h.parts_eq hplaced hu
  case names_eq => exact h.units_map_qualifiedName hplaced
  case order_eq => exact fun i u hu => Declarations.order_of_getElem? hu
  case mem_unitsIn =>
    intro space u
    exact (mem_filter (x := u)).trans (and_congr_right fun _ => decide_eq_true_iff)
  case pairwise_unitsIn => exact fun space => w.declarations.pairwise_order.filter _

end Workspace

end SourceBundle
