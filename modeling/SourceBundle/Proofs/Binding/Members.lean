/-
What an index knows is declared: the types around its places, the types
that its members belong to, and all that questions about the hierarchy
answer with. `Index.Sound` says so of an index, and the index of any
workspace is sound.

Questions about the hierarchy remember which part of a type was asked
about first. What they answer with is declared whatever they remember
(`Answers`).
-/
import SourceBundle.Proofs.Binding.Lookup

namespace SourceBundle

open List

-- ===== symbols

/-- A symbol lies outside the sources, is a namespace, or is held by a declared type. -/
def Symbol.Known (ds : Declarations) (s : Symbol) : Prop :=
  s.kind = .external ∨ s.kind = .space ∨ ∃ t ∈ ds.types, s.container = some t.number

/-- A member belongs to a declared type. -/
def MemberRef.Known (ds : Declarations) (r : MemberRef) : Prop :=
  r.type ∈ ds.types

section

variable {ds : Declarations}

theorem Symbol.known_external (name : String) : (Symbol.external name).Known ds :=
  .inl rfl

theorem MemberRef.Known.symbol {r : MemberRef} (hr : r.Known ds) : r.symbol.Known ds :=
  .inr (.inr ⟨r.type, hr, rfl⟩)

theorem DeclaredType.known_symbol {t : DeclaredType} (ht : t ∈ ds.types) : t.symbol.Known ds :=
  .inr (.inr ⟨t, ht, rfl⟩)

theorem DeclaredType.known_implicitConstructor {t : DeclaredType} (ht : t ∈ ds.types) :
    t.implicitConstructor.Known ds :=
  .inr (.inr ⟨t, ht, rfl⟩)

theorem known_symbols {refs : List MemberRef} (hrefs : ∀ r ∈ refs, r.Known ds) :
    ∀ s ∈ refs.map (·.symbol), s.Known ds := by
  intro s hs
  obtain ⟨r, hr, rfl⟩ := mem_map.1 hs
  exact (hrefs r hr).symbol

-- ===== members

/-- The types that are written in a member: its own, and those of its parameters and locals. -/
def MemberDecl.writtenTypes (m : MemberDecl) : List TypeRef :=
  m.type.toList ++ m.params.map (·.type) ++ m.locals.filterMap (·.type)

/-- The types that are written in a declaration, beside its bodies and the types nested in it. -/
def TypeDecl.writtenTypes (d : TypeDecl) : List TypeRef :=
  d.baseTypes ++ d.params.map (·.type) ++ d.members.flatMap (·.writtenTypes)

/-- A member belongs to a type, and what is written in it is written there. -/
structure MemberRef.WrittenIn (r : MemberRef) (t : DeclaredType) : Prop where
  type_eq : r.type = t
  subset : r.decl.writtenTypes ⊆ t.decl.writtenTypes

namespace DeclaredType

/-- The members of a type that are reached by name: those that are written, and those that stand
for the parameters of a record. -/
inductive HasNamed (t : DeclaredType) : MemberRef → Prop where
  | written {m : MemberDecl} (hm : m ∈ t.decl.members) (hkind : m.kind.isNamed = true) :
      HasNamed t ⟨t, m⟩
  | parameter {p : Param} (hrecord : t.decl.keyword.isRecord = true) (hp : p ∈ t.decl.params) :
      HasNamed t (t.recordProperty p)

variable {t : DeclaredType} {r : MemberRef}

theorem writtenIn_of_mem_membersWhere {p : MemberKind → Bool} (hr : r ∈ t.membersWhere p) :
    r.WrittenIn t := by
  obtain ⟨m, hm, rfl⟩ := mem_map.1 hr
  refine ⟨rfl, fun ref href => mem_append_right _ ?_⟩
  exact mem_flatMap.2 ⟨m, (mem_filter.1 hm).1, href⟩

theorem writtenIn_of_mem_constructors (hr : r ∈ t.constructors) : r.WrittenIn t := by
  rcases mem_append.1 hr with hr | hr
  · exact writtenIn_of_mem_membersWhere hr
  · split at hr
    · cases hr
    · cases mem_singleton.1 hr
      refine ⟨rfl, fun ref href => mem_append_left _ (mem_append_right _ ?_)⟩
      simpa [MemberDecl.writtenTypes] using href

theorem HasNamed.writtenIn (h : t.HasNamed r) : r.WrittenIn t := by
  cases h with
  | @written m hm _ =>
    exact ⟨rfl, fun ref href => mem_append_right _ (mem_flatMap.2 ⟨m, hm, href⟩)⟩
  | @parameter p _ hp =>
    refine ⟨rfl, fun ref href => mem_append_left _ (mem_append_right _ ?_)⟩
    have href : ref = p.type := by simpa [recordProperty, MemberDecl.writtenTypes] using href
    exact href ▸ mem_map_of_mem hp

theorem mem_addRecordProperties (hrecord : t.decl.keyword.isRecord = true) {ps : List Param}
    (hps : ps ⊆ t.decl.params) {refs : List MemberRef}
    (hr : r ∈ t.addRecordProperties refs ps) : r ∈ refs ∨ t.HasNamed r := by
  induction ps generalizing refs with
  | nil => exact .inl hr
  | cons p ps ih =>
    obtain ⟨hp, hps⟩ := cons_subset.1 hps
    unfold addRecordProperties at hr
    split at hr
    · exact ih hps hr
    · rcases ih hps hr with hr | hr
      · rcases mem_append.1 hr with hr | hr
        · exact .inl hr
        · rw [mem_singleton.1 hr]
          exact .inr (.parameter hrecord hp)
      · exact .inr hr

theorem mem_addNamedMembers {refs : List MemberRef} (hr : r ∈ addNamedMembers refs t) :
    r ∈ refs ∨ t.HasNamed r := by
  have happend : r ∈ refs ++ t.membersWhere MemberKind.isNamed → r ∈ refs ∨ t.HasNamed r := by
    intro hr
    rcases mem_append.1 hr with hr | hr
    · exact .inl hr
    · obtain ⟨m, hm, rfl⟩ := mem_map.1 hr
      exact .inr (.written (mem_filter.1 hm).1 (mem_filter.1 hm).2)
  unfold addNamedMembers at hr
  simp only at hr
  split at hr
  · next hrecord =>
    rcases mem_addRecordProperties hrecord (List.Subset.refl _) hr with hr | hr
    · exact happend hr
    · exact .inr hr
  · exact happend hr

end DeclaredType

/-- All members of a table belong to some types, and are written there. -/
structure MemberTable.WrittenIn (types : List DeclaredType) (ms : MemberTable) : Prop where
  named : ∀ r ∈ ms.named, ∃ t ∈ types, r.WrittenIn t
  constructors : ∀ r ∈ ms.constructors, ∃ t ∈ types, r.WrittenIn t
  indexers : ∀ r ∈ ms.indexers, ∃ t ∈ types, r.WrittenIn t

/-- All members of a table belong to declared types. -/
structure MemberTable.Known (ds : Declarations) (ms : MemberTable) : Prop where
  named : ∀ r ∈ ms.named, r.Known ds
  constructors : ∀ r ∈ ms.constructors, r.Known ds
  indexers : ∀ r ∈ ms.indexers, r.Known ds

namespace MemberTable

theorem hasNamed_of_mem_named {types : List DeclaredType} {r : MemberRef}
    (hr : r ∈ (ofTypes types).named) : ∃ t ∈ types, t.HasNamed r := by
  refine List.foldlRecOn (motive := fun refs : List MemberRef =>
    ∀ r ∈ refs, ∃ t ∈ types, t.HasNamed r) _ _ (forall_mem_nil _) (fun refs ih t ht r hr => ?_) r hr
  rcases DeclaredType.mem_addNamedMembers hr with hr | hr
  · exact ih r hr
  · exact ⟨t, ht, hr⟩

theorem writtenIn_ofTypes (types : List DeclaredType) : (ofTypes types).WrittenIn types where
  named r hr := by
    obtain ⟨t, ht, hr⟩ := hasNamed_of_mem_named hr
    exact ⟨t, ht, hr.writtenIn⟩
  constructors r hr := by
    obtain ⟨t, ht, hr⟩ := mem_flatMap.1 hr
    exact ⟨t, ht, DeclaredType.writtenIn_of_mem_constructors hr⟩
  indexers r hr := by
    obtain ⟨t, ht, hr⟩ := mem_flatMap.1 hr
    exact ⟨t, ht, DeclaredType.writtenIn_of_mem_membersWhere hr⟩

theorem known_ofTypes (ds : Declarations) : (ofTypes ds.types).Known ds := by
  have hknown : ∀ r : MemberRef, (∃ t ∈ ds.types, r.WrittenIn t) → r.Known ds := by
    rintro r ⟨t, ht, hr⟩
    rw [MemberRef.Known, hr.type_eq]
    exact ht
  have hwritten := writtenIn_ofTypes ds.types
  exact ⟨fun r hr => hknown r (hwritten.named r hr),
    fun r hr => hknown r (hwritten.constructors r hr),
    fun r hr => hknown r (hwritten.indexers r hr)⟩

variable {ms : MemberTable}

theorem Known.anywhere (h : ms.Known ds) (name : String) : ∀ r ∈ ms.anywhere name, r.Known ds :=
  fun r hr => h.named r (mem_filter.1 hr).1

theorem Known.constructorsOf (h : ms.Known ds) (owner : String) :
    ∀ r ∈ ms.constructorsOf owner, r.Known ds :=
  fun r hr => h.constructors r (mem_filter.1 hr).1

theorem Known.indexerOf (h : ms.Known ds) (owner : String) : ∀ r ∈ ms.indexerOf owner, r.Known ds :=
  fun r hr => h.indexers r (mem_of_find?_eq_some hr)

theorem Known.constructorSymbols (h : ms.Known ds) {t : DeclaredType} (ht : t ∈ ds.types) :
    ∀ s ∈ ms.constructorSymbols t, s.Known ds := by
  unfold MemberTable.constructorSymbols
  split
  · intro s hs
    rw [mem_singleton.1 hs]
    exact DeclaredType.known_implicitConstructor ht
  · exact known_symbols (h.constructorsOf _)

end MemberTable

theorem Declarations.known_memberType {r : MemberRef} (hr : r.Known ds)
    {receiver : Option BoundType} (hreceiver : ∀ t ∈ receiver, t.Known ds) :
    ∀ t ∈ ds.memberType r receiver, t.Known ds := by
  intro t ht
  unfold Declarations.memberType at ht
  split at ht
  · cases ht
    exact BoundType.known_ofSelf hr
  · cases ht
    exact BoundType.known_ofSelf hr
  · obtain ⟨ref, -, rfl⟩ := Option.map_eq_some_iff.1 ht
    exact (ds.known_boundType _ _ ref).seenThrough _ hreceiver

-- ===== places

/-- All sites of a table lie in declared types. -/
structure SiteTable.Known (ds : Declarations) (st : SiteTable) : Prop where
  sites : ∀ (node : Nat) (site : Site), st.sites[node]? = some site → site.type ∈ ds.types
  targets : ∀ (node : Nat) (target : TypeRef × Site), st.targets[node]? = some target →
    target.2.type ∈ ds.types

theorem forall_getElem?_insert {α : Type} {P : α → Prop} {table : Std.TreeMap Nat α}
    (htable : ∀ (n : Nat) a, table[n]? = some a → P a) {k : Nat} {v : α} (hv : P v) :
    ∀ (n : Nat) a, (table.insert k v)[n]? = some a → P a := by
  intro n a ha
  rw [Std.TreeMap.getElem?_insert] at ha
  split at ha
  · cases ha
    exact hv
  · exact htable n a ha

namespace SiteTable

variable {st : SiteTable} {site : Site}

theorem Known.addVisit (h : st.Known ds) (hsite : site.type ∈ ds.types) (declarators : List Nat)
    (v : Visit) : (st.addVisit site declarators v).Known ds where
  sites := forall_getElem?_insert (P := fun s : Site => s.type ∈ ds.types) h.sites hsite
  targets := h.targets

theorem Known.addExprs (h : st.Known ds) (hsite : site.type ∈ ds.types) (declarators : List Nat)
    (roots : List Expr) : (st.addExprs site declarators roots).Known ds :=
  List.foldlRecOn _ _ h fun _ hst v _ => hst.addVisit hsite declarators v

theorem Known.addTarget (h : st.Known ds) (hsite : site.type ∈ ds.types) (type : TypeRef)
    (e : Expr) : (st.addTarget site type e).Known ds := by
  unfold SiteTable.addTarget
  split
  · exact ⟨h.sites, forall_getElem?_insert
      (P := fun target : TypeRef × Site => target.2.type ∈ ds.types) h.targets hsite⟩
  · exact h

theorem Known.addTargets (h : st.Known ds) (hsite : site.type ∈ ds.types) (m : MemberDecl) :
    (st.addTargets site m).Known ds := by
  unfold SiteTable.addTargets
  refine List.foldlRecOn _ _ ?_ fun st hst l _ => ?_
  · split
    · split
      · exact List.foldlRecOn _ _ h fun _ hst e _ => hst.addTarget hsite _ e
      · exact h
    · exact h
  · split
    · exact hst.addTarget hsite _ _
    · exact hst

theorem Known.addMember (h : st.Known ds) {t : DeclaredType} (ht : t ∈ ds.types) (m : MemberDecl) :
    (st.addMember t m).Known ds :=
  (h.addExprs ht _ _).addTargets ht m

theorem Known.addType (h : st.Known ds) {t : DeclaredType} (ht : t ∈ ds.types) :
    (st.addType t).Known ds :=
  List.foldlRecOn _ _ (h.addExprs ht [] _)
    fun _ hst m _ => hst.addMember ht m

theorem known_ofTypes (ds : Declarations) : (ofTypes ds.types).Known ds := by
  refine List.foldlRecOn _ _ ⟨fun node site hsite => ?_, fun node target htarget => ?_⟩
    fun _ hst t ht => hst.addType ht
  · simp at hsite
  · simp at htarget

end SiteTable

-- ===== hierarchy

namespace Declarations

theorem mem_of_mem_basesOf {name : String} {t : DeclaredType} (ht : t ∈ ds.basesOf name) :
    t ∈ ds.types := by
  obtain ⟨hbase, -⟩ := mem_filter.1 (Text.mem_of_mem_distinctBy ht)
  obtain ⟨b, hb, hsource⟩ := mem_filterMap.1 hbase
  split at hsource
  · cases hsource
  · exact (known_writtenBases hb).source t hsource

end Declarations

/-- All that a question about the hierarchy can answer with. -/
def Answers {α : Type} (P : α → Prop) (x : StateM BaseMemo α) : Prop :=
  ∀ memo, P (x memo).1

namespace Answers

variable {α β : Type} {P : α → Prop} {Q : β → Prop}

theorem of_pure {a : α} (ha : P a) : Answers P (pure a) :=
  fun _ => ha

theorem bind {x : StateM BaseMemo α} {f : α → StateM BaseMemo β} (hx : Answers P x)
    (hf : ∀ a, P a → Answers Q (f a)) : Answers Q (x >>= f) :=
  fun memo => hf _ (hx memo) _

theorem mono {R : α → Prop} {x : StateM BaseMemo α} (hx : Answers P x) (hR : ∀ a, P a → R a) :
    Answers R x :=
  fun memo => hR _ (hx memo)

/-- Where nothing is asked of the first answer. -/
theorem after (x : StateM BaseMemo α) {f : α → StateM BaseMemo β} (hf : ∀ a, Answers Q (f a)) :
    Answers Q (x >>= f) :=
  fun _ => hf _ _

end Answers

theorem Declarations.answers_baseClass (t : DeclaredType) :
    Answers (fun o => ∀ b ∈ o, b ∈ ds.types) (ds.baseClass t) :=
  .after _ fun _ => .of_pure fun _ hb =>
    Declarations.mem_of_mem_basesOf (mem_of_find?_eq_some hb)

/-- The overloads that fit are some of those asked about. -/
theorem Declarations.answers_fitOverloads (skip : Nat) (args : List (Option BoundType))
    (refs : List MemberRef) :
    Answers (fun scored => ∀ s ∈ scored, s.2 ∈ refs) (ds.fitOverloads skip args refs) := by
  induction refs with
  | nil => exact .of_pure nofun
  | cons r refs ih =>
    refine .after _ fun score => ih.bind fun more hmore => .of_pure fun s hs => ?_
    rcases mem_append.1 hs with hs | hs
    · obtain ⟨n, -, rfl⟩ := Option.map_eq_some_iff.1 (Option.mem_toList.1 hs)
      exact mem_cons_self
    · exact mem_cons_of_mem _ (hmore s hs)

theorem Declarations.mem_of_mem_heaviest {scored : List (Nat × MemberRef)} {r : MemberRef}
    (hr : r ∈ Declarations.heaviest scored) : ∃ s ∈ scored, s.2 = r := by
  obtain ⟨s, hs, rfl⟩ := mem_map.1 hr
  exact ⟨s, (mem_filter.1 hs).1, rfl⟩

-- ===== index

/-- An index knows the declarations that it is made of. -/
instance : Coe Index Declarations := ⟨Index.toDeclarations⟩

/-- What an index knows is declared. -/
structure Index.Sound (ix : Index) : Prop where
  placed : WellPlaced ix.types
  members : ix.members.Known ix
  places : ix.places.Known ix

theorem Workspace.index_sound (w : Workspace) : w.index.Sound where
  placed := w.declarations_wellPlaced
  members := MemberTable.known_ofTypes w.declarations
  places := SiteTable.known_ofTypes w.declarations

namespace Index

variable (ix : Index)

/-- The members found in types have the name. -/
theorem answers_findMembers (t : DeclaredType) (name : String) :
    Answers (fun found => ∀ r ∈ found.1, r ∈ ix.members.anywhere name) (ix.findMembers t name) := by
  have hall : ∀ types : List DeclaredType,
      Answers (fun found => ∀ r ∈ found.1, r ∈ ix.members.anywhere name)
        (ix.findMembersIn name types) := by
    intro types
    induction types with
    | nil => exact .of_pure nofun
    | cons t types ih =>
      unfold Index.findMembersIn
      split
      · exact .after _ fun _ => ih.bind fun found hfound => .of_pure hfound
      · refine .of_pure fun r hr => ?_
        obtain ⟨hr, hcalled⟩ := mem_filter.1 hr
        exact mem_filter.2 ⟨hr, (Bool.and_eq_true_iff.1 hcalled).2⟩
  exact hall _

/-- The extension methods found have the name. -/
theorem answers_extensionMethods (name : String) (receiver : Option BoundType) :
    Answers (fun found => ∀ r ∈ found, r ∈ ix.members.anywhere name)
      (ix.extensionMethods name receiver) := by
  have hfor : ∀ (t : BoundType) (refs : List MemberRef),
      Answers (fun found => ∀ r ∈ found, r ∈ refs) (ix.extensionsFor t refs) := by
    intro t refs
    induction refs with
    | nil => exact .of_pure nofun
    | cons r refs ih =>
      refine .after _ fun fits => ih.bind fun more hmore => .of_pure ?_
      split
      · intro s hs
        rcases mem_cons.1 hs with rfl | hs
        · exact mem_cons_self
        · exact mem_cons_of_mem _ (hmore s hs)
      · exact fun s hs => mem_cons_of_mem _ (hmore s hs)
  have hnamed : ∀ r ∈ ix.members.extensions name, r ∈ ix.members.anywhere name :=
    fun r hr => (mem_filter.1 hr).1
  cases receiver with
  | none => exact .of_pure hnamed
  | some t => exact (hfor t _).mono fun _ hfound r hr => hnamed r (hfound r hr)

end Index

namespace Index.Sound

variable {ix : Index}

theorem known_indexedType (hix : ix.Sound) {t : BoundType} (ht : t.Known ix) :
    ∀ e ∈ ix.indexedType t, e.Known ix := by
  unfold Index.indexedType
  split
  · exact ht.element
  split
  · split
    · next r hr =>
      exact Declarations.known_memberType (hix.members.indexerOf _ r hr) (forall_mem_some ht)
    · exact Declarations.known_elementOf ht
  · split
    · next value hargs =>
      split
      · intro _ h
        cases h
        exact ht.args value (by
          rw [hargs]
          exact mem_cons_of_mem _ (mem_singleton_self _))
      · exact ht.element
    · exact ht.element

end Index.Sound

end

end SourceBundle
