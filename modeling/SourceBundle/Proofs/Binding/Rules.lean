/-
What the rules of binding and resolving uphold.

A rule asks questions, asks about the hierarchy, puts down the overload
that was chosen, or fails at the number of a tuple element; all else is
to go on from what one of these came to. So a relation between pieces of
work that has a clause for each of them (`Queries.Upheld`) relates every
rule to itself, with the one or the other questions asked.

What is asked about are always expressions with a property that leads on
to those that are asked about in turn (`Index.Closed`). With each rule
it is said what is known of its results: that they are declared, and
that members have the name that is looked for. That is known of a sound
index alone, so it is said under a condition, and a relation that does
without it has the condition that never holds.

The first relation of this kind is that work keeps what is remembered
sound. As the questions are tied together by a bound on their depth,
induction on the bound closes the circle (`queriesWithin_sound`).
-/
import SourceBundle.Proofs.Binding.Soundness
import SourceBundle.Proofs.Binding.Steady

namespace SourceBundle

open List

-- ===== asking

/-- The expressions that answering a question about an expression with a property asks about have
the property too. -/
structure Index.Closed (ix : Index) (P : Expr → Prop) : Prop where
  children : ∀ e, P e → ∀ c ∈ e.children, P c
  parents : ∀ (node : Nat) (p : Expr), ix.places.parents[node]? = some p → P p
  lambdaSources : ∀ (node : Nat) (s : Expr), ix.places.lambdaSources[node]? = some s → P s
  locals : ∀ (node : Nat) (site : Site), ix.places.sites[node]? = some site →
    ∀ symbols ∈ site.scope, ∀ l ∈ symbols, ∀ d ∈ l.decl, ∀ init ∈ d.init, P init

/-- An error is about a member `Item…` of a tuple, whose digits are not read as a number. -/
def BindError.AtElementNumber (e : BindError) : Prop :=
  ∃ (t : BoundType) (name digits : String), t.simpleName = TypeRef.tupleName
    ∧ BoundType.elementDigits? name = some digits ∧ t.tupleElement digits = .error e

theorem mem_of_closestBefore {place : Option (Nat × Nat)} {symbols : List LocalSymbol}
    {l : LocalSymbol} (h : closestBefore place symbols = some l) : l ∈ symbols := by
  unfold closestBefore at h
  split at h
  · exact mem_of_head? h
  · refine List.foldlRecOn (motive := fun best : Option LocalSymbol => ∀ l ∈ best, l ∈ symbols)
      _ _ (fun l hl => absurd hl (Option.not_mem_none l)) (fun best hbest s hs => ?_) l h
    have hs' : s ∈ symbols := (mem_filter.1 hs).1
    intro l hl
    cases hl
    cases best with
    | none => exact hs'
    | some b =>
      show b.later s ∈ symbols
      unfold LocalSymbol.later
      split
      · exact hs'
      · exact hbest b rfl

theorem Scope.exists_of_lookup {name : String} {place : Option (Nat × Nat)} {scope : Scope}
    {l : LocalSymbol} (h : Scope.lookup name place scope = some l) :
    ∃ symbols ∈ scope, l ∈ symbols := by
  induction scope with
  | nil => cases h
  | cons symbols scope ih =>
    rw [Scope.lookup] at h
    split at h
    · next s hs =>
      cases h
      exact ⟨symbols, mem_cons_self, (mem_filter.1 (mem_of_closestBefore hs)).1⟩
    · obtain ⟨outer, houter, hl⟩ := ih h
      exact ⟨outer, mem_cons_of_mem _ houter, hl⟩

/-- Only the number of a tuple element is an error. -/
theorem atElementNumber_of_platformMember {t : BoundType} {name : String} {e : BindError}
    (h : t.platformMember name = .error e) : e.AtElementNumber := by
  have htuple : BoundType.platformMember.tupleMember t t.simpleName name = .error e →
      e.AtElementNumber := by
    intro h
    unfold BoundType.platformMember.tupleMember at h
    split at h
    · next hsimple =>
      split at h
      · next digits hdigits => exact ⟨t, name, digits, hsimple, hdigits, h⟩
      · cases h
    · cases h
  unfold BoundType.platformMember at h
  simp only at h
  split at h
  · cases h
  split at h
  · cases h
  split at h
  · cases h
  split at h
  · split at h
    · cases h
    split at h
    · cases h
    split at h
    · cases h
    split at h
    · cases h
    · exact htuple h
  · exact htuple h

-- ===== clauses

/-- A relation between pieces of work, with a property of their results, is upheld by all that rules
do, if `S` then with the knowledge that it is about what is declared. -/
structure Queries.Upheld (ix : Index) (P : Expr → Prop) (S : Prop)
    (L : ∀ {α : Type}, (α → Prop) → BindM α → BindM α → Prop) (q q₀ : Queries) : Prop where
  closed : ix.Closed P
  index : S → ix.Sound
  pure : ∀ {α : Type} {Q : α → Prop} {a : α}, (S → Q a) → L Q (pure a) (pure a)
  fault : ∀ {α : Type} {Q : α → Prop} (e : BindError), e.AtElementNumber →
    L Q (throw e : BindM α) (throw e)
  /-- Work goes on from results. -/
  goOn : ∀ {α β : Type} {Q : α → Prop} {R : β → Prop} {x y : BindM α} {f g : α → BindM β},
    L Q x y → (∀ a, (S → Q a) → L R (f a) (g a)) → L R (x >>= f) (y >>= g)
  /-- A question about the hierarchy is asked. -/
  bases : ∀ {α : Type} {Q : α → Prop} {z : StateM BaseMemo α}, Answers Q z →
    (S → ix.Uniform → Steady ix z) → L Q (BindM.ofBases z) (BindM.ofBases z)
  bind : ∀ e, P e → L (·.Known ix) (q.bind e) (q₀.bind e)
  resolve : ∀ e, P e → L (fun r => ∀ answer ∈ r, answer.Known ix) (q.resolve e) (q₀.resolve e)
  choice : ∀ e, P e → L (fun c => ∀ choice ∈ c, choice.Known ix) (q.choice e) (q₀.choice e)

namespace Queries.Upheld

open BindM Index.Sound

variable {ix : Index} {P : Expr → Prop} {S : Prop}
  {L : ∀ {α : Type}, (α → Prop) → BindM α → BindM α → Prop} {q q₀ : Queries}
  (h : Upheld ix P S L q q₀)
include h

theorem mono {α : Type} {Q R : α → Prop} {x y : BindM α} (hx : L Q x y)
    (hQ : S → ∀ a, Q a → R a) : L R x y := by
  have hmap := h.goOn (R := R) hx fun a ha => h.pure fun hs => hQ hs a (ha hs)
  rwa [bind_pure, bind_pure] at hmap

theorem typeOf {e : Expr} (he : P e) :
    L (fun t => ∀ b ∈ t, b.Known ix) (q.typeOf e) (q₀.typeOf e) :=
  h.goOn (h.bind e he) fun _ hb => h.pure fun hs => (hb hs).valueType

theorem typesOf {es : List Expr} (hes : ∀ e ∈ es, P e) :
    L (fun ts => ∀ t ∈ ts, ∀ b ∈ t, b.Known ix) (q.typesOf es) (q₀.typesOf es) := by
  induction es with
  | nil => exact h.pure fun _ => forall_mem_nil _
  | cons e es ih =>
    obtain ⟨he, hes⟩ := forall_mem_cons.1 hes
    exact h.goOn (h.typeOf he) fun _ ht => h.goOn (ih hes) fun _ hts =>
      h.pure fun hs => forall_mem_cons.2 ⟨ht hs, hts hs⟩

-- ===== members

theorem bindPlatformMember {t : Option BoundType} (ht : S → ∀ b ∈ t, b.Known ix)
    (name display : String) :
    L (·.FoundAs ix name) (ix.bindPlatformMember t name display)
      (ix.bindPlatformMember t name display) := by
  refine h.goOn (h.bases (ix.answers_extensionMethods name t) fun hs hu =>
    Index.steady_extensionMethods hu name (ht hs)) fun refs hrefs => ?_
  split
  · split
    · exact h.pure fun _ => foundAs_foreign _
    · next t =>
      have hmember : L (fun r => ∀ b ∈ r, b.Known ix)
          (Index.bindPlatformMember.liftExcept (t.platformMember name))
          (Index.bindPlatformMember.liftExcept (t.platformMember name)) := by
        cases hmember : t.platformMember name with
        | error e => exact h.fault e (atElementNumber_of_platformMember hmember)
        | ok r => exact h.pure fun hs => (ht hs t rfl).platformMember hmember
      exact h.goOn hmember fun r hr => h.pure fun hs => ⟨hr hs, trivial⟩
  · exact h.pure fun hs => (h.index hs).foundAs_methods (hrefs hs) (ht hs) _ _

theorem bindSourceMember {t : BoundType} (ht : S → t.Known ix) {s : DeclaredType}
    (hmem : S → s ∈ ix.types) (name display : String) :
    L (·.FoundAs ix name) (ix.bindSourceMember t s name display)
      (ix.bindSourceMember t s name display) := by
  have hself := fun hs => forall_mem_some (ht hs)
  refine h.goOn (h.bases (ix.answers_findMembers s name) fun hs hu =>
    Index.steady_findMembers hu (hmem hs) name) fun found hfound => ?_
  simp only
  split
  · exact h.pure fun hs =>
      ((h.index hs).foundAs_membersBinding (hfound hs) (hself hs)).withName display
  · refine h.goOn (h.bases (ix.answers_extensionMethods name (some t)) fun hs hu =>
      Index.steady_extensionMethods hu name (hself hs)) fun refs hrefs => ?_
    split
    · split
      · exact h.pure fun _ => foundAs_foreign _
      · exact h.pure fun _ => ⟨trivial, trivial⟩
    · exact h.pure fun hs => (h.index hs).foundAs_methods (hrefs hs) (hself hs) _ _

theorem bindValueMember {type : Option BoundType} (htype : S → ∀ t ∈ type, t.Known ix)
    (name display : String) :
    L (·.FoundAs ix name) (ix.bindValueMember type name display)
      (ix.bindValueMember type name display) := by
  cases type with
  | none => exact h.pure fun hs => (h.index hs).foundAs_bindUnknownMember display
  | some t =>
    have ht := fun hs => htype hs t rfl
    simp only [Index.bindValueMember]
    split
    · exact h.pure fun hs => (h.index hs).foundAs_bindUnknownMember display
    split
    · split
      · exact h.pure fun hs => foundAs_value (forall_mem_some ((ht hs).withRank _))
      · exact h.pure fun _ => foundAs_foreign _
    split
    · exact h.bindPlatformMember htype name display
    · next s hsource =>
      split
      · exact h.bindPlatformMember htype name display
      · exact h.bindSourceMember ht (fun hs => (ht hs).source s hsource) name display

/-- A member access is bound to something declared if what it is accessed on is. -/
theorem bindMember (site : Site) {left : Binding} (hleft : S → left.Known ix)
    (name : String) (typeArgs : List TypeRef) :
    L (·.FoundAs ix name) (ix.bindMember site left name typeArgs)
      (ix.bindMember site left name typeArgs) := by
  cases left with
  | space space shown =>
    simp only [Index.bindMember]
    split
    · next t ht => exact h.pure fun _ =>
        foundAs_typeBinding site (Declarations.mem_of_typeNamed _ _ _ t ht) typeArgs
    · split
      · exact h.pure fun _ => ⟨trivial, trivial⟩
      · exact h.pure fun _ => foundAs_foreign _
  | type t shown =>
    simp only [Index.bindMember]
    split
    · exact h.pure fun _ => foundAs_foreign _
    · next s hsource =>
      split
      · next u hu => exact h.pure fun _ =>
          foundAs_typeBinding site (Declarations.mem_of_typeNamed _ _ _ u hu) typeArgs
      · exact h.bindSourceMember hleft
          (fun hs => BoundType.Known.source (hleft hs) s hsource) name _
  | value type member shown => exact h.bindValueMember (fun hs => (hleft hs).1) name _
  | external type shown => exact h.bindPlatformMember hleft name _
  | ambiguous _ _ | methods _ _ _ _ =>
    exact h.pure fun hs => (h.index hs).foundAs_bindUnknownMember _
  | unresolved shown reason => exact h.pure fun _ => ⟨trivial, trivial⟩

-- ===== names

theorem localType (site : Site) {l : LocalSymbol} (hl : ∀ d ∈ l.decl, ∀ init ∈ d.init, P init) :
    L (fun t => ∀ b ∈ t, b.Known ix) (ix.localType q site l) (ix.localType q₀ site l) := by
  have helement : ∀ {t : Option BoundType}, (∀ b ∈ t, b.Known ix) →
      ∀ b ∈ t.bind ix.elementOf, b.Known ix :=
    fun ht => forall_mem_bind fun b hb => Declarations.known_elementOf (ht b hb)
  unfold Index.localType
  split
  · exact h.pure fun _ => forall_mem_some (ix.toDeclarations.known_boundType _ _ _)
  · exact h.pure fun _ => nofun
  · next d _ hdecl =>
    split
    · split
      · exact h.pure fun _ => nofun
      · next source hsource =>
        obtain ⟨declarator, -, hsource⟩ := Option.bind_eq_some_iff.1 hsource
        exact h.goOn (h.typeOf (h.closed.lambdaSources _ source hsource)) fun _ ht =>
          h.pure fun hs => helement (ht hs)
    · split
      · exact h.pure fun _ => nofun
      · next init hinit =>
        refine h.goOn (h.typeOf (hl d hdecl init hinit)) fun _ ht => h.pure fun hs => ?_
        split
        · exact helement (ht hs)
        · exact ht hs

theorem membersAround (name : String) {types : List DeclaredType}
    (htypes : S → ∀ t ∈ types, t ∈ ix.types) :
    L (fun found => ∀ p ∈ found, p.1 ∈ ix.types ∧ ∀ r ∈ p.2, r ∈ ix.members.anywhere name)
      (ix.membersAround name types) (ix.membersAround name types) := by
  induction types with
  | nil => exact h.pure fun _ => nofun
  | cons t types ih =>
    have ht := fun hs => forall_mem_cons.1 (htypes hs)
    refine h.goOn (h.bases (ix.answers_findMembers t name) fun hs hu =>
      Index.steady_findMembers hu (ht hs).1 name) fun found hfound => ?_
    simp only
    split
    · exact ih fun hs => (ht hs).2
    · exact h.pure fun hs => forall_mem_some ⟨(ht hs).1, hfound hs⟩

theorem bindOuterName (site : Site) (name : String) (typeArgs : List TypeRef) :
    L (·.FoundAs ix name) (ix.bindOuterName site name typeArgs)
      (ix.bindOuterName site name typeArgs) := by
  have hfinds := Declarations.finds_lookupSimple ix site.typeParams site.type.chain
    site.type.levels name (Index.arityOf typeArgs)
  unfold Index.bindOuterName
  simp only
  generalize ix.lookupSimple site.typeParams site.type.chain site.type.levels name
    (Index.arityOf typeArgs) = found at hfinds
  split
  · exact h.pure fun _ => ⟨BoundType.known_param name, trivial⟩
  · next t => exact h.pure fun _ => foundAs_typeBinding site (hfinds t mem_cons_self) typeArgs
  · exact h.pure fun _ => foundAs_types hfinds
  · refine h.goOn (h.membersAround name fun _ t ht => Declarations.mem_of_staticImports ht)
      fun found hfound => ?_
    split
    · exact h.pure fun hs => (h.index hs).foundAs_membersBinding (hfound hs _ rfl).2 nofun
    · split
      · exact h.pure fun _ => ⟨trivial, trivial⟩
      · exact h.pure fun _ => foundAs_bindForeignName

theorem bindNonlocal {site : Site} (hsite : S → site.type ∈ ix.types) (name : String)
    (typeArgs : List TypeRef) :
    L (·.FoundAs ix name) (ix.bindNonlocal site name typeArgs)
      (ix.bindNonlocal site name typeArgs) := by
  refine h.goOn (h.membersAround name fun hs t ht =>
    (h.index hs).placed.mem_of_mem_chain (hsite hs) ht) fun found hfound => ?_
  split
  · refine h.pure fun hs => ?_
    obtain ⟨ht, hrefs⟩ := hfound hs _ rfl
    exact (h.index hs).foundAs_membersBinding hrefs (forall_mem_some (BoundType.known_ofSelf ht))
  · exact h.bindOuterName site name typeArgs

theorem bindName {node : Nat} {site : Site} (hsite : ix.places.sites[node]? = some site)
    (mark : Mark) (name : String) (typeArgs : List TypeRef) (qualifier : Option String) :
    L (·.FoundAs ix name) (ix.bindName q site mark name typeArgs qualifier)
      (ix.bindName q₀ site mark name typeArgs qualifier) := by
  unfold Index.bindName
  split
  · exact h.pure fun _ => foundAs_bindGlobalName site typeArgs
  split
  · exact h.pure fun _ => ⟨BoundType.known_simple name, trivial⟩
  simp only
  split
  · next l hl =>
    refine h.goOn (h.localType site fun d hd init hinit => ?_) fun _ ht =>
      h.pure fun hs => foundAs_value (ht hs)
    split at hl
    · obtain ⟨symbols, hsymbols, hmem⟩ := Scope.exists_of_lookup hl
      exact h.closed.locals node site hsite symbols hsymbols l hmem d hd init hinit
    · cases hl
  · exact h.bindNonlocal (fun hs => (h.index hs).places.sites node site hsite) name typeArgs

-- ===== expressions

theorem bindCall {mark : Mark} {callee : Expr} {args : List Expr}
    (he : P (.call mark callee args)) :
    L (·.FoundAt ix (.call mark callee args)) (ix.bindCall q (.call mark callee args) callee args)
      (ix.bindCall q₀ (.call mark callee args) callee args) := by
  refine h.goOn (h.choice _ he) fun c hc => ?_
  split
  · next c =>
    refine h.pure fun hs => Binding.foundAt_ofType ?_
    exact Declarations.known_memberType (hc hs c rfl).member (hc hs c rfl).receiver
  · split
    · next target _ _ _ =>
      have hcallee := h.closed.children _ he _ mem_cons_self
      have htarget : P target := h.closed.children _ hcallee _ mem_cons_self
      refine h.goOn (h.typeOf htarget) fun receiver hreceiver => h.pure fun hs =>
        Binding.foundAt_ofType (forall_mem_bind fun element helement => ?_)
      refine BoundType.Known.collectionCall ?_ _ _
      exact forall_mem_bind (fun t ht => Declarations.known_elementOf (hreceiver hs t ht)) element
        helement
    · exact h.pure fun _ => Binding.foundAt_ofType nofun

theorem bindGroup {items : List Expr} (hitems : ∀ e ∈ items, P e) :
    L (·.Known ix) (Index.bindGroup q items) (Index.bindGroup q₀ items) := by
  unfold Index.bindGroup
  split
  · exact h.bind _ (hitems _ mem_cons_self)
  · next cast _ =>
    have hcast : P cast := h.closed.children _ (hitems _ mem_cons_self) _ mem_cons_self
    refine h.goOn (h.bind cast hcast) fun b hb => ?_
    split
    · exact h.pure fun hs => Binding.known_ofType (forall_mem_some (hb hs))
    · exact h.pure fun _ => Binding.known_unknown _
  · exact h.pure fun _ => Binding.known_unknown _

/-- An expression is bound at its place. -/
theorem bindAt {e : Expr} (he : P e) {node : Nat} {site : Site}
    (hsite : ix.places.sites[node]? = some site) :
    L (·.FoundAt ix e) (ix.bindAt q site e) (ix.bindAt q₀ site e) := by
  have hchild := h.closed.children e he
  have hwritten : ∀ (s : Site) (t : TypeRef), (s.boundType ix t).Known ix :=
    fun s t => ix.toDeclarations.known_boundType _ _ t
  have hsome : ∀ {t : BoundType}, (S → t.Known ix) →
      L (·.FoundAt ix e) (return Binding.ofType (some t)) (return .ofType (some t)) :=
    fun ht => h.pure fun hs => Binding.foundAt_ofType (forall_mem_some (ht hs))
  cases e with
  | ident mark name typeArgs qualifier =>
    exact h.mono (h.bindName hsite mark name typeArgs qualifier) fun _ _ hb => hb.foundAt rfl
  | member mark target name typeArgs conditional =>
    refine h.goOn (h.bind target (hchild _ mem_cons_self)) fun left hleft => ?_
    exact h.mono (h.bindMember site hleft name typeArgs) fun _ _ hb => hb.foundAt rfl
  | call mark callee args => exact h.bindCall he
  | creation mark type args inits =>
    cases type with
    | some t => exact hsome fun _ => hwritten site t
    | none =>
      refine h.pure fun _ => Binding.foundAt_ofType fun t ht => ?_
      obtain ⟨target, -, rfl⟩ := Option.map_eq_some_iff.1 ht
      exact hwritten _ _
  | array mark type items =>
    match type, items with
    | some _, _ => exact hsome fun _ => (hwritten site _).withRank _
    | none, [] => exact h.pure fun _ => Binding.foundAt_ofType nofun
    | none, item :: _ =>
      refine h.goOn (h.typeOf (hchild item mem_cons_self)) fun _ ht => h.pure fun hs =>
        Binding.foundAt_ofType fun b hb => ?_
      obtain ⟨t, hmem, rfl⟩ := Option.map_eq_some_iff.1 hb
      exact (ht hs t hmem).withRank _
  | element mark target args =>
    refine h.goOn (h.typeOf (hchild target mem_cons_self)) fun _ ht => h.pure fun hs => ?_
    exact Binding.foundAt_ofType
      (forall_mem_bind fun b hb => (h.index hs).known_indexedType (ht hs b hb))
  | group mark items => exact h.mono (h.bindGroup hchild) fun _ _ hb => ⟨hb, nofun⟩
  | literal mark kind text => exact h.pure fun _ => Binding.foundAt_ofType (known_literalType _ _)
  | interpolated mark holes => exact hsome fun _ => BoundType.known_simple _
  | thisRef mark =>
    exact hsome fun hs => BoundType.known_ofSelf ((h.index hs).places.sites node site hsite)
  | baseRef mark =>
    refine h.goOn (h.bases (Declarations.answers_baseClass site.type) fun hs hu =>
      hu.steady_baseClass ((h.index hs).places.sites node site hsite)) fun base hbase =>
        h.pure fun hs => Binding.foundAt_ofType fun t ht => ?_
    obtain ⟨s, hmem, rfl⟩ := Option.map_eq_some_iff.1 ht
    exact BoundType.known_ofSelf (hbase hs s hmem)

theorem bindFresh {e : Expr} (he : P e) :
    L (·.FoundAt ix e) (ix.bindFresh q e) (ix.bindFresh q₀ e) := by
  unfold Index.bindFresh
  split
  · exact h.pure fun _ => Binding.foundAt_ofType nofun
  · next site hsite => exact h.bindAt he hsite

-- ===== resolving

theorem viableOverloads (refs : List MemberRef) {args : List Expr} (hargs : ∀ e ∈ args, P e)
    (skip : Nat) :
    L (· ⊆ refs) (ix.viableOverloads q refs args skip)
      (ix.viableOverloads q₀ refs args skip) := by
  have hviable : refs.filter (fun r => Declarations.takes (r.decl.params.drop skip) args.length)
      ⊆ refs := filter_subset_self _
  unfold Index.viableOverloads
  simp only
  split
  · exact h.pure fun _ => hviable
  · refine h.goOn (h.typesOf hargs) fun types htypes => ?_
    refine h.goOn (h.bases (Declarations.answers_fitOverloads skip types _) fun hs hu =>
      hu.steady_fitOverloads skip (htypes hs) _) fun scored hscored => h.pure fun hs => ?_
    split
    · exact hviable
    · intro r hr
      obtain ⟨s, hmem, rfl⟩ := Declarations.mem_of_mem_heaviest hr
      exact hviable (hscored hs s hmem)

omit h in
/-- The relation is upheld where a choice is put down for a node. -/
def Chooses (ds : Declarations) (S : Prop)
    (L : ∀ {α : Type}, (α → Prop) → BindM α → BindM α → Prop) (node : Nat) : Prop :=
  ∀ c : Choice, (S → c.Known ds) →
    L (fun _ => True) (modify fun s => { s with choices := s.choices.insert node c } : BindM PUnit)
      (modify fun s => { s with choices := s.choices.insert node c })

section

variable {node : Nat} (hnode : Chooses ix S L node) {args : List Expr}
  (hargs : ∀ e ∈ args, P e)
include hnode hargs

theorem chooseOverload {refs : List MemberRef} (hrefs : S → ∀ r ∈ refs, r.Known ix)
    (display : String) {receiver : Option BoundType} (hreceiver : S → ∀ t ∈ receiver, t.Known ix)
    (isExtension : Bool) :
    L (·.Among refs) (ix.chooseOverload q refs node args display receiver isExtension)
      (ix.chooseOverload q₀ refs node args display receiver isExtension) := by
  refine h.goOn (h.viableOverloads refs hargs _) fun viable hviable => ?_
  split
  · exact h.pure fun _ s hs => mem_map.1 hs
  · next r =>
    have hr := fun hs => hviable hs (mem_singleton_self r)
    exact h.goOn (hnode _ fun hs => ⟨hrefs hs r (hr hs), hreceiver hs⟩) fun _ _ =>
      h.pure fun hs => ⟨r, hr hs, rfl⟩
  · refine h.pure fun hs s hmem => ?_
    obtain ⟨r, hr, rfl⟩ := mem_map.1 hmem
    exact ⟨r, hviable hs hr, rfl⟩

theorem chooseConstructor {t : DeclaredType} (ht : S → t ∈ ix.types) :
    L (·.Known ix) (ix.chooseConstructor q t node args) (ix.chooseConstructor q₀ t node args) := by
  have himplicit := fun hs => DeclaredType.known_implicitConstructor (ht hs)
  unfold Index.chooseConstructor
  simp only
  split
  · split
    · exact h.pure himplicit
    · exact h.pure fun hs => forall_mem_singleton.2 (himplicit hs)
  · have hctors := fun hs => (h.index hs).members.constructorsOf t.qualifiedName
    have hchosen := h.chooseOverload hnode hargs hctors (t.qualifiedName ++ "." ++ t.decl.name)
      (fun hs => forall_mem_some (BoundType.known_ofSelf (ht hs))) false
    exact h.mono hchosen fun hs _ ha => ha.known (hctors hs)

/-- A call refers to something declared if what is called is. -/
theorem resolveCallOf {b : Binding} (hb : S → b.Known ix) (display : String) :
    L (·.Known ix) (ix.resolveCallOf q b node args display)
      (ix.resolveCallOf q₀ b node args display) := by
  cases b with
  | methods refs receiver isExtension name =>
    have hchosen := h.chooseOverload hnode hargs (fun hs => (hb hs).1) display
      (fun hs => (hb hs).2) isExtension
    exact h.mono hchosen fun hs _ ha => ha.known (hb hs).1
  | value _ _ _ | external _ _ => exact h.pure fun _ => Symbol.known_external _
  | ambiguous candidates name => exact h.pure hb
  | unresolved _ _ | type _ _ | space _ _ => exact h.pure fun _ => trivial

end

theorem resolveCall {mark : Mark} {callee : Expr} {args : List Expr}
    (he : P (.call mark callee args)) (hnode : Chooses ix S L mark.node)
    {site : Site} (hsite : S → site.type ∈ ix.types) :
    L (·.Known ix) (ix.resolveCall q site mark.node callee args)
      (ix.resolveCall q₀ site mark.node callee args) := by
  have hcallee : P callee := h.closed.children _ he _ mem_cons_self
  have hargs : ∀ e ∈ args, P e :=
    fun e harg => h.closed.children _ he _ (mem_cons_of_mem _ harg)
  unfold Index.resolveCall
  split
  · exact h.chooseConstructor hnode hargs hsite
  · refine h.goOn (h.bases (Declarations.answers_baseClass site.type) fun hs hu =>
      hu.steady_baseClass (hsite hs)) fun base hbase => ?_
    split
    · exact h.pure fun _ => Symbol.known_external _
    · next base => exact h.chooseConstructor hnode hargs fun hs => hbase hs base rfl
  · exact h.goOn (h.bind _ hcallee) fun b hb => h.resolveCallOf hnode hargs hb _

theorem argumentTarget (node : Nat) :
    L (fun t => ∀ b ∈ t, b.Known ix) (ix.argumentTarget q node) (ix.argumentTarget q₀ node) := by
  have hnone : ∀ b ∈ (none : Option BoundType), b.Known ix := fun b hb =>
    absurd hb (Option.not_mem_none b)
  unfold Index.argumentTarget
  split
  · exact h.pure fun _ => hnone
  · next parent hparent =>
    split
    · exact h.pure fun _ => hnone
    · refine h.goOn (h.choice parent (h.closed.parents node parent hparent)) fun c _ => ?_
      split
      · exact h.pure fun _ => hnone
      · refine h.pure fun _ b hb => ?_
        obtain ⟨p, -, rfl⟩ := Option.map_eq_some_iff.1 hb
        exact ix.toDeclarations.known_boundType _ _ _

section

variable {e : Expr} (hnode : Chooses ix S L e.node) {args : List Expr}
  (hargs : ∀ e ∈ args, P e)
include hnode hargs

theorem resolveTarget {target : Option BoundType} (htarget : S → ∀ t ∈ target, t.Known ix) :
    L (·.Known ix) (ix.resolveTarget q e args target) (ix.resolveTarget q₀ e args target) := by
  unfold Index.resolveTarget
  split
  · exact h.pure fun _ => trivial
  · next t =>
    split
    · exact h.pure fun _ => Symbol.known_external _
    · next s hsource =>
      exact h.chooseConstructor hnode hargs fun hs => (htarget hs t rfl).source s hsource

theorem resolveTargetTyped (he : P e) :
    L (·.Known ix) (ix.resolveTargetTyped q e args) (ix.resolveTargetTyped q₀ e args) := by
  refine h.goOn (h.typeOf he) fun t ht => ?_
  cases t with
  | some t => exact h.goOn (h.pure ht) fun _ => h.resolveTarget hnode hargs
  | none => exact h.goOn (h.argumentTarget e.node) fun _ => h.resolveTarget hnode hargs

end

theorem resolveCreation {mark : Mark} {type : Option TypeRef} {args inits : List Expr}
    (he : P (.creation mark type args inits)) (hnode : Chooses ix S L mark.node)
    (site : Site) :
    L (·.Known ix) (ix.resolveCreation q site (.creation mark type args inits) type args)
      (ix.resolveCreation q₀ site (.creation mark type args inits) type args) := by
  have hargs : ∀ e ∈ args, P e :=
    fun e harg => h.closed.children _ he _ (mem_append_left _ harg)
  unfold Index.resolveCreation
  split
  · exact h.resolveTargetTyped (e := .creation mark none args inits) hnode hargs he
  · next ref =>
    have hcreated : ∀ t ∈ ix.createdTypes site ref, t ∈ ix.types :=
      fun t ht => mem_of_mem_createdTypes ht
    split
    · exact h.pure fun _ => Symbol.known_external _
    · next t hfound =>
      rw [hfound] at hcreated
      exact h.chooseConstructor hnode hargs fun _ => hcreated t mem_cons_self
    · refine h.pure fun hs s hmem => ?_
      obtain ⟨t, ht, hmem⟩ := mem_filterMap.1 hmem
      exact (h.index hs).members.constructorSymbols (hcreated t ht) s (mem_of_head? hmem)

theorem resolveName {e : Expr} (he : P e) :
    L (fun r => ∀ answer ∈ r, answer.Known ix) (ix.resolveName q e) (ix.resolveName q₀ e) := by
  unfold Index.resolveName
  split
  · next call hcall =>
    exact h.resolve call (h.closed.parents _ call (Option.filter_eq_some_iff.1 hcall).1)
  · exact h.goOn (h.bind e he) fun _ hb => h.pure fun hs => (hb hs).resolution

/-- What an expression refers to is declared. -/
theorem resolveFresh {e : Expr} (he : P e) (hnode : Chooses ix S L e.node) :
    L (fun r => ∀ answer ∈ r, answer.Known ix) (ix.resolveFresh q e) (ix.resolveFresh q₀ e) := by
  unfold Index.resolveFresh
  split
  · exact h.pure fun _ => nofun
  · next site hsite =>
    split
    · exact h.goOn (h.resolveCall he hnode fun hs => (h.index hs).places.sites _ site hsite)
        fun _ hr => h.pure fun hs => forall_mem_some (hr hs)
    · exact h.goOn (h.resolveCreation he hnode site) fun _ hr =>
        h.pure fun hs => forall_mem_some (hr hs)
    · exact h.resolveName he
    · exact h.resolveName he
    · exact h.pure fun _ => nofun

end Queries.Upheld

-- ===== keeping to what is declared

theorem Index.closed_true (ix : Index) : ix.Closed fun _ => True :=
  ⟨fun _ _ _ _ => trivial, fun _ _ _ => trivial, fun _ _ _ => trivial,
    fun _ _ _ _ _ _ _ _ _ _ _ => trivial⟩

namespace Index.Sound

open BindM

variable {ix : Index} {q : Queries}

theorem keeps_choice (hq : q.Sound ix) (e : Expr) :
    Keeps ix (fun c => ∀ choice ∈ c, choice.Known ix) (q.choice e) :=
  (hq.resolve e).bind fun _ _ => Holds.of_get.bind fun _ hst =>
    .of_pure fun choice hchoice => hst.choices e.node choice hchoice

theorem keeps_putDown {c : Choice} (hc : c.Known ix) (node : Nat) :
    Keeps ix (fun _ => True)
      (modify fun s => { s with choices := s.choices.insert node c } : BindM PUnit) :=
  .of_modify fun _ hst =>
    ⟨hst.bindings, hst.resolutions, forall_getElem?_insert hst.choices hc⟩

theorem upheld (hix : ix.Sound) (hq : q.Sound ix) :
    q.Upheld ix (fun _ => True) True (fun Q x _ => Keeps ix Q x) q where
  closed := ix.closed_true
  index _ := hix
  pure ha := .of_pure (ha trivial)
  fault e _ := .of_throw e
  goOn hx hf := hx.bind fun a ha => hf a fun _ => ha
  bases hz _ := .of_bases (fun hst => ⟨hst.bindings, hst.resolutions, hst.choices⟩) hz
  bind e _ := hq.bind e
  resolve e _ := hq.resolve e
  choice e _ := keeps_choice hq e

theorem keeps_bindFresh (hix : ix.Sound) (hq : q.Sound ix) (e : Expr) :
    Keeps ix (·.Known ix) (ix.bindFresh q e) :=
  ((hix.upheld hq).bindFresh trivial).mono fun _ hb => hb.known

theorem keeps_resolveFresh (hix : ix.Sound) (hq : q.Sound ix) (e : Expr) :
    Keeps ix (fun r => ∀ answer ∈ r, answer.Known ix) (ix.resolveFresh q e) :=
  (hix.upheld hq).resolveFresh trivial fun _ hc => keeps_putDown (hc trivial) _

/-- Binding keeps to what is declared if the questions that it asks do. -/
theorem keeps_bindStep (hix : ix.Sound) (hq : q.Sound ix) (e : Expr) :
    Keeps ix (·.Known ix) (ix.bindStep q e) := by
  refine Holds.guarded (hix.keeps_bindFresh hq e) (fun st hst b hb => hst.bindings _ b hb)
    (Binding.known_unknown _) (fun st hst => ?_) (fun st hst => ?_) fun st hst b hb => ⟨?_, hb⟩
  · exact ⟨hst.bindings, hst.resolutions, hst.choices⟩
  · exact ⟨hst.bindings, hst.resolutions, hst.choices⟩
  · exact ⟨forall_getElem?_insert hst.bindings hb, hst.resolutions, hst.choices⟩

/-- Resolving keeps to what is declared if the questions that it asks do. -/
theorem keeps_resolveStep (hix : ix.Sound) (hq : q.Sound ix) (e : Expr) :
    Keeps ix (fun r => ∀ answer ∈ r, answer.Known ix) (ix.resolveStep q e) := by
  have hinsert : ∀ {r : Option Resolution}, (∀ answer ∈ r, answer.Known ix) →
      ∀ st : BindState, st.Sound ix → (st.found e.node r).Sound ix :=
    fun hr st hst => ⟨hst.bindings,
      forall_getElem?_insert
        (P := fun r : Option Resolution => ∀ answer ∈ r, answer.Known ix)
        hst.resolutions hr,
      hst.choices⟩
  exact Holds.remembered (hix.keeps_resolveFresh hq e) (fun st hst r hr => hst.resolutions _ r hr)
    (hinsert nofun) fun st hst r hr => ⟨hinsert hr st hst, hr⟩

theorem queriesWithin_sound (hix : ix.Sound) (bound : Nat) :
    (ix.queriesWithin bound).Sound ix := by
  induction bound with
  | zero =>
    exact ⟨fun _ => .of_pure (Binding.known_unknown _), fun _ => .of_pure nofun⟩
  | succ bound ih => exact ⟨hix.keeps_bindStep ih, hix.keeps_resolveStep ih⟩

/-- What an expression refers to is declared. -/
theorem keeps_resolve (hix : ix.Sound) (e : Expr) :
    Keeps ix (fun r => ∀ answer ∈ r, answer.Known ix) (ix.resolve e) :=
  (hix.queriesWithin_sound _).resolve e

end Index.Sound

end SourceBundle
