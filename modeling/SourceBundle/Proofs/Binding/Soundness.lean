/-
What it is for binding to keep to what is declared: whatever an
expression is found to stand for or to refer to, the types, members and
symbols in the answer are those of declared types, and members that a
name stands for have the name.

Answers are remembered, so this is an invariant of the state: `Sound`
says it of all that is remembered, and `Keeps` of work that starts from
a sound state and leaves one behind, whether it ends well or fails. The
steps that remember answers keep an invariant that working the answers
out keeps (`Holds.guarded`, `Holds.remembered`).
-/
import SourceBundle.Proofs.Binding.Members

namespace SourceBundle

open List

-- ===== answers

/-- What an expression stands for is declared. -/
def Binding.Known (ds : Declarations) : Binding → Prop
  | value t member _ => (∀ b ∈ t, b.Known ds) ∧ ∀ r ∈ member, r.Known ds
  | type t _ => t.Known ds
  | space .. => True
  | methods members receiver _ _ => (∀ r ∈ members, r.Known ds) ∧ ∀ b ∈ receiver, b.Known ds
  | external t _ => ∀ b ∈ t, b.Known ds
  | ambiguous candidates _ => ∀ s ∈ candidates, s.Known ds
  | unresolved .. => True

/-- What a reference was found to be is declared. -/
def Resolution.Known (ds : Declarations) : Resolution → Prop
  | resolved s => s.Known ds
  | ambiguous _ candidates => ∀ s ∈ candidates, s.Known ds
  | unresolved .. => True

/-- Members that an expression stands for have a name. -/
def Binding.Cites (ix : Index) (name : String) : Binding → Prop
  | value _ member _ => ∀ r ∈ member, r ∈ ix.members.anywhere name
  | methods members .. => ∀ r ∈ members, r ∈ ix.members.anywhere name
  | ambiguous candidates _ =>
    ∀ s ∈ candidates, s.kind = .type ∨ ∃ r ∈ ix.members.anywhere name, r.symbol = s
  | _ => True

/-- What a name stands for is declared, and members that it stands for have the name. -/
structure Binding.FoundAs (ix : Index) (name : String) (b : Binding) : Prop where
  known : b.Known ix
  cites : b.Cites ix name

/-- The last name that is written of what an expression refers to. -/
def Expr.lastName? : Expr → Option String
  | .ident _ name .. => some name
  | .member _ _ name .. => some name
  | .call _ callee _ => callee.lastName?
  | _ => none

/-- What an expression stands for is declared, and keeps to the name that is written. -/
structure Binding.FoundAt (ix : Index) (e : Expr) (b : Binding) : Prop where
  known : b.Known ix
  cites : ∀ name ∈ e.lastName?, b.Cites ix name

/-- The symbols in an answer are those of some members. -/
def Resolution.Among (refs : List MemberRef) : Resolution → Prop
  | resolved s => ∃ r ∈ refs, r.symbol = s
  | ambiguous _ candidates => ∀ s ∈ candidates, ∃ r ∈ refs, r.symbol = s
  | unresolved .. => True

/-- The overload that a call was given is declared. -/
structure Choice.Known (ds : Declarations) (c : Choice) : Prop where
  member : c.member.Known ds
  receiver : ∀ t ∈ c.receiver, t.Known ds

/-- All that is remembered is declared. -/
structure BindState.Sound (ds : Declarations) (st : BindState) : Prop where
  bindings : ∀ (n : Nat) (b : Binding), st.bindings[n]? = some b → b.Known ds
  resolutions : ∀ (n : Nat) (r : Option Resolution), st.resolutions[n]? = some r →
    ∀ answer ∈ r, answer.Known ds
  choices : ∀ (n : Nat) (c : Choice), st.choices[n]? = some c → c.Known ds

theorem BindState.sound_empty (ds : Declarations) : BindState.Sound ds {} where
  bindings n b hb := by simp at hb
  resolutions n r hr := by simp at hr
  choices n c hc := by simp at hc

section

variable {ds : Declarations}

namespace Binding

theorem known_ofType {type : Option BoundType} (htype : ∀ t ∈ type, t.Known ds) :
    (ofType type).Known ds :=
  ⟨htype, nofun⟩

theorem known_unknown (ds : Declarations) : Binding.unknown.Known ds :=
  known_ofType nofun

theorem known_foreign (name : String) : (Binding.external none name).Known ds :=
  nofun

theorem Known.valueType {b : Binding} (hb : b.Known ds) : ∀ t ∈ b.valueType, t.Known ds := by
  cases b with
  | value type member name => exact hb.1
  | external type name => exact hb
  | _ => exact nofun

theorem FoundAs.withName {ix : Index} {name : String} {b : Binding} (hb : b.FoundAs ix name)
    (shown : String) : (b.withName shown).FoundAs ix name := by
  cases b <;> exact ⟨hb.known, hb.cites⟩

theorem FoundAs.foundAt {ix : Index} {name : String} {b : Binding} (hb : b.FoundAs ix name)
    {e : Expr} (hname : e.lastName? = some name) : b.FoundAt ix e := by
  refine ⟨hb.known, ?_⟩
  rw [hname]
  exact forall_mem_some hb.cites

theorem foundAt_ofType {ix : Index} {e : Expr} {type : Option BoundType}
    (htype : ∀ t ∈ type, t.Known ix) : (ofType type).FoundAt ix e :=
  ⟨known_ofType htype, fun _ _ => nofun⟩

theorem Known.resolution {b : Binding} (hb : b.Known ds) : ∀ r ∈ b.resolution, r.Known ds := by
  cases b with
  | value type member name =>
    intro answer hanswer
    obtain ⟨r, hr, rfl⟩ := Option.map_eq_some_iff.1 hanswer
    exact (hb.2 r hr).symbol
  | type type name =>
    refine forall_mem_some ?_
    cases hsource : type.source with
    | none => exact Symbol.known_external name
    | some s => exact DeclaredType.known_symbol (BoundType.Known.source hb s hsource)
  | space space name => exact forall_mem_some (.inr (.inl rfl))
  | methods members receiver isExtension name =>
    match members, hb with
    | [], hb => exact forall_mem_some (known_symbols hb.1)
    | [r], hb => exact forall_mem_some (hb.1 r (mem_singleton_self r)).symbol
    | r :: s :: refs, hb => exact forall_mem_some (known_symbols hb.1)
  | external type name => exact forall_mem_some (Symbol.known_external name)
  | ambiguous candidates name => exact forall_mem_some hb
  | unresolved name reason => exact forall_mem_some trivial

end Binding

theorem Resolution.Among.known {refs : List MemberRef} (hrefs : ∀ r ∈ refs, r.Known ds)
    {answer : Resolution} (h : answer.Among refs) : answer.Known ds := by
  cases answer with
  | resolved s =>
    obtain ⟨r, hr, rfl⟩ := h
    exact (hrefs r hr).symbol
  | ambiguous name candidates =>
    intro s hs
    obtain ⟨r, hr, rfl⟩ := h s hs
    exact (hrefs r hr).symbol
  | unresolved name reason => trivial

-- ===== keeping

section

variable {α β : Type} {x : BindM α} {f : α → BindM β} {st : BindState}

/-- Work goes on from what it came to. -/
theorem BindM.run_bind_ok {a : α} (h : (x st).1 = .ok a) : (x >>= f) st = f a (x st).2 := by
  show (ExceptT.bindCont f (x st).1) (x st).2 = _
  rw [h]
  rfl

theorem BindM.run_bind_error {e : BindError} (h : (x st).1 = .error e) :
    (x >>= f) st = (.error e, (x st).2) := by
  show (ExceptT.bindCont f (x st).1) (x st).2 = _
  rw [h]
  rfl

variable {handle : BindError → BindM α}

theorem BindM.run_tryCatch_ok {a : α} (h : (x st).1 = .ok a) :
    (tryCatch x handle : BindM α) st = (.ok a, (x st).2) := by
  simp only [tryCatch, tryCatchThe, MonadExceptOf.tryCatch, ExceptT.tryCatch, ExceptT.mk,
    Bind.bind, StateT.bind]
  cases hx : x st with
  | mk r st' =>
    rw [hx] at h
    cases h
    rfl

theorem BindM.run_tryCatch_error {e : BindError} (h : (x st).1 = .error e) :
    (tryCatch x handle : BindM α) st = handle e (x st).2 := by
  simp only [tryCatch, tryCatchThe, MonadExceptOf.tryCatch, ExceptT.tryCatch, ExceptT.mk,
    Bind.bind, StateT.bind]
  cases hx : x st with
  | mk r st' =>
    rw [hx] at h
    cases h
    rfl

end

/-- Work that starts from a state with a property `I` leaves such a state behind, and its result, if
there is one, has a property. -/
def BindM.Holds (I : BindState → Prop) {α : Type} (P : α → Prop) (x : BindM α) : Prop :=
  ∀ st, I st → I (x st).2 ∧ ∀ a, (x st).1 = .ok a → P a

namespace BindM.Holds

variable {I : BindState → Prop} {α β : Type} {P : α → Prop} {Q : β → Prop}

theorem of_pure {a : α} (ha : P a) : Holds I P (pure a) := by
  intro st hst
  refine ⟨hst, ?_⟩
  intro _ h
  cases h
  exact ha

theorem of_throw (e : BindError) : Holds I P (throw e) :=
  fun _ hst => ⟨hst, nofun⟩

theorem bind {x : BindM α} {f : α → BindM β} (hx : Holds I P x)
    (hf : ∀ a, P a → Holds I Q (f a)) : Holds I Q (x >>= f) := by
  intro st hst
  obtain ⟨hst', hresult⟩ := hx st hst
  cases hrun : (x st).1 with
  | ok a =>
    rw [run_bind_ok hrun]
    exact hf a (hresult a hrun) _ hst'
  | error e =>
    rw [run_bind_error hrun]
    exact ⟨hst', nofun⟩

theorem of_get : Holds I I get := by
  intro st hst
  refine ⟨hst, ?_⟩
  intro _ h
  cases h
  exact hst

theorem of_modify {f : BindState → BindState} (hf : ∀ st, I st → I (f st)) :
    Holds I (fun _ => True) (modify f : BindM PUnit) :=
  fun st hst => ⟨hf st hst, fun _ _ => trivial⟩

/-- A question about the hierarchy touches nothing else. -/
theorem of_bases {x : StateM BaseMemo α}
    (hbases : ∀ {st memo}, I st → I { st with bases := memo }) (hx : Answers P x) :
    Holds I P (BindM.ofBases x) := by
  intro st hst
  refine ⟨hbases hst, ?_⟩
  intro _ h
  cases h
  exact hx st.bases

theorem mono {R : α → Prop} {x : BindM α} (hx : Holds I P x) (hR : ∀ a, P a → R a) :
    Holds I R x :=
  fun st hst => ⟨(hx st hst).1, fun a ha => hR a ((hx st hst).2 a ha)⟩

end BindM.Holds

-- ===== steps

namespace BindState

/-- An expression is being bound. -/
def entered (st : BindState) (node : Nat) : BindState :=
  { st with running := node :: st.running }

/-- An expression is no longer being bound. -/
def left (st : BindState) (node : Nat) : BindState :=
  { st with running := st.running.erase node }

/-- What an expression stands for is put down. -/
def bound (st : BindState) (node : Nat) (b : Binding) : BindState :=
  { st.left node with bindings := st.bindings.insert node b }

/-- What a reference is found to be is put down. -/
def found (st : BindState) (node : Nat) (r : Option Resolution) : BindState :=
  { st with resolutions := st.resolutions.insert node r }

end BindState

/-- Binds an expression by `body`, unless it was bound before or is being bound. -/
def guarded (node : Nat) (body : BindM Binding) : BindM Binding := do
  let s ← get
  match s.bindings[node]? with
  | some b => return b
  | none =>
    if s.running.contains node then return .unknown
    else
      modify (·.entered node)
      let b ← tryCatch body fun error => do
        modify (·.left node)
        throw error
      modify (·.bound node b)
      return b

/-- Looks a reference up by `body`, unless it was looked up before or is being looked up. -/
def remembered (node : Nat) (body : BindM (Option Resolution)) : BindM (Option Resolution) := do
  match (← get).resolutions[node]? with
  | some r => return r
  | none =>
    modify (·.found node none)
    let r ← body
    modify (·.found node r)
    return r

theorem Index.bindStep_eq (ix : Index) (q : Queries) (e : Expr) :
    ix.bindStep q e = guarded e.node (ix.bindFresh q e) :=
  rfl

theorem Index.resolveStep_eq (ix : Index) (q : Queries) (e : Expr) :
    ix.resolveStep q e = remembered e.node (ix.resolveFresh q e) :=
  rfl

theorem guarded_apply (node : Nat) (body : BindM Binding) (st : BindState) :
    guarded node body st
      = match st.bindings[node]? with
        | some b => (.ok b, st)
        | none =>
          if node ∈ st.running then (.ok .unknown, st)
          else
            match body (st.entered node) with
            | (.ok b, st') => (.ok b, st'.bound node b)
            | (.error e, st') => (.error e, st'.left node) := by
  unfold guarded
  rw [BindM.run_bind_ok (a := st) rfl]
  cases hknown : st.bindings[node]? with
  | some b => rfl
  | none =>
    by_cases hrunning : node ∈ st.running
    · simp only [List.contains_iff_mem.2 hrunning, if_true, if_pos hrunning]
      rfl
    · have hcontains : st.running.contains node = false := by simpa using hrunning
      simp only [hcontains, if_neg hrunning, Bool.false_eq_true, if_false]
      rw [BindM.run_bind_ok (a := ()) rfl]
      show (tryCatch body _ >>= _ : BindM Binding) (st.entered node) = _
      cases hrun : body (st.entered node) with
      | mk outcome st' =>
        cases outcome with
        | ok b =>
          have hbody : (tryCatch body fun error => do
              modify (·.left node)
              throw error : BindM Binding) (st.entered node) = _ :=
            BindM.run_tryCatch_ok (congrArg Prod.fst hrun)
          rw [BindM.run_bind_ok (congrArg Prod.fst hbody), hbody, hrun]
          rfl
        | error e =>
          have hbody : (tryCatch body fun error => do
              modify (·.left node)
              throw error : BindM Binding) (st.entered node) = _ :=
            BindM.run_tryCatch_error (congrArg Prod.fst hrun)
          rw [hrun] at hbody
          rw [BindM.run_bind_error (congrArg Prod.fst hbody), hbody]
          rfl

theorem remembered_apply (node : Nat) (body : BindM (Option Resolution)) (st : BindState) :
    remembered node body st
      = match st.resolutions[node]? with
        | some r => (.ok r, st)
        | none =>
          match body (st.found node none) with
          | (.ok r, st') => (.ok r, st'.found node r)
          | (.error e, st') => (.error e, st') := by
  unfold remembered
  rw [BindM.run_bind_ok (a := st) rfl]
  cases hknown : st.resolutions[node]? with
  | some r => rfl
  | none =>
    show (body >>= _ : BindM (Option Resolution)) (st.found node none) = _
    cases hrun : body (st.found node none) with
    | mk outcome st' =>
      cases outcome with
      | ok r =>
        rw [BindM.run_bind_ok (congrArg Prod.fst hrun), hrun]
        rfl
      | error e => rw [BindM.run_bind_error (congrArg Prod.fst hrun), hrun]

namespace BindM.Holds

variable {I : BindState → Prop} {node : Nat}

/-- Binding an expression keeps a property of states that is kept by working it out and by putting
down what it stands for. -/
theorem guarded {body : BindM Binding} {P Q : Binding → Prop} (hbody : Holds I Q body)
    (hknown : ∀ st, I st → ∀ b, st.bindings[node]? = some b → P b) (hunknown : P .unknown)
    (hentered : ∀ st, I st → I (st.entered node)) (hleft : ∀ st, I st → I (st.left node))
    (hbound : ∀ st, I st → ∀ b, Q b → I (st.bound node b) ∧ P b) :
    Holds I P (guarded node body) := by
  intro st hst
  have hrest := hbody (st.entered node) (hentered st hst)
  rw [guarded_apply]
  cases hb : st.bindings[node]? with
  | some b => exact of_pure (hknown st hst b hb) st hst
  | none =>
    dsimp only
    split
    · exact of_pure hunknown st hst
    · match body (st.entered node), hrest with
      | (.ok b, st'), hrest =>
        obtain ⟨hst', hb⟩ := hbound st' hrest.1 b (hrest.2 b rfl)
        exact of_pure hb _ hst'
      | (.error e, st'), hrest => exact of_throw e _ (hleft st' hrest.1)

/-- Looking a reference up keeps a property of states that is kept by working it out and by putting
down what it is found to be. -/
theorem remembered {body : BindM (Option Resolution)} {P Q : Option Resolution → Prop}
    (hbody : Holds I Q body)
    (hknown : ∀ st, I st → ∀ r, st.resolutions[node]? = some r → P r)
    (hnone : ∀ st, I st → I (st.found node none))
    (hfound : ∀ st, I st → ∀ r, Q r → I (st.found node r) ∧ P r) :
    Holds I P (remembered node body) := by
  intro st hst
  have hrest := hbody (st.found node none) (hnone st hst)
  rw [remembered_apply]
  cases hr : st.resolutions[node]? with
  | some r => exact of_pure (hknown st hst r hr) st hst
  | none =>
    match body (st.found node none), hrest with
    | (.ok r, st'), hrest =>
      obtain ⟨hst', hr⟩ := hfound st' hrest.1 r (hrest.2 r rfl)
      exact of_pure hr _ hst'
    | (.error e, st'), hrest => exact of_throw e _ hrest.1

end BindM.Holds

/-- From a sound state, work leaves a sound state behind, and its result, if there is one, has a
property. -/
abbrev BindM.Keeps (ds : Declarations) {α : Type} (P : α → Prop) (x : BindM α) : Prop :=
  Holds (BindState.Sound ds) P x

/-- Both questions keep to what is declared. -/
structure Queries.Sound (ds : Declarations) (q : Queries) : Prop where
  bind : ∀ e, BindM.Keeps ds (·.Known ds) (q.bind e)
  resolve : ∀ e, BindM.Keeps ds (fun r => ∀ answer ∈ r, answer.Known ds) (q.resolve e)

end

-- ===== what is found

namespace Index.Sound

variable {ix : Index} {name : String}

theorem foundAs_foreign (display : String) : (Binding.external none display).FoundAs ix name :=
  ⟨Binding.known_foreign _, trivial⟩

theorem foundAs_value {type : Option BoundType} (htype : ∀ t ∈ type, t.Known ix)
    {display : String} : (Binding.value type none display).FoundAs ix name :=
  ⟨⟨htype, nofun⟩, nofun⟩

theorem foundAs_methods (hix : ix.Sound) {refs : List MemberRef}
    (hrefs : ∀ r ∈ refs, r ∈ ix.members.anywhere name) {receiver : Option BoundType}
    (hreceiver : ∀ t ∈ receiver, t.Known ix) (isExtension : Bool) (display : String) :
    (Binding.methods refs receiver isExtension display).FoundAs ix name :=
  ⟨⟨fun r hr => hix.members.anywhere name r (hrefs r hr), hreceiver⟩, hrefs⟩

theorem foundAs_membersBinding (hix : ix.Sound) {refs : List MemberRef}
    (hrefs : ∀ r ∈ refs, r ∈ ix.members.anywhere name) {receiver : Option BoundType}
    (hreceiver : ∀ t ∈ receiver, t.Known ix) :
    (ix.membersBinding refs name receiver).FoundAs ix name := by
  unfold Index.membersBinding
  split
  · exact ⟨Binding.known_unknown _, nofun⟩
  · next r rest _ =>
    have hr := hrefs r mem_cons_self
    have hknown := hix.members.anywhere name r hr
    exact ⟨⟨Declarations.known_memberType hknown hreceiver, forall_mem_some hknown⟩,
      forall_mem_some hr⟩
  · exact hix.foundAs_methods (fun r hr => hrefs r (mem_filter.1 hr).1) hreceiver _ _

theorem foundAs_typeBinding (site : Site) {t : DeclaredType} (ht : t ∈ ix.types)
    (typeArgs : List TypeRef) : (ix.typeBinding site t typeArgs).FoundAs ix name :=
  ⟨BoundType.Known.mk (forall_mem_some ht) (ix.toDeclarations.known_boundTypes _ _ _), trivial⟩

theorem foundAs_bindUnknownMember (hix : ix.Sound) (display : String) :
    (ix.bindUnknownMember name display).FoundAs ix name := by
  unfold Index.bindUnknownMember
  simp only
  split
  · exact foundAs_foreign _
  · refine ⟨fun s hs => known_symbols (hix.members.anywhere name) s (Text.mem_of_mem_distinctBy hs),
      fun s hs => .inr ?_⟩
    exact mem_map.1 (Text.mem_of_mem_distinctBy hs)

theorem foundAs_bindGlobalName (site : Site) (typeArgs : List TypeRef) :
    (ix.bindGlobalName site name typeArgs).FoundAs ix name := by
  unfold Index.bindGlobalName
  split
  · next t ht => exact foundAs_typeBinding site (Declarations.mem_of_typeNamed _ _ _ t ht) typeArgs
  · split
    · exact ⟨trivial, trivial⟩
    · exact foundAs_foreign _

theorem foundAs_bindForeignName : (Index.bindForeignName name).FoundAs ix name := by
  unfold Index.bindForeignName
  split
  · exact foundAs_foreign _
  · refine foundAs_value ?_
    exact nofun

theorem foundAs_types {ts : List DeclaredType} (hts : ∀ t ∈ ts, t ∈ ix.types) :
    (Binding.ambiguous (ts.map (·.symbol)) name).FoundAs ix name := by
  refine ⟨fun s hs => ?_, fun s hs => .inl ?_⟩ <;> obtain ⟨t, ht, rfl⟩ := mem_map.1 hs
  · exact DeclaredType.known_symbol (hts t ht)
  · rfl

theorem known_literalType (ds : Declarations) (kind : LiteralKind) :
    ∀ t ∈ Index.literalType kind, t.Known ds := by
  unfold Index.literalType
  split
  · exact nofun
  · exact forall_mem_some (BoundType.known_simple _)
  · exact forall_mem_some (BoundType.known_simple _)

theorem mem_of_mem_createdTypes {site : Site} {ref : TypeRef} {t : DeclaredType}
    (ht : t ∈ ix.createdTypes site ref) : t ∈ ix.types := by
  unfold Index.createdTypes at ht
  simp only at ht
  split at ht
  · exact Declarations.mem_of_typeNamed _ _ _ t (Option.mem_toList.1 ht)
  split at ht
  · cases ht
  · exact Declarations.finds_lookupQualified _ _ _ _ _ _ t ht

end Index.Sound

end SourceBundle
