/-
References keep to the names that are written.

Whatever a name, a member access or a call refers to, if it is a member
then it has the name that is written last (`references_keep_names`),
wherever it was looked for: in the types around, in bases, among static
imports and extension methods, or anywhere. What a rule finds for a name
cites members of the name alone (`Binding.FoundAs`). Answers are
remembered under the numbers of expressions, so that what is remembered
keeps to the names (`BindState.Spelled`) needs that no two expressions
share a number.
-/
import SourceBundle.Proofs.Binding.Sessions

namespace SourceBundle

open List BindM

-- ===== names

/-- Whether symbols of a kind are members that are reached by name. -/
def SymbolKind.isMember : SymbolKind → Bool
  | method | field | property | event | enumMember => true
  | space | type | constructor | external => false

/-- The symbols that an answer speaks of. -/
def Resolution.symbols : Resolution → List Symbol
  | resolved s => [s]
  | ambiguous _ candidates => candidates
  | unresolved .. => []

/-- Members that an answer speaks of have a name. -/
def Resolution.Cites (ix : Index) (name : String) (answer : Resolution) : Prop :=
  ∀ s ∈ answer.symbols, s.kind.isMember = true → ∃ r ∈ ix.members.anywhere name, r.symbol = s

/-- What an expression refers to is declared, and keeps to the name that is written. -/
structure Resolution.FoundAt (ix : Index) (e : Expr) (answer : Resolution) : Prop where
  known : answer.Known ix
  cites : ∀ name ∈ e.lastName?, answer.Cites ix name

section

variable {ix : Index} {name : String}

theorem Resolution.cites_of_not_isMember {s : Symbol} (hs : s.kind.isMember = false) :
    (Resolution.resolved s).Cites ix name := by
  intro o ho hkind
  rw [mem_singleton.1 ho, hs] at hkind
  cases hkind

theorem Resolution.Among.cites {refs : List MemberRef}
    (hrefs : ∀ r ∈ refs, r ∈ ix.members.anywhere name) {answer : Resolution}
    (h : answer.Among refs) : answer.Cites ix name := by
  intro s hs _
  have hr : ∃ r ∈ refs, r.symbol = s := by
    cases answer with
    | resolved o => exact mem_singleton.1 hs ▸ h
    | ambiguous shown candidates => exact h s hs
    | unresolved shown reason => cases hs
  obtain ⟨r, hr, heq⟩ := hr
  exact ⟨r, hrefs r hr, heq⟩

theorem Binding.Cites.ambiguous {candidates : List Symbol} {shown : String}
    (h : (Binding.ambiguous candidates shown).Cites ix name) (display : String) :
    (Resolution.ambiguous display candidates).Cites ix name := by
  intro s hs hkind
  refine (h s hs).resolve_left fun htype => ?_
  rw [htype] at hkind
  cases hkind

theorem Binding.Cites.resolution {b : Binding} (h : b.Cites ix name) :
    ∀ answer ∈ b.resolution, answer.Cites ix name := by
  intro answer hanswer
  cases b with
  | value type member shown =>
    obtain ⟨r, hr, rfl⟩ := Option.map_eq_some_iff.1 hanswer
    intro s hs _
    exact ⟨r, h r hr, (mem_singleton.1 hs).symm⟩
  | methods members receiver isExtension shown =>
    refine Resolution.Among.cites h ?_
    match members, hanswer with
    | [], rfl => exact forall_mem_nil _
    | [r], rfl => exact ⟨r, mem_cons_self, rfl⟩
    | _ :: _ :: _, rfl => exact fun s hs => mem_map.1 hs
  | type type shown =>
    cases hanswer
    refine Resolution.cites_of_not_isMember ?_
    cases type.source <;> rfl
  | ambiguous candidates shown =>
    cases hanswer
    exact h.ambiguous shown
  | unresolved shown reason =>
    cases hanswer
    exact forall_mem_nil _
  | _ =>
    cases hanswer
    exact Resolution.cites_of_not_isMember rfl

end

-- ===== what is remembered

/-- What is remembered of some expressions is declared and keeps to their names. -/
structure BindState.Spelled (ix : Index) (pool : List Expr) (st : BindState) : Prop where
  bindings : ∀ e ∈ pool, ∀ b, st.bindings[e.node]? = some b → b.FoundAt ix e
  resolutions : ∀ e ∈ pool, ∀ found, st.resolutions[e.node]? = some found →
    ∀ answer ∈ found, answer.FoundAt ix e
  choices : ∀ (n : Nat) (c : Choice), st.choices[n]? = some c → c.Known ix

/-- Questions about some expressions keep to their names. -/
structure Queries.Spelled (ix : Index) (pool : List Expr) (q : Queries) : Prop where
  bind : ∀ e ∈ pool, Holds (BindState.Spelled ix pool) (·.FoundAt ix e) (q.bind e)
  resolve : ∀ e ∈ pool, Holds (BindState.Spelled ix pool)
    (fun found => ∀ answer ∈ found, answer.FoundAt ix e) (q.resolve e)

section

variable {ix : Index} {pool : List Expr} {st : BindState} {e : Expr}

theorem BindState.spelled_empty : BindState.Spelled ix pool {} where
  bindings e _ b hb := by simp at hb
  resolutions e _ found hfound := by simp at hfound
  choices n c hc := by simp at hc

variable (hpool : ix.Numbered pool) (he : e ∈ pool)
include hpool he

/-- What is put down for one expression is not remembered of another. -/
theorem Index.Numbered.forall_insert {α : Type} {P : Expr → α → Prop} {table : Std.TreeMap Nat α}
    (htable : ∀ f ∈ pool, ∀ a, table[f.node]? = some a → P f a) {v : α} (hv : P e v) :
    ∀ f ∈ pool, ∀ a, (table.insert e.node v)[f.node]? = some a → P f a := by
  intro f hf a ha
  by_cases hnode : e.node = f.node
  · cases hpool.node_inj e he f hf hnode
    rw [Std.TreeMap.getElem?_insert_self] at ha
    cases ha
    exact hv
  · rw [getElem?_insert_of_ne hnode] at ha
    exact htable f hf a ha

theorem BindState.Spelled.bound (h : st.Spelled ix pool) {b : Binding} (hb : b.FoundAt ix e) :
    (st.bound e.node b).Spelled ix pool :=
  ⟨hpool.forall_insert he h.bindings hb, h.resolutions, h.choices⟩

theorem BindState.Spelled.found (h : st.Spelled ix pool) {found : Option Resolution}
    (hfound : ∀ answer ∈ found, answer.FoundAt ix e) : (st.found e.node found).Spelled ix pool :=
  ⟨h.bindings, hpool.forall_insert (P := fun e (found : Option Resolution) =>
    ∀ answer ∈ found, answer.FoundAt ix e) he h.resolutions hfound, h.choices⟩

end

-- ===== binding and resolving

namespace Queries.Spelled

variable {ix : Index} {pool : List Expr} {q : Queries} (hq : q.Spelled ix pool) (hix : ix.Sound)
  (hpool : ix.Numbered pool)

omit hq in
theorem chooses (node : Nat) : Queries.Upheld.Chooses ix True
    (fun Q x _ => Holds (BindState.Spelled ix pool) Q x) node :=
  fun _ hc => .of_modify fun _ hst =>
    ⟨hst.bindings, hst.resolutions, forall_getElem?_insert hst.choices (hc trivial)⟩

include hq hix hpool

theorem upheld : q.Upheld ix (· ∈ pool) True
    (fun Q x _ => Holds (BindState.Spelled ix pool) Q x) q where
  closed := hpool.toPool.closed
  index _ := hix
  pure ha := .of_pure (ha trivial)
  fault e _ := .of_throw e
  goOn hx hf := hx.bind fun a ha => hf a fun _ => ha
  bases hz _ := .of_bases (fun hst => ⟨hst.bindings, hst.resolutions, hst.choices⟩) hz
  bind e he := (hq.bind e he).mono fun _ hb => hb.known
  resolve e he := (hq.resolve e he).mono fun _ h answer hanswer => (h answer hanswer).known
  choice e he := (hq.resolve e he).bind fun _ _ => Holds.of_get.bind fun _ hst =>
    .of_pure fun c hc => hst.choices e.node c hc

theorem bindStep {e : Expr} (he : e ∈ pool) :
    Holds (BindState.Spelled ix pool) (·.FoundAt ix e) (ix.bindStep q e) :=
  Holds.guarded ((hq.upheld hix hpool).bindFresh he) (fun _ hst b hb => hst.bindings e he b hb)
    (Binding.foundAt_ofType nofun) (fun _ hst => ⟨hst.bindings, hst.resolutions, hst.choices⟩)
    (fun _ hst => ⟨hst.bindings, hst.resolutions, hst.choices⟩)
    fun _ hst _ hb => ⟨hst.bound hpool he hb, hb⟩

/-- A call of what keeps to a name keeps to it. -/
theorem resolveCallOf {e : Expr} {b : Binding} (hb : b.FoundAt ix e) (node : Nat)
    {args : List Expr} (hargs : ∀ arg ∈ args, arg ∈ pool) (display : String) :
    Holds (BindState.Spelled ix pool) (·.FoundAt ix e)
      (ix.resolveCallOf q b node args display) := by
  obtain ⟨hknown, hcites⟩ := hb
  cases b with
  | methods refs receiver isExtension shown =>
    refine ((hq.upheld hix hpool).chooseOverload (chooses node) hargs (fun _ => hknown.1) display
      (fun _ => hknown.2) isExtension).mono fun _ ha => ?_
    exact ⟨ha.known hknown.1, fun name hname => ha.cites (hcites name hname)⟩
  | value _ _ _ | external _ _ =>
    exact .of_pure ⟨Symbol.known_external _, fun _ _ => Resolution.cites_of_not_isMember rfl⟩
  | ambiguous candidates shown =>
    exact .of_pure ⟨hknown, fun name hname => (hcites name hname).ambiguous display⟩
  | unresolved _ _ | type _ _ | space _ _ =>
    exact .of_pure ⟨trivial, fun _ _ => forall_mem_nil _⟩

/-- A call refers to what is called. -/
theorem resolveCall {mark : Mark} {callee : Expr} {args : List Expr}
    (he : .call mark callee args ∈ pool) {site : Site} (hsite : site.type ∈ ix.types) :
    Holds (BindState.Spelled ix pool) (·.FoundAt ix (.call mark callee args))
      (ix.resolveCall q site mark.node callee args) := by
  have hchild := hpool.toPool.children _ he
  have hcalled : Holds (BindState.Spelled ix pool) (·.FoundAt ix callee) (do
      let b ← q.bind callee
      ix.resolveCallOf q b mark.node args
        (if b.name.isEmpty then callee.display else b.name)) :=
    (hq.bind callee (hchild _ mem_cons_self)).bind fun b hb => hq.resolveCallOf hix hpool hb _
      (fun arg harg => hchild arg (mem_cons_of_mem _ harg)) _
  cases callee with
  | thisRef _ | baseRef _ =>
    exact ((hq.upheld hix hpool).resolveCall he (chooses _) fun _ => hsite).mono
      fun _ ha => ⟨ha, nofun⟩
  | _ => exact hcalled.mono fun _ ha => ⟨ha.known, ha.cites⟩

omit hix in
/-- A name that is called refers to what the call refers to. -/
theorem resolveName {e : Expr} (he : e ∈ pool) :
    Holds (BindState.Spelled ix pool) (fun found => ∀ answer ∈ found, answer.FoundAt ix e)
      (ix.resolveName q e) := by
  unfold Index.resolveName
  split
  · next call hcall =>
    obtain ⟨hparent, hcallee⟩ := Option.filter_eq_some_iff.1 hcall
    have hcall := hpool.toPool.parents _ call hparent
    have hname : call.lastName? = e.lastName? := by
      unfold Index.isCalleeOf at hcallee
      split at hcallee
      · next callee _ _ =>
        have hchild := hpool.toPool.children _ hcall callee mem_cons_self
        rw [Expr.lastName?, hpool.node_inj callee hchild e he (by simpa using hcallee)]
      · cases hcallee
    refine (hq.resolve call hcall).mono fun _ h answer hanswer => ⟨(h answer hanswer).known, ?_⟩
    rw [← hname]
    exact (h answer hanswer).cites
  · exact (hq.bind e he).bind fun b hb => .of_pure fun answer hanswer =>
      ⟨hb.known.resolution answer hanswer, fun name hname =>
        (hb.cites name hname).resolution answer hanswer⟩

theorem resolveFresh {e : Expr} (he : e ∈ pool) :
    Holds (BindState.Spelled ix pool) (fun found => ∀ answer ∈ found, answer.FoundAt ix e)
      (ix.resolveFresh q e) := by
  cases e with
  | call mark callee args =>
    unfold Index.resolveFresh
    split
    · exact .of_pure nofun
    · next site hsite =>
      exact (hq.resolveCall hix hpool he (hix.places.sites _ site hsite)).bind fun a ha =>
        .of_pure (forall_mem_some ha)
  | ident _ _ _ _ | member _ _ _ _ _ =>
    unfold Index.resolveFresh
    split
    · exact .of_pure nofun
    · exact hq.resolveName hpool he
  | _ =>
    exact ((hq.upheld hix hpool).resolveFresh he (chooses _)).mono
      fun _ h answer hanswer => ⟨h answer hanswer, nofun⟩

theorem resolveStep {e : Expr} (he : e ∈ pool) :
    Holds (BindState.Spelled ix pool) (fun found => ∀ answer ∈ found, answer.FoundAt ix e)
      (ix.resolveStep q e) :=
  Holds.remembered (hq.resolveFresh hix hpool he) (fun _ hst r hr => hst.resolutions e he r hr)
    (fun _ hst => hst.found hpool he nofun) fun _ hst _ hr => ⟨hst.found hpool he hr, hr⟩

end Queries.Spelled

-- ===== sessions

namespace Index

variable {ix : Index} {pool : List Expr} (hix : ix.Sound) (hpool : ix.Numbered pool)
include hix hpool

theorem spelled_queriesWithin (bound : Nat) : (ix.queriesWithin bound).Spelled ix pool := by
  induction bound with
  | zero =>
    exact ⟨fun _ _ => .of_pure (Binding.foundAt_ofType nofun), fun _ _ => .of_pure nofun⟩
  | succ bound ih =>
    exact ⟨fun _ he => ih.bindStep hix hpool he, fun _ he => ih.resolveStep hix hpool he⟩

/-- What is remembered keeps to names in all sessions. -/
theorem Asked.spelled {st : BindState} (h : ix.Asked pool st) : st.Spelled ix pool := by
  have hqueries := spelled_queriesWithin hix hpool (2 * ix.nodeCount + 2)
  induction h with
  | start => exact BindState.spelled_empty
  | bind _ he ih => exact (hqueries.bind _ he _ ih).1
  | resolve _ he ih => exact (hqueries.resolve _ he _ ih).1

end Index

-- ===== references

/-- A symbol is that of a member with a name: one that is written in a declared type or stands for a
parameter of a record. -/
structure Symbol.IsMember (ds : Declarations) (name : String) (s : Symbol) (r : MemberRef) :
    Prop where
  type_mem : r.type ∈ ds.types
  hasNamed : r.type.HasNamed r
  decl_name : r.decl.name = name
  kind_eq : s.kind = r.decl.kind.symbolKind
  container_eq : s.container = some r.type.number
  name_eq : s.name = r.type.qualifiedName ++ "." ++ name
    ++ (if s.kind = .method then r.signature else "")

/-- No name of a workspace refers to a member of another name in a session. -/
def Workspace.KeepsNames (w : Workspace) : Prop :=
  ∀ st, w.index.Asked w.expressions st → ∀ e ∈ w.expressions, ∀ name, e.lastName? = some name →
    ∀ answer, (w.index.resolve e st).1 = .ok (some answer) → ∀ s ∈ answer.symbols,
      s.kind.isMember = true → ∃ r, s.IsMember w.index.toDeclarations name r

theorem DeclaredType.HasNamed.isNamed {t : DeclaredType} {r : MemberRef} (h : t.HasNamed r) :
    r.decl.kind.isNamed = true := by
  cases h with
  | written _ hkind => exact hkind
  | parameter => rfl

theorem Workspace.isMember_of_mem_anywhere (w : Workspace) {name : String} {r : MemberRef}
    (hr : r ∈ w.index.members.anywhere name) :
    r.symbol.IsMember w.index.toDeclarations name r := by
  obtain ⟨hr, hname⟩ := mem_filter.1 hr
  obtain ⟨t, ht, hnamed⟩ := MemberTable.hasNamed_of_mem_named hr
  have hkind : r.decl.kind.symbolKind ≠ .constructor := by
    have hnamed := hnamed.isNamed
    intro h
    cases hkind : r.decl.kind <;> simp_all [MemberKind.isNamed, MemberKind.symbolKind]
  have hname : r.decl.name = name := by simpa using hname
  cases hnamed.writtenIn.type_eq
  refine ⟨ht, hnamed, hname, rfl, rfl, ?_⟩
  by_cases hmethod : r.decl.kind.symbolKind = .method
  · simp [MemberRef.symbol, MemberRef.owner, hname, hmethod]
  · simp [MemberRef.symbol, MemberRef.owner, hname, hmethod, hkind]

theorem Workspace.WellNumbered.keepsNames {w : Workspace} (hw : w.WellNumbered) : w.KeepsNames := by
  obtain ⟨pool, hpool, hsubset⟩ := hw.exists_numbered
  intro st hst e he name hname answer hanswer s hs hkind
  have hspelled := (hst.mono hsubset).spelled w.index_sound hpool
  have hqueries := Index.spelled_queriesWithin w.index_sound hpool (2 * w.index.nodeCount + 2)
  obtain ⟨r, hr, rfl⟩ := ((hqueries.resolve e (hsubset e he) st hspelled).2 _ hanswer answer
    rfl).cites name hname s hs hkind
  exact ⟨r, w.isMember_of_mem_anywhere hr⟩

/-- In every workspace that is made of texts or loaded from files, what a name, a member access or a
call refers to is no member of another name than the one that is written, in whichever order
questions are asked. -/
theorem Workspace.references_keep_names (c : Context) :
    (∀ {m : Type → Type} [Monad m] [LawfulMonad m] [MonadLog m] (sources : List (String × String))
      (implicitUsings : Bool),
      Always KeepsNames (ofSources c sources implicitUsings : m Workspace))
    ∧ ∀ {m : Type → Type} [Monad m] [LawfulMonad m] [MonadLog m] [MonadFiles m] (locator : String),
      Always (fun r : Except LoadError Workspace => ∀ w, r = .ok w → w.KeepsNames)
        (load c locator : m (Except LoadError Workspace)) := by
  constructor
  · intro m _ _ _ sources implicitUsings
    exact (wellNumbered_ofSources c sources implicitUsings).mono fun w hw => hw.keepsNames
  · intro m _ _ _ _ locator
    exact (wellNumbered_load c locator).mono fun r hr w heq => (hr w heq).keepsNames

/-- A record, and a use of the property of its parameter. -/
def Workspace.recordUse : Workspace :=
  Id.run (ofSources {} [("A.cs", "namespace A \x7b record P(int X) \x7b \x7d "
    ++ "class Q \x7b int F(P p) => p.X; \x7d \x7d")])

/-- Whether an expression ends with a name and refers to a member at the start of a session. -/
def Workspace.refersTo (w : Workspace) (name full : String) (e : Expr) : Bool :=
  e.lastName? = some name && match (w.index.resolve e {}).1 with
    | .ok (some (.resolved s)) => s.kind.isMember && s.name = full
    | _ => false

/-- The access refers to the property, which nothing but the parameter declares. -/
theorem Workspace.references_keep_names_recordUse :
    ∃ e ∈ recordUse.expressions, e.lastName? = some "X" ∧ ∃ s : Symbol,
      (recordUse.index.resolve e {}).1 = .ok (some (.resolved s)) ∧ s.name = "A.P.X"
        ∧ ∃ r, s.IsMember recordUse.index.toDeclarations "X" r := by
  have hkeeps : recordUse.KeepsNames := always_id_iff.1 ((references_keep_names {}).1 (m := Id) _ _)
  have hrefers : (recordUse.expressions[0]?.any (recordUse.refersTo "X" "A.P.X")) = true := by
    decide +kernel
  obtain ⟨e, he, hrefers⟩ := (Option.any_eq_true _ _).1 hrefers
  obtain ⟨hname, hrefers⟩ := Bool.and_eq_true_iff.1 hrefers
  split at hrefers
  · next s hs =>
    obtain ⟨hkind, hfull⟩ := Bool.and_eq_true_iff.1 hrefers
    have he := mem_of_getElem? he
    refine ⟨e, he, of_decide_eq_true hname, s, hs, of_decide_eq_true hfull, ?_⟩
    exact hkeeps {} .start e he _ (of_decide_eq_true hname) _ hs s mem_cons_self hkind
  · cases hrefers

end SourceBundle
