/-
The symbols that a unit refers to can be located.

Binding keeps to what is declared, so a symbol collected from a unit is
held by a declared type unless it lies outside the sources or is a
namespace, and a declared type belongs to a unit that is found under its
own name. The units of an index have distinct names, and each lies in
the namespace that its name says, since no name of a type has a dot. So
bundling over an index meets neither two units of one name, nor a root
in another namespace than its own, nor a unit without a namespace.
-/
import SourceBundle.Proofs.Binding.Rules
import SourceBundle.Proofs.Closure.Faults

namespace SourceBundle

-- ===== sessions

section

variable {m : Type → Type} [Monad m] {α β : Type}

/-- The work of a session that starts from a state fails or comes to something with a property. -/
def Session.Ends (P : α → Prop) (work : Session m α) (st : BindState) : Prop :=
  Always (fun r : Except BindError α × BindState => ∀ a, r.1 = .ok a → P a) (work st)

/-- From a sound state, the work of a session leaves a sound state behind, and its result, if there
is one, has a property. -/
def Session.Keeps (ds : Declarations) (P : α → Prop) (work : Session m α) : Prop :=
  ∀ st : BindState, st.Sound ds →
    Always (fun r : Except BindError α × BindState => r.2.Sound ds ∧ ∀ a, r.1 = .ok a → P a)
      (work st)

namespace Session.Keeps

variable [LawfulMonad m] {ds : Declarations} {P : α → Prop} {Q : β → Prop}

theorem of_pure {a : α} (ha : P a) : Session.Keeps ds P (pure a : Session m α) := by
  intro st hst
  refine .of_pure ⟨hst, ?_⟩
  intro b hb
  cases hb
  exact ha

theorem bind {x : Session m α} {f : α → Session m β} (hx : Session.Keeps ds P x)
    (hf : ∀ a, P a → Session.Keeps ds Q (f a)) : Session.Keeps ds Q (x >>= f) := by
  intro st hst
  show Always _ (x st >>= fun r => ExceptT.bindCont f r.1 r.2)
  refine (hx st hst).bind fun r hr => ?_
  obtain ⟨hst', hresult⟩ := hr
  cases r with
  | mk outcome st' =>
    cases outcome with
    | ok a => exact hf a (hresult a rfl) st' hst'
    | error e => exact .of_pure ⟨hst', nofun⟩

theorem of_bind {x : BindM α} (hx : BindM.Keeps ds P x) :
    Session.Keeps ds P (Session.ofBind x : Session m α) :=
  fun st hst => .of_pure (hx st hst)

theorem of_log [MonadLog m] (c : Context) (level : LogLevel) (message : String) :
    Session.Keeps ds (fun _ => True) (c.log level message : Session m Unit) := by
  unfold Context.log
  split
  · exact of_pure trivial
  · next line _ =>
    intro st hst
    show Always _ (((MonadLog.note line : m Unit) >>= fun a => pure (a, st)) >>= fun r =>
      pure (Except.ok r.1, r.2))
    have hnote : Always (fun r : Unit × BindState => r.2.Sound ds)
        ((MonadLog.note line : m Unit) >>= fun a => pure (a, st)) :=
      .after _ fun _ => .of_pure hst
    exact hnote.bind fun r hr => .of_pure ⟨hr, fun _ _ => trivial⟩

theorem ends {x : Session m α} (hx : Session.Keeps ds P x) {st : BindState} (hst : st.Sound ds) :
    x.Ends P st :=
  (hx st hst).mono fun _ hr => hr.2

end Session.Keeps

/-- Work that always comes to something with a property does so from every state. -/
theorem Always.ends [LawfulMonad m] {P : α → Prop} {work : Session m α} (hwork : Always P work)
    (st : BindState) : work.Ends P st := by
  obtain ⟨y, rfl⟩ := hwork
  rw [map_eq_pure_bind]
  show Always _ (y st >>= fun r =>
    ExceptT.bindCont (m := StateT BindState m) (fun a => pure a.1) r.1 r.2)
  refine .after _ fun r => ?_
  cases r with
  | mk outcome st' =>
    cases outcome with
    | ok a =>
      refine .of_pure fun b hb => ?_
      cases hb
      exact a.2
    | error e => exact .of_pure nofun

end

-- ===== collecting

theorem Resolution.Known.keep {ds : Declarations} {answer : Resolution} (h : answer.Known ds)
    (creation : Bool) : ∀ s ∈ (answer.keep creation).1, s.Known ds := by
  intro s hs
  cases answer with
  | resolved symbol =>
    cases hs
    exact h
  | unresolved name reason => cases hs
  | ambiguous name candidates =>
    cases creation with
    | false => cases hs
    | true =>
      cases candidates with
      | nil => cases hs
      | cons first rest =>
        cases hs
        exact h _ List.mem_cons_self

section

variable {m : Type → Type} [Monad m] [LawfulMonad m] [MonadLog m] {ix : Index}

/-- The symbols that were collected are declared. -/
def Collection.Known (ds : Declarations) (found : Collection) : Prop :=
  ∀ s ∈ found.symbols, s.Known ds

theorem Collection.gathers_known (ds : Declarations) :
    Collection.Gathers (fun r => ∀ answer, r = some answer → answer.Known ds)
      (Collection.Known ds) where
  empty _ hs := nomatch hs
  answer c unit file e a ha := by
    cases a with
    | none => exact nofun
    | some answer =>
      have hkeep := (ha answer rfl).keep e.isCreation
      dsimp only [collectAnswer]
      cases hanswer : answer.keep e.isCreation with
      | mk symbol warning =>
        rw [hanswer] at hkeep
        cases warning with
        | none => exact fun s hs => hkeep s (Option.mem_toList.1 hs)
        | some message => exact fun s hs => hkeep s (Option.mem_toList.1 hs)
  append ha hb s hs := (List.mem_append.1 hs).elim (ha s) (hb s)
  distinct h s hs := h s (Text.mem_of_mem_distinctBy hs)

/-- What is collected from a unit is declared. -/
theorem Index.Sound.keeps_collect (hix : ix.Sound) (c : Context) (u : TypeUnit) :
    Session.Keeps (m := m) ix (·.Known ix)
      (collect ix.service c u) :=
  have hkeeps : Comparison (m := Session m) (n := Session m) c c fun _ P x _ =>
      Session.Keeps ix P x :=
    ⟨.of_pure, .bind, fun _ _ => .of_log c _ _⟩
  hkeeps.of_collect ix.service ix.service (Collection.gathers_known ix)
    (fun e => .of_bind (hix.keeps_resolve e)) u

end

-- ===== locating

namespace Index

/-- The states that a service comes to: at first nothing is remembered, and then it is asked about
one expression after another. -/
inductive Reached (ix : Index) : BindState → Prop where
  | start : Reached ix {}
  | resolve {st : BindState} (h : Reached ix st) (e : Expr) : Reached ix (ix.resolve e st).2
  | bind {st : BindState} (h : Reached ix st) (e : Expr) : Reached ix (ix.bind e st).2

theorem Reached.sound {ix : Index} (hix : ix.Sound) {st : BindState} (hst : ix.Reached st) :
    st.Sound ix := by
  induction hst with
  | start => exact BindState.sound_empty _
  | resolve _ e ih => exact (hix.keeps_resolve e _ ih).1
  | bind _ e ih => exact ((hix.queriesWithin_sound _).bind e _ ih).1

/-- A symbol lies outside the sources, is a namespace, or can be located: it belongs to a unit
which is found under its own name and one of whose declarations holds, at some depth, the type that
the symbol is contained in. -/
def Locates (ix : Index) (s : Symbol) : Prop :=
  s.kind = .external ∨ s.kind = .space ∨
    ∃ u t, ix.declaringUnit s = some u ∧ ix.unitNamed u.qualifiedName = some u
      ∧ t ∈ ix.types ∧ s.container = some t.number ∧ ∃ part ∈ u.parts, t.decl.Within part.decl

end Index

namespace Workspace

/-- The declarations `namespace A; class Root` with a method that calls one of a class nested in
it. -/
def nestedCall : Workspace :=
  let go : MemberDecl := { kind := .method, name := "Go" }
  let part : TypeDecl :=
    { keyword := .classType, name := "Part", members := [go], span := default,
      dotless := by decide }
  let target : Expr := .member ⟨none, 1⟩ (.ident ⟨none, 2⟩ "Part" [] none) "Go" [] false
  let call : Expr := .call ⟨none, 0⟩ target []
  let solve : MemberDecl := { kind := .method, name := "Solve", body := [call] }
  let root : TypeDecl :=
    { keyword := .classType, name := "Root", members := [solve], nested := [part], span := default,
      dotless := by decide }
  let space : NamespaceDecl := { name := "A", types := [root], span := default }
  { context := {}
    documents := [⟨.ofText "A.cs", { name := "P", root := {} },
      { usings := [], types := [], namespaces := [space], span := default }⟩]
    nextNode := 3 }

theorem index_locates (w : Workspace) {s : Symbol} (hs : s.Known w.index.toDeclarations) :
    w.index.Locates s := by
  rcases hs with hexternal | hspace | ⟨t, ht, hcontainer⟩
  · exact .inl hexternal
  · exact .inr (.inl hspace)
  · obtain ⟨u, hunit, hnamed, part, hpart, hwithin⟩ := w.index_declaringUnit ht hcontainer
    exact .inr (.inr ⟨u, t, hunit, hnamed, ht, hcontainer, part, hpart, hwithin⟩)

section

variable {m : Type → Type} [Monad m]

theorem mem_units_of_hasUnit (w : Workspace) {u : TypeUnit}
    (hu : (w.index.service : Service (Session m)).HasUnit u) : u ∈ w.index.units := by
  rcases hu with ⟨space, name, hu⟩ | ⟨symbol, hu⟩ | ⟨space, hu⟩
  · exact Index.mem_units_of_unitNamed hu
  · obtain ⟨name, hu⟩ := Index.unitNamed_of_declaringUnit hu
    exact Index.mem_units_of_unitNamed hu
  · exact (List.mem_filter.1 hu).1

/-- The service of a workspace is regular. -/
theorem index_regular (w : Workspace) : (w.index.service : Service (Session m)).Regular where
  distinct u v hu hv hname :=
    List.inj_on_of_nodup_map w.index_nodup_units (w.mem_units_of_hasUnit hu)
      (w.mem_units_of_hasUnit hv) hname
  housed u hu := by
    show w.index.enclosingSpace u = some u.space
    unfold Index.enclosingSpace
    rw [Index.unitNamed_qualifiedName w.index_nodup_units (w.mem_units_of_hasUnit hu)]
    simp
  named space name u hu := by
    simpa using List.find?_some hu

/-- The symbols that are collected from a unit can be located, and so bundling any root shows no
fault of the service: no two units of one name, no root in another namespace than its own, no
dependency without a namespace. -/
theorem symbols_located [LawfulMonad m] [MonadLog m] (w : Workspace) (c : Context)
    {st : BindState} (hst : w.index.Reached st) :
    (∀ u, (collect (w.index.service : Service (Session m)) c u).Ends
        (fun found => ∀ s ∈ found.symbols, w.index.Locates s) st)
      ∧ ∀ root stop,
        (bundle (w.index.service : Service (Session m)) c root stop).Ends Faultless st := by
  have hsound := hst.sound w.index_sound
  constructor
  · intro u
    refine ((w.index_sound.keeps_collect c u).ends hsound).mono fun r hr found hfound s hs => ?_
    exact w.index_locates (hr found hfound s hs)
  · intro root stop
    exact (w.index_regular.bundle c root stop).ends st

theorem symbols_located_nestedCall :
    ∃ st : BindState, nestedCall.index.Reached st
      ∧ (∀ u, (collect (nestedCall.index.service : Service (Session Logged)) {} u).Ends
          (fun found => ∀ s ∈ found.symbols, nestedCall.index.Locates s) st)
      ∧ ∀ root stop,
        (bundle (nestedCall.index.service : Service (Session Logged)) {} root stop).Ends
          Faultless st := by
  have hst : nestedCall.index.Reached _ := .resolve .start (.ident ⟨none, 2⟩ "Part" [] none)
  exact ⟨_, hst, symbols_located nestedCall {} hst⟩

end

end Workspace

end SourceBundle
