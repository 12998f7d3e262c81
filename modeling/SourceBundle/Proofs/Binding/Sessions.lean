/-
Sessions over a workspace. Expressions are numbered across all documents
of a workspace, which are read one after another, so that each has a
number of its own (`WellNumbered`). What is known of places then leads
from expressions of the workspace to others of it.

In such a workspace the answer to a settled question is the same
whatever was asked before.
-/
import SourceBundle.Proofs.Binding.Listed
import SourceBundle.Proofs.Binding.Settled
import SourceBundle.Proofs.Files.Loaded
import SourceBundle.Proofs.Parse.Numbering

namespace SourceBundle

open List

-- ===== visits

namespace Expr

theorem sizeOf_lt_of_mem_children {e c : Expr} (hc : c ∈ e.children) : sizeOf c < sizeOf e := by
  have hlist : ∀ {es : List Expr}, c ∈ es → sizeOf c < sizeOf es := sizeOf_lt_of_mem
  cases e <;> simp only [children, mem_append, mem_cons, not_mem_nil, or_false] at hc
  case member => subst hc; simp; omega
  case call =>
    rcases hc with rfl | hc
    · simp; omega
    · have := hlist hc; simp; omega
  case creation =>
    rcases hc with hc | hc
    · have := hlist hc; simp; omega
    · have := hlist hc; simp; omega
  case array => have := hlist hc; simp; omega
  case element =>
    rcases hc with rfl | hc
    · simp; omega
    · have := hlist hc; simp; omega
  case group => have := hlist hc; simp; omega
  case interpolated => have := hlist hc; simp; omega

/-- Induction on what stands inside an expression. -/
theorem inductionChildren {motive : Expr → Prop}
    (step : ∀ e, (∀ c ∈ e.children, motive c) → motive e) (e : Expr) : motive e :=
  step e fun c _ => inductionChildren step c
termination_by sizeOf e
decreasing_by exact sizeOf_lt_of_mem_children ‹_›

theorem visitsAll_append (parent : Option Expr) (es fs : List Expr) :
    visitsAll parent (es ++ fs) = visitsAll parent es ++ visitsAll parent fs := by
  induction es with
  | nil => rfl
  | cons e es ih =>
    rw [cons_append, visitsAll, visitsAll, ih, append_assoc]

theorem visits_eq (parent : Option Expr) (e : Expr) :
    e.visits parent = ⟨e, parent⟩ :: visitsAll (some e) e.children := by
  cases e <;> simp [visits, visitsAll, children, visitsAll_append]

theorem exists_of_mem_visitsAll {parent : Option Expr} {es : List Expr} {v : Visit}
    (hv : v ∈ visitsAll parent es) : ∃ e ∈ es, v ∈ e.visits parent := by
  induction es with
  | nil => cases hv
  | cons e es ih =>
    rcases mem_append.1 hv with hv | hv
    · exact ⟨e, mem_cons_self, hv⟩
    · obtain ⟨f, hf, hv⟩ := ih hv
      exact ⟨f, mem_cons_of_mem _ hf, hv⟩

/-- What is visited from expressions of a pool are expressions of the pool. -/
theorem mem_of_mem_visitsAll {pool : List Expr}
    (hclosed : ∀ e ∈ pool, ∀ c ∈ e.children, c ∈ pool) {parent : Option Expr} {es : List Expr}
    (hes : ∀ e ∈ es, e ∈ pool) (hparent : ∀ p ∈ parent, p ∈ pool) {v : Visit}
    (hv : v ∈ visitsAll parent es) : v.expr ∈ pool ∧ ∀ p ∈ v.parent, p ∈ pool := by
  have hvisits : ∀ (e : Expr) (parent : Option Expr), e ∈ pool → (∀ p ∈ parent, p ∈ pool) →
      ∀ v ∈ e.visits parent, v.expr ∈ pool ∧ ∀ p ∈ v.parent, p ∈ pool := by
    intro e
    induction e using inductionChildren with
    | step e ih =>
      intro parent he hparent v hv
      rw [visits_eq] at hv
      rcases mem_cons.1 hv with rfl | hv
      · exact ⟨he, hparent⟩
      · obtain ⟨c, hc, hv⟩ := exists_of_mem_visitsAll hv
        refine ih c hc (some e) (hclosed e he c hc) ?_ v hv
        rintro p ⟨⟩
        exact he
  obtain ⟨e, he, hv⟩ := exists_of_mem_visitsAll hv
  exact hvisits e parent (hes e he) hparent v hv

end Expr

-- ===== places

/-- What is known of places leads to expressions of a pool. -/
structure SiteTable.Pooled (pool : List Expr) (st : SiteTable) : Prop where
  parents : ∀ (node : Nat) (p : Expr), st.parents[node]? = some p → p ∈ pool
  lambdaSources : ∀ (node : Nat) (s : Expr), st.lambdaSources[node]? = some s → s ∈ pool
  locals : ∀ (node : Nat) (site : Site), st.sites[node]? = some site →
    ∀ symbols ∈ site.scope, ∀ l ∈ symbols, ∀ d ∈ l.decl, ∀ init ∈ d.init, init ∈ pool

namespace SiteTable

/-- The locals of a site have initializers of a pool. -/
def LocalsIn (pool : List Expr) (site : Site) : Prop :=
  ∀ symbols ∈ site.scope, ∀ l ∈ symbols, ∀ d ∈ l.decl, ∀ init ∈ d.init, init ∈ pool

theorem mem_of_mem_lambdaSourcesOf {pool : List Expr}
    (hclosed : ∀ e ∈ pool, ∀ c ∈ e.children, c ∈ pool) {declarators : List Nat} {e : Expr}
    (he : e ∈ pool) {entry : Nat × Expr} (hentry : entry ∈ lambdaSourcesOf declarators e) :
    entry.2 ∈ pool := by
  unfold lambdaSourcesOf at hentry
  split at hentry
  · obtain ⟨name, -, hname⟩ := mem_filterMap.1 hentry
    split at hname
    · cases hname
      exact hclosed _ (hclosed _ he _ mem_cons_self) _ mem_cons_self
    · cases hname
  · cases hentry

theorem localsIn_type (pool : List Expr) (t : DeclaredType) :
    LocalsIn pool ⟨t, none, t.decl.scope⟩ := by
  intro symbols hsymbols l hl d hd
  rcases mem_singleton.1 hsymbols with rfl
  obtain ⟨p, -, rfl⟩ := mem_map.1 hl
  cases hd

theorem localsIn_member {pool : List Expr} (t : DeclaredType) {m : MemberDecl}
    (hm : ∀ e ∈ m.roots, e ∈ pool) : LocalsIn pool ⟨t, some m, m.scope t.decl⟩ := by
  intro symbols hsymbols l hl d hd init hinit
  rcases mem_cons.1 hsymbols with rfl | hsymbols
  · rcases mem_append.1 hl with hl | hl
    · obtain ⟨p, -, rfl⟩ := mem_map.1 hl
      cases hd
    · obtain ⟨d', hd', rfl⟩ := mem_map.1 hl
      cases hd
      exact hm init (mem_append_right _
        (mem_flatMap.2 ⟨d, hd', Option.mem_toList.2 hinit⟩))
  · exact localsIn_type pool t symbols hsymbols l hl d hd init hinit

namespace Pooled

variable {pool : List Expr} (hclosed : ∀ e ∈ pool, ∀ c ∈ e.children, c ∈ pool)
  {st : SiteTable} {site : Site}

section

include hclosed

theorem addVisit (h : st.Pooled pool) (hsite : LocalsIn pool site) (declarators : List Nat)
    {v : Visit} (hv : v.expr ∈ pool ∧ ∀ p ∈ v.parent, p ∈ pool) :
    (st.addVisit site declarators v).Pooled pool where
  parents := by
    unfold SiteTable.addVisit
    simp only
    split
    · exact h.parents
    · next p hp => exact forall_getElem?_insert h.parents (hv.2 p hp)
  lambdaSources := by
    refine List.foldlRecOn (motive := fun table : Std.TreeMap Nat Expr =>
      ∀ (node : Nat) (s : Expr), table[node]? = some s → s ∈ pool) _ _ h.lambdaSources
      fun table htable entry hentry => ?_
    exact forall_getElem?_insert htable (mem_of_mem_lambdaSourcesOf hclosed hv.1 hentry)
  locals := forall_getElem?_insert h.locals hsite

theorem addExprs (h : st.Pooled pool) (hsite : LocalsIn pool site) (declarators : List Nat)
    {roots : List Expr} (hroots : ∀ e ∈ roots, e ∈ pool) :
    (st.addExprs site declarators roots).Pooled pool :=
  List.foldlRecOn _ _ h fun _ hst _ hv => hst.addVisit hclosed hsite declarators
    (Expr.mem_of_mem_visitsAll hclosed hroots (fun p hp => absurd hp (Option.not_mem_none p)) hv)

end

theorem addTarget (h : st.Pooled pool) (site : Site) (type : TypeRef) (e : Expr) :
    (st.addTarget site type e).Pooled pool := by
  unfold SiteTable.addTarget
  split
  · exact ⟨h.parents, h.lambdaSources, h.locals⟩
  · exact h

theorem addTargets (h : st.Pooled pool) (site : Site) (m : MemberDecl) :
    (st.addTargets site m).Pooled pool := by
  unfold SiteTable.addTargets
  refine List.foldlRecOn _ _ ?_ fun st hst l _ => ?_
  · split
    · split
      · exact List.foldlRecOn _ _ h fun _ hst e _ => hst.addTarget site _ e
      · exact h
    · exact h
  · split
    · exact hst.addTarget site _ _
    · exact hst

include hclosed

theorem addMember (h : st.Pooled pool) (t : DeclaredType) {m : MemberDecl}
    (hm : ∀ e ∈ m.roots, e ∈ pool) : (st.addMember t m).Pooled pool :=
  (h.addExprs hclosed (localsIn_member t hm) _
    fun e he => hm e (mem_append_left _ he)).addTargets _ m

theorem addType (h : st.Pooled pool) {t : DeclaredType} (ht : ∀ e ∈ t.decl.roots, e ∈ pool) :
    (st.addType t).Pooled pool := by
  refine List.foldlRecOn _ _ (h.addExprs hclosed (localsIn_type pool t) []
    fun e he => ht e (mem_append_left _ he)) fun _ hst m hm => hst.addMember hclosed t ?_
  exact fun e he => ht e (mem_append_right _ (mem_flatMap.2 ⟨m, hm, he⟩))

theorem ofTypes {types : List DeclaredType} (htypes : ∀ t ∈ types, ∀ e ∈ t.decl.roots, e ∈ pool) :
    (SiteTable.ofTypes types).Pooled pool := by
  refine List.foldlRecOn _ _ ⟨fun node p hp => ?_, fun node s hs => ?_, fun node site hsite => ?_⟩
    fun _ hst t ht => hst.addType hclosed (htypes t ht)
  · simp at hp
  · simp at hs
  · simp at hsite

end Pooled

end SiteTable

-- ===== workspaces

theorem TypeDecl.inside_of_mem_family {d e : TypeDecl} (he : e ∈ d.family) : e.Inside d := by
  have hfamilies : ∀ {ds : List TypeDecl}, e ∈ families ds → ∃ d ∈ ds, e ∈ d.family := by
    intro ds he
    induction ds with
    | nil => cases he
    | cons d ds ih =>
      rcases mem_append.1 he with he | he
      · exact ⟨d, mem_cons_self, he⟩
      · obtain ⟨d', hd', he⟩ := ih he
        exact ⟨d', mem_cons_of_mem _ hd', he⟩
  induction d using TypeDecl.inductionNested with
  | step d ih =>
    rw [family_eq] at he
    rcases mem_cons.1 he with rfl | he
    · exact .self
    · obtain ⟨inner, hinner, he⟩ := hfamilies he
      exact .nested hinner (ih inner hinner he)

theorem NamespaceDecl.declares_of_mem_entries {n : NamespaceDecl} {p : Place} {en : UnitEntry}
    (hen : en ∈ n.entries p) {d : TypeDecl} (hd : d ∈ en.decl.family) : n.Declares d := by
  induction n using NamespaceDecl.inductionInside generalizing p with
  | step n ih =>
    rw [entries_eq] at hen
    rcases mem_append.1 hen with hen | hen
    · obtain ⟨e, he, rfl⟩ := mem_map.1 hen
      exact .type he (TypeDecl.inside_of_mem_family hd)
    · obtain ⟨inner, hinner, hen⟩ := exists_of_mem_entriesInside hen
      exact .inner hinner (ih inner hinner hen)

theorem Document.declares_of_mem_entries {doc : Document} {globals : List UsingDirective}
    {en : UnitEntry} (hen : en ∈ doc.entries globals) {d : TypeDecl} (hd : d ∈ en.decl.family) :
    doc.source.Declares d := by
  rcases mem_append.1 hen with hen | hen
  · obtain ⟨e, he, rfl⟩ := mem_map.1 hen
    exact .type he (TypeDecl.inside_of_mem_family hd)
  · obtain ⟨n, hn, hen⟩ := NamespaceDecl.exists_of_mem_entriesInside hen
    exact .inner hn (NamespaceDecl.declares_of_mem_entries hen hd)

namespace Workspace

/-- The expressions of a workspace: those that stand in its declarations, and all inside them. -/
def expressions (w : Workspace) : List Expr :=
  Expr.descendants ((w.entries.flatMap (·.decl.family)).flatMap (·.roots))

/-- The expressions of all documents have numbers of their own, which are in use. -/
def WellNumbered (w : Workspace) : Prop :=
  ∃ pool, OwnNumbers pool w.nextNode
    ∧ ∀ doc ∈ w.documents, ∀ e, doc.source.Holds e → e ∈ pool

/-- Every declared type is that of an entry or nested in one. -/
theorem mem_families_of_mem_types (w : Workspace) {t : DeclaredType} (ht : t ∈ w.index.types) :
    t.decl ∈ w.entries.flatMap (·.decl.family) := by
  obtain ⟨vs, hentries, haccounts⟩ := w.exists_accounts
  have hmem : (t.decl, t.outermost.entry) ∈ (listed vs).flatMap fun e => e.decl.family.map (·, e) :=
    haccounts.types_eq ▸ mem_map_of_mem ht
  obtain ⟨en, hen, hpair⟩ := mem_flatMap.1 hmem
  obtain ⟨d, hd, heq⟩ := mem_map.1 hpair
  cases heq
  refine mem_flatMap.2 ⟨_, ?_, hd⟩
  rw [← hentries]
  exact (filter_sublist.map _).subset hen

/-- The expressions of a workspace have numbers of their own, and places lead from one to
another. -/
theorem WellNumbered.exists_numbered {w : Workspace} (hw : w.WellNumbered) :
    ∃ pool, w.index.Numbered pool ∧ ∀ e ∈ w.expressions, e ∈ pool := by
  obtain ⟨pool, hpool, hholds⟩ := hw
  have hroots : ∀ d ∈ w.entries.flatMap (·.decl.family), ∀ e ∈ d.roots, e ∈ pool := by
    intro d hd e he
    obtain ⟨en, hen, hd⟩ := mem_flatMap.1 hd
    obtain ⟨doc, hdoc, hen⟩ := mem_flatMap.1 hen
    exact hholds doc hdoc e ⟨d, Document.declares_of_mem_entries hen hd, he⟩
  have hplaces : w.index.places.Pooled pool :=
    .ofTypes hpool.children fun t ht => hroots t.decl (w.mem_families_of_mem_types ht)
  refine ⟨pool, ⟨⟨hpool.children, hplaces.parents, hplaces.lambdaSources, hplaces.locals⟩,
    hpool.node_inj, hpool.below⟩, fun e he => ?_⟩
  obtain ⟨v, hv, rfl⟩ := mem_map.1 he
  refine (Expr.mem_of_mem_visitsAll hpool.children (fun e he => ?_)
    (fun p hp => absurd hp (Option.not_mem_none p)) hv).1
  obtain ⟨d, hd, he⟩ := mem_flatMap.1 he
  exact hroots d hd e he

-- ===== loading

/-- A document that is read next has numbers that are not in use. -/
theorem grows_wellNumbered : Grows WellNumbered where
  beside hw _ _ := hw
  project hw _ := hw
  document hw _ hparse path := by
    obtain ⟨pool, hpool, hholds⟩ := hw
    obtain ⟨pool', hsubset, hpool', hfile⟩ := parseTokens_ownNumbers hpool hparse
    refine ⟨pool', hpool', forall_mem_append.2 ⟨fun doc hdoc e he => ?_, ?_⟩⟩
    · exact hsubset (hholds doc hdoc e he)
    · exact forall_mem_singleton.2 hfile

theorem wellNumbered_of_documents_nil {w : Workspace} (hw : w.documents = []) :
    w.WellNumbered := by
  refine ⟨[], ⟨forall_mem_nil _, forall_mem_nil _, forall_mem_nil _⟩, ?_⟩
  rw [hw]
  exact forall_mem_nil _

section

variable {m : Type → Type} [Monad m] [LawfulMonad m] [MonadLog m]

theorem wellNumbered_ofSources (c : Context) (sources : List (String × String))
    (implicitUsings : Bool) :
    Always WellNumbered (ofSources c sources implicitUsings : m Workspace) :=
  grows_wellNumbered.ofSources (wellNumbered_of_documents_nil rfl) sources

theorem wellNumbered_load [MonadFiles m] (c : Context) (locator : String) :
    Always (fun r : Except LoadError Workspace => ∀ w, r = .ok w → w.WellNumbered)
      (load c locator : m (Except LoadError Workspace)) :=
  grows_wellNumbered.load (wellNumbered_of_documents_nil rfl) locator

end

-- ===== transparency

/-- What was asked before does not change the answer to a settled question: it is the one that a
session starts with, and the one that is worked out without memory. -/
structure Transparent (w : Workspace) (st : BindState) (e : Expr) : Prop where
  bind : ∀ n b, (w.index.rounds n).bind e = some b →
    (w.index.bind e st).1 = .ok b ∧ (w.index.bind e {}).1 = .ok b
  resolve : ∀ n r c, (w.index.rounds n).resolve e = some (r, c) →
    (w.index.resolve e st).1 = .ok r ∧ (w.index.resolve e {}).1 = .ok r

/-- If the types of each name agree in whether they have a base outside the sources, the answers to
settled questions are the same in all sessions. -/
theorem WellNumbered.transparent {w : Workspace} (hw : w.WellNumbered) (huniform : w.index.Uniform)
    {st : BindState} (hst : w.index.Asked w.expressions st) {e : Expr} (he : e ∈ w.expressions) :
    w.Transparent st e := by
  obtain ⟨pool, hpool, hsubset⟩ := hw.exists_numbered
  have hix := w.index_sound
  have hst := hst.mono hsubset
  have he := hsubset e he
  constructor
  · intro n b hfound
    exact ⟨hst.bind_eq hix huniform hpool he hfound,
      Index.Asked.start.bind_eq hix huniform hpool he hfound⟩
  · intro n r c hfound
    exact ⟨hst.resolve_eq hix huniform hpool he hfound,
      Index.Asked.start.resolve_eq hix huniform hpool he hfound⟩

/-- In every workspace that is made of texts or loaded from files, if the types of each name agree
in whether they have a base outside the sources, the answers to settled questions are the same in
all sessions. -/
theorem sessions_agree (c : Context) :
    (∀ {m : Type → Type} [Monad m] [LawfulMonad m] [MonadLog m] (sources : List (String × String))
      (implicitUsings : Bool),
      Always (fun w : Workspace => w.index.Uniform →
        ∀ st, w.index.Asked w.expressions st → ∀ e ∈ w.expressions, w.Transparent st e)
        (ofSources c sources implicitUsings : m Workspace))
    ∧ ∀ {m : Type → Type} [Monad m] [LawfulMonad m] [MonadLog m] [MonadFiles m] (locator : String),
      Always (fun r : Except LoadError Workspace => ∀ w, r = .ok w → w.index.Uniform →
        ∀ st, w.index.Asked w.expressions st → ∀ e ∈ w.expressions, w.Transparent st e)
        (load c locator : m (Except LoadError Workspace)) := by
  constructor
  · intro m _ _ _ sources implicitUsings
    refine (wellNumbered_ofSources c sources implicitUsings).mono
      fun w hw huniform st hst e he => ?_
    exact hw.transparent huniform hst he
  · intro m _ _ _ _ locator
    refine (wellNumbered_load c locator).mono fun r hr w heq huniform st hst e he => ?_
    exact (hr w heq).transparent huniform hst he

-- ===== two sessions

/-- The text of a type of some sort and a record of the same name, and of a class that looks for a
member in both. -/
def twoAritiesSources (sort : String) : List (String × String) :=
  [("A.cs", "namespace A \x7b " ++ sort ++ " E \x7b \x7d record E<T> \x7b \x7d "
    ++ "class R \x7b int M() => E.Q + E<int>.Q; \x7d \x7d")]

def twoArities (sort : String) : Workspace :=
  Id.run (ofSources {} (twoAritiesSources sort))

/-- Whether what an expression refers to is settled by the third round. -/
def isSettled (w : Workspace) (f : Expr) : Bool :=
  ((w.index.rounds 3).resolve f).isSome

theorem twoRecords_settled : (twoArities "record").index.Uniform
    ∧ ((twoArities "record").expressions[2]?.any (twoArities "record").isSettled) = true := by
  decide +kernel

/-- Two records agree in that they have a base outside the sources, so a settled question about the
second has the answer that it has at the start, after any question about the workspace. -/
theorem sessions_agree_twoArities :
    (twoArities "record").index.Uniform
      ∧ ∃ f r c, (twoArities "record").expressions[2]? = some f
        ∧ ((twoArities "record").index.rounds 3).resolve f = some (r, c)
        ∧ ∀ e ∈ (twoArities "record").expressions,
            ((twoArities "record").index.resolve f
              ((twoArities "record").index.resolve e {}).2).1 = .ok r
            ∧ ((twoArities "record").index.resolve f {}).1 = .ok r := by
  have hagree := always_id_iff.1
    ((sessions_agree {}).1 (m := Id) (twoAritiesSources "record") false)
  obtain ⟨huniform, hsettled⟩ := twoRecords_settled
  obtain ⟨f, hf, hfound⟩ := (Option.any_eq_true _ _).1 hsettled
  obtain ⟨⟨r, c⟩, hfound⟩ := Option.isSome_iff_exists.1 hfound
  refine ⟨huniform, f, r, c, hf, hfound, fun e he => ?_⟩
  exact (hagree huniform _ (.resolve .start he) f (mem_of_getElem? hf)).resolve 3 r c hfound

/-- A local whose initializer refers to the local itself. -/
def selfReference : Workspace :=
  Id.run (ofSources {} [("A.cs", "namespace A \x7b class R \x7b R F(R a, int b) => a; "
    ++ "R F(int a, R b) => b; void M() \x7b var x = F(x, 1); x.M(); \x7d \x7d \x7d")])

/-- Whether an answer says what was found. -/
def isFound : Except BindError (Option Resolution) → Bool
  | .ok (some (.resolved _)) => true
  | _ => false

/-- Whether something is found for an expression of a workspace at the start of a session, but not
after a question about another one. -/
def isLost (w : Workspace) (e f : Expr) : Bool :=
  isFound (w.index.resolve f {}).1 && !isFound (w.index.resolve f (w.index.resolve e {}).2).1

theorem ne_of_isLost {w : Workspace} {e f : Expr} (h : w.isLost e f = true) :
    (w.index.resolve f (w.index.resolve e {}).2).1 ≠ (w.index.resolve f {}).1 := by
  intro heq
  rw [isLost, heq, Bool.and_not_self] at h
  cases h

theorem twoArities_isLost : ((twoArities "class").expressions[0]?.any fun e =>
    (twoArities "class").expressions[2]?.any fun f =>
      (twoArities "class").isSettled f && (twoArities "class").isLost e f) = true := by
  decide +kernel

theorem selfReference_isLost : selfReference.index.Uniform
    ∧ (selfReference.expressions[4]?.any fun e =>
      selfReference.expressions[8]?.any fun f => selfReference.isLost e f) = true := by
  decide +kernel

/-- Answers depend on what was asked before if the types of a name do not agree, be the question
settled; and if a question leads back to itself, be the types in agreement. -/
theorem answers_differ :
    (∃ e ∈ (twoArities "class").expressions, ∃ f ∈ (twoArities "class").expressions,
      (∃ answer, ((twoArities "class").index.rounds 3).resolve f = some answer)
        ∧ ((twoArities "class").index.resolve f ((twoArities "class").index.resolve e {}).2).1
          ≠ ((twoArities "class").index.resolve f {}).1)
    ∧ selfReference.index.Uniform
    ∧ ∃ e ∈ selfReference.expressions, ∃ f ∈ selfReference.expressions,
        (selfReference.index.resolve f (selfReference.index.resolve e {}).2).1
          ≠ (selfReference.index.resolve f {}).1 := by
  obtain ⟨huniform, hlost⟩ := selfReference_isLost
  refine ⟨?_, huniform, ?_⟩
  · obtain ⟨e, he, hlost⟩ := (Option.any_eq_true _ _).1 twoArities_isLost
    obtain ⟨f, hf, hlost⟩ := (Option.any_eq_true _ _).1 hlost
    obtain ⟨hsettled, hlost⟩ := Bool.and_eq_true_iff.1 hlost
    exact ⟨e, mem_of_getElem? he, f, mem_of_getElem? hf,
      Option.isSome_iff_exists.1 hsettled, ne_of_isLost hlost⟩
  · obtain ⟨e, he, hlost⟩ := (Option.any_eq_true _ _).1 hlost
    obtain ⟨f, hf, hlost⟩ := (Option.any_eq_true _ _).1 hlost
    exact ⟨e, mem_of_getElem? he, f, mem_of_getElem? hf, ne_of_isLost hlost⟩

end Workspace

end SourceBundle
