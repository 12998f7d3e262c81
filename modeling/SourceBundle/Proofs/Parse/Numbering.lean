/-
The expressions of a source file have numbers of their own. What a
member, a declaration or a namespace holds is read into the pool of the
parse, and so is what a whole file holds (`parseTokens_ownNumbers`). The
pool may start with the expressions of files read before, so that
numbers are told apart across a workspace.
-/
import SourceBundle.Proofs.Parse.Occurrence
import SourceBundle.Proofs.Parse.Pool

set_option synthInstance.maxSize 100000

namespace SourceBundle

open List Parse

variable {given : Expr → Prop}

/-- The expressions that a reader makes have numbers of their own. -/
abbrev Parse.Numbers {α : Type} [Holder α] (given : Expr → Prop) (p : Parse α) : Prop :=
  Tracks ParseState.Pooled given p

-- ===== members

/-- The expressions that stand directly in a member. -/
def MemberDecl.roots (m : MemberDecl) : List Expr :=
  m.params.flatMap (·.default) ++ m.body ++ m.locals.flatMap (·.init.toList)

/-- The expressions that stand directly in a type. -/
def TypeDecl.roots (d : TypeDecl) : List Expr :=
  d.baseArgs ++ d.params.flatMap (·.default) ++ d.members.flatMap (·.roots)

instance : Holder MemberDecl := ⟨fun m e => e ∈ m.roots⟩

theorem held_of_mem_flatMap_default {params : List Param} {e : Expr}
    (he : e ∈ params.flatMap (·.default)) : held params e :=
  have ⟨p, hp, he⟩ := mem_flatMap.1 he
  ⟨p, hp, e, he, rfl⟩

instance Among.member {kind name type params typeParams modifiers body locals span}
    [hparams : Among (held params) given] [hbody : Among (held body) given]
    [hlocals : Among (held locals) given] : Among (held (MemberDecl.mk kind name type params
      typeParams modifiers body locals span)) given where
  sub e he := by
    rcases mem_append.1 he with he | he
    · rcases mem_append.1 he with he | he
      · exact hparams.sub e (held_of_mem_flatMap_default he)
      · exact hbody.sub e ⟨e, he, rfl⟩
    · obtain ⟨l, hl, he⟩ := mem_flatMap.1 he
      exact hlocals.sub e ⟨l, hl, e, Option.mem_toList.1 he, rfl⟩

instance numbers_block : Numbers given block := by
  have := fun n => (bodiesTrack (I := ParseState.Pooled) n).block given
  unfold block; infer_instance

instance numbers_argumentList (closer : Kind) : Numbers given (argumentList closer) := by
  have := fun n => (bodiesTrack (I := ParseState.Pooled) n).argumentList given closer
  unfold argumentList; infer_instance

instance numbers_expressionBody : Numbers given expressionBody := by
  unfold expressionBody; infer_instance

instance numbers_memberBody : Numbers given memberBody := by unfold memberBody; infer_instance

instance numbers_propertyBody : Numbers given propertyBody := by
  unfold propertyBody; infer_instance

instance numbers_constructorCall : Numbers given constructorCall := by
  have hword : ∀ start : Span, Numbers given (constructorWord start) := by
    intro start
    refine .plain fun tok => ?_
    split
    · exact .make .thisRef fun _ => inferInstance
    · exact .make .baseRef fun _ => inferInstance
    · infer_instance
  unfold constructorCall
  refine .plain fun isCall => ?_
  split
  · infer_instance
  · exact .plain fun start => .bind inferInstance fun target => .bind inferInstance fun args =>
      .makeFrom (.call · target args) fun _ => inferInstance

instance numbers_indexer (start : Span) (modifiers : List String) (type : TypeRef) :
    Numbers given (indexer start modifiers type) := by
  unfold indexer; infer_instance

instance numbers_fields (start : Span) (kind : MemberKind) (modifiers : List String)
    (type : TypeRef) (name : String) : Numbers given (fields start kind modifiers type name) := by
  have hwithin : ∀ (n : Nat) (given : Expr → Prop) (name : String),
      Numbers given (fieldsWithin start kind modifiers type n name) := by
    intro n
    induction n with
    | zero => exact fun _ _ => .of_exhausted
    | succ n ih =>
      intro given name
      unfold fieldsWithin
      infer_instance
  unfold fields; infer_instance

instance numbers_typedMember (start : Span) (modifiers : List String) :
    Numbers given (typedMember start modifiers) := by
  refine .plain fun isEvent => .plain fun type => .plain fun isOperator => ?_
  split
  · infer_instance
  refine .plain fun isIndexer => ?_
  split
  · infer_instance
  refine .plain fun first => .plain fun name => ?_
  split <;> infer_instance

instance numbers_bareMember (typeName : String) : Numbers given (bareMember typeName) := by
  unfold bareMember; infer_instance

section

variable {α : Type} [Holder α] {p : Parse α} [hp : Numbers given p]
include hp

/-- What is read holds the initializers of the locals that are declared in it. -/
instance numbers_withLocals : Numbers given (withLocals p) where
  run {s s' pool r} hs hgiven hrun := by
    obtain ⟨s₀, w, hget, hrun⟩ := bind_eq_ok hrun
    cases hget
    obtain ⟨_, w, hset, hrun⟩ := bind_eq_ok hrun
    cases hset
    obtain ⟨a, w, ha, hrun⟩ := bind_eq_ok hrun
    obtain ⟨s₁, w', hget, hrun⟩ := bind_eq_ok hrun
    cases hget
    obtain ⟨_, w', hmodify, hrun⟩ := bind_eq_ok hrun
    cases hmodify
    cases hrun
    have hcleared : ParseState.Pooled pool { s with locals := #[] } :=
      ⟨hs.toOwnNumbers, fun l hl => absurd hl (Array.not_mem_empty l)⟩
    obtain ⟨pool', hsubset, hw, hheld⟩ := hp.run hcleared hgiven ha
    refine ⟨pool', hsubset, ⟨hw.toOwnNumbers, fun l hl init hinit => ?_⟩, ?_⟩
    · exact hsubset (hs.locals l hl init hinit)
    · rintro e (he | ⟨l, hl, init, hinit, rfl⟩)
      · exact hheld e he
      · exact hw.locals l (Array.mem_toList_iff.1 hl) _ hinit

instance numbers_apart : Numbers given (apart p) := by unfold apart; infer_instance

end

instance Among.membersWith {members : List MemberDecl} {locals : List LocalDecl}
    [hmembers : Among (held members) given] [hlocals : Among (held locals) given] :
    Among (held (members.map fun m => { m with locals })) given where
  sub := by
    rintro e ⟨m', hm', he⟩
    obtain ⟨m, hm, rfl⟩ := mem_map.1 hm'
    rcases mem_append.1 he with he | he
    · exact hmembers.sub e ⟨m, hm, mem_append_left _ he⟩
    · obtain ⟨l, hl, he⟩ := mem_flatMap.1 he
      exact hlocals.sub e ⟨l, hl, e, Option.mem_toList.1 he, rfl⟩

instance numbers_member (typeName : String) : Numbers given (member typeName) := by
  unfold member; infer_instance

instance numbers_enumMembers : Numbers given enumMembers := by
  have hwithin : ∀ (n : Nat) (given : Expr → Prop), Numbers given (enumMembersWithin n) := by
    intro n
    induction n with
    | zero => exact fun _ => .of_exhausted
    | succ n ih =>
      intro given
      unfold enumMembersWithin
      infer_instance
  unfold enumMembers; infer_instance

-- ===== declarations

/-- The expressions of a declaration and of those nested in it. -/
def TypeDecl.Holds (d : TypeDecl) (e : Expr) : Prop :=
  ∃ inner : TypeDecl, inner.Inside d ∧ e ∈ inner.roots

instance : Holder TypeDecl := ⟨TypeDecl.Holds⟩
instance : Holder TypeHeader := ⟨fun h e => held h.baseArgs e ∨ held h.params e⟩

instance Among.header {start modifiers keyword name typeParams params baseTypes baseArgs dotless}
    [hparams : Among (held params) given] [hargs : Among (held baseArgs) given] :
    Among (held (TypeHeader.mk start modifiers keyword name typeParams params baseTypes baseArgs
      dotless)) given where
  sub e he := he.elim (hargs.sub e) (hparams.sub e)

instance Among.declaration {h : TypeHeader} {body : List MemberDecl × List TypeDecl} {span : Span}
    {text : String} [hheader : Among (held h) given] [hbody : Among (held body) given] :
    Among (held (h.declaration body span text)) given where
  sub := by
    rintro e ⟨inner, hinner, he⟩
    cases hinner with
    | self =>
      rcases mem_append.1 he with he | he
      · refine hheader.sub e ((mem_append.1 he).imp (fun he => ⟨e, he, rfl⟩) ?_)
        exact held_of_mem_flatMap_default
      · exact hbody.sub e (.inl (mem_flatMap.1 he))
    | nested hmem hinner => exact hbody.sub e (.inr ⟨_, hmem, inner, hinner, he⟩)

instance numbers_baseList : Numbers given baseList := by unfold baseList; infer_instance

instance numbers_typeHeader (start : Span) (modifiers : List String) :
    Numbers given (typeHeader start modifiers) := by
  unfold typeHeader; infer_instance

instance numbers_typeOpening : Numbers given typeOpening := by unfold typeOpening; infer_instance

section

variable {inner : Parse (List MemberDecl × List TypeDecl)} [Numbers given inner]

instance numbers_typeInner (keyword : TypeKeyword) : Numbers given (typeInner keyword inner) := by
  unfold typeInner; infer_instance

instance numbers_typeMembers (keyword : TypeKeyword) :
    Numbers given (typeMembers keyword inner) := by
  unfold typeMembers typeBlock; infer_instance

end

/-- The readers of type declarations number what they read. -/
structure DeclarationsNumber (source : List Char) (n : Nat) : Prop where
  declaration : ∀ given, Numbers given (typeDeclarationWithin source n)
  body : ∀ given name, Numbers given (typeBodyWithin source n name)

theorem declarationsNumber (source : List Char) : ∀ n, DeclarationsNumber source n
  | 0 => ⟨fun _ => .of_exhausted, fun _ _ => .of_exhausted⟩
  | n + 1 => by
    have ⟨_, _⟩ := declarationsNumber source n
    constructor
    case declaration =>
      intro given
      unfold typeDeclarationWithin typeFrom typeRest
      infer_instance
    case body =>
      intro given name
      unfold typeBodyWithin
      infer_instance

-- ===== files

/-- The expressions of a namespace. -/
def NamespaceDecl.Holds (n : NamespaceDecl) (e : Expr) : Prop :=
  ∃ d : TypeDecl, n.Declares d ∧ e ∈ d.roots

/-- The expressions of a source file. -/
def SourceFile.Holds (file : SourceFile) (e : Expr) : Prop :=
  ∃ d : TypeDecl, file.Declares d ∧ e ∈ d.roots

instance : Holder NamespaceDecl := ⟨NamespaceDecl.Holds⟩
instance : Holder NamespaceBody := ⟨fun b e => held b.types e ∨ held b.namespaces e⟩
instance : Holder SourceFile := ⟨SourceFile.Holds⟩

namespace Among

variable {P : Expr → Prop} {types : List TypeDecl} {namespaces : List NamespaceDecl}
  [htypes : Among (held types) given] [hnamespaces : Among (held namespaces) given]

instance namespaceBody {usings} :
    Among (held (NamespaceBody.mk usings types namespaces)) given where
  sub e he := he.elim (htypes.sub e) (hnamespaces.sub e)

instance namespaceDecl {name usings isFileScoped span} :
    Among (held (NamespaceDecl.mk name usings types namespaces isFileScoped span)) given where
  sub := by
    rintro e ⟨d, hd, he⟩
    cases hd with
    | type hmem hinside => exact htypes.sub e ⟨_, hmem, d, hinside, he⟩
    | inner hmem hdeclares => exact hnamespaces.sub e ⟨_, hmem, d, hdeclares, he⟩

instance sourceFile {usings span} :
    Among (held (SourceFile.mk usings types namespaces span)) given where
  sub := by
    rintro e ⟨d, hd, he⟩
    cases hd with
    | type hmem hinside => exact htypes.sub e ⟨_, hmem, d, hinside, he⟩
    | inner hmem hdeclares => exact hnamespaces.sub e ⟨_, hmem, d, hdeclares, he⟩

omit htypes hnamespaces

instance of_namespaceBody {b : NamespaceBody}
    [h : Among P (Either (held b.types) (Either (held b.namespaces) given))] :
    Among P (Either (held b) given) where
  sub e he := or_assoc.2 (h.sub e he)

end Among

instance numbers_typeDeclaration (source : List Char) :
    Numbers given (typeDeclaration source) := by
  have := fun n => (declarationsNumber source n).declaration given
  unfold typeDeclaration; infer_instance

instance numbers_skipStatement : Numbers given skipStatement := by
  have hitem : ∀ given, Numbers given skipItem := by
    intro given
    have := fun n => (bodiesTrack (I := ParseState.Pooled) n).item given
    have := fun n => (bodiesTrack (I := ParseState.Pooled) n).localOf
    unfold skipItem item localDeclaration
    infer_instance
  have hwithin : ∀ (n : Nat) (given : Expr → Prop), Numbers given (skipStatementWithin n) := by
    intro n
    induction n with
    | zero => exact fun _ => .of_exhausted
    | succ n ih =>
      intro given
      unfold skipStatementWithin
      infer_instance
  unfold skipStatement; infer_instance

/-- The readers of namespaces number what they read. -/
structure NamespacesNumber (source : List Char) (n : Nat) : Prop where
  body : ∀ given braced topLevel, Numbers given (namespaceBodyWithin source n braced topLevel)
  declaration : ∀ given, Numbers given (namespaceWithin source n)

theorem namespacesNumber (source : List Char) : ∀ n, NamespacesNumber source n
  | 0 => ⟨fun _ _ _ => .of_exhausted, fun _ => .of_exhausted⟩
  | n + 1 => by
    have ⟨_, _⟩ := namespacesNumber source n
    constructor
    case body =>
      intro given braced topLevel
      unfold namespaceBodyWithin
      infer_instance
    case declaration =>
      intro given
      unfold namespaceWithin namespaceContent bracedNamespace
      infer_instance

instance numbers_sourceFile (source : List Char) : Numbers given (sourceFile source) := by
  have := fun n => (namespacesNumber source n).body given
  unfold sourceFile; infer_instance

/-- The expressions of a source have numbers of their own, apart from those that were in use. -/
theorem parseTokens_ownNumbers {source : List Char} {tokens : List Token} {pool : List Expr}
    {n n' : Nat} {file : SourceFile} (hpool : OwnNumbers pool n)
    (hparse : parseTokens source tokens n = .ok (file, n')) :
    ∃ pool', pool ⊆ pool' ∧ OwnNumbers pool' n' ∧ ∀ e, file.Holds e → e ∈ pool' := by
  unfold parseTokens at hparse
  cases hrun : sourceFile (stripMark source) (.ofTokens tokens n) with
  | error e =>
    rw [hrun] at hparse
    cases hparse
  | ok r =>
    rw [hrun] at hparse
    cases hparse
    have hstart : ParseState.Pooled pool (.ofTokens tokens n) :=
      ⟨hpool, fun l hl => absurd hl (Array.not_mem_empty l)⟩
    have hnumbers : Numbers (fun _ => False) (sourceFile (stripMark source)) := inferInstance
    obtain ⟨pool', hsubset, hpool', hheld⟩ := hnumbers.run hstart (fun _ he => he.elim) hrun
    exact ⟨pool', hsubset, hpool'.toOwnNumbers, hheld⟩

end SourceBundle
