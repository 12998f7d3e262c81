/-
Trees without places. `bare` forgets where a token or a tree stands (the
spans, the offsets and the node numbers) and keeps all that it says, the
text of a declaration included. Two values are alike if they are equal
once bare: this is the sense in which one text read at two places gives
the same tree.

What a reader asks of a tree (the type a chain reads as, the parameters
of a lambda head) commutes with `bare`, so alike trees answer alike.
-/
import Mathlib.Data.List.Forall2
import SourceBundle.Tree.Parse.File

namespace SourceBundle

open List

/-- Values that can be told apart from the places they stand at. -/
class Bare (α : Type) where
  /-- What a value says, whatever its place. -/
  bare : α → α

export Bare (bare)

/-- Equal but for the places they stand at. -/
def Alike {α : Type} [Bare α] (a b : α) : Prop :=
  bare a = bare b

namespace Alike

variable {α : Type} [Bare α] {a b c : α}

@[refl] theorem refl (a : α) : Alike a a := rfl

@[symm] theorem symm (h : Alike a b) : Alike b a := Eq.symm h

theorem trans (h : Alike a b) (h' : Alike b c) : Alike a c := Eq.trans h h'

end Alike

-- ===== placeless data

instance : Bare Unit := ⟨id⟩
instance : Bare Bool := ⟨id⟩
instance : Bare Nat := ⟨id⟩
instance : Bare String := ⟨id⟩
instance : Bare ParamModifier := ⟨id⟩
instance : Bare TypeKeyword := ⟨id⟩
instance : Bare Parse.Link := ⟨id⟩
instance {p : String → Prop} : Bare { name : String // p name } := ⟨id⟩

/-- A span is nothing but a place. -/
instance : Bare Span := ⟨fun _ => default⟩

/-- So is a mark. -/
instance : Bare Mark := ⟨fun _ => ⟨none, 0⟩⟩

instance {α β : Type} [Bare α] [Bare β] : Bare (α × β) := ⟨Prod.map bare bare⟩
instance {α : Type} [Bare α] : Bare (List α) := ⟨List.map bare⟩
instance {α : Type} [Bare α] : Bare (Option α) := ⟨Option.map bare⟩

section

variable {α β : Type} [Bare α] [Bare β]

@[simp] theorem alike_bool {a b : Bool} : Alike a b ↔ a = b := .rfl
@[simp] theorem alike_nat {a b : Nat} : Alike a b ↔ a = b := .rfl
@[simp] theorem alike_string {a b : String} : Alike a b ↔ a = b := .rfl
@[simp] theorem alike_paramModifier {a b : ParamModifier} : Alike a b ↔ a = b := .rfl
@[simp] theorem alike_typeKeyword {a b : TypeKeyword} : Alike a b ↔ a = b := .rfl
@[simp] theorem alike_link {a b : Parse.Link} : Alike a b ↔ a = b := .rfl
@[simp] theorem alike_name {p : String → Prop} {a b : { name : String // p name }} :
    Alike a b ↔ a = b := .rfl
@[simp] theorem alike_span (a b : Span) : Alike a b := rfl

@[simp] theorem alike_pair {a a' : α} {b b' : β} :
    Alike (a, b) (a', b') ↔ Alike a a' ∧ Alike b b' :=
  Prod.mk.injEq _ _ _ _ ▸ .rfl

@[simp] theorem alike_nil : Alike ([] : List α) [] := rfl

@[simp] theorem alike_cons {a b : α} {as bs : List α} :
    Alike (a :: as) (b :: bs) ↔ Alike a b ∧ Alike as bs :=
  List.cons.injEq _ _ _ _ ▸ .rfl

@[simp] theorem not_alike_nil_cons {b : α} {bs : List α} : ¬ Alike [] (b :: bs) := nofun

@[simp] theorem not_alike_cons_nil {a : α} {as : List α} : ¬ Alike (a :: as) [] := nofun

theorem Alike.append {as as' bs bs' : List α} (h : Alike as as') (h' : Alike bs bs') :
    Alike (as ++ bs) (as' ++ bs') := by
  show (as ++ bs).map bare = (as' ++ bs').map bare
  rw [map_append, map_append, show as.map bare = as'.map bare from h,
    show bs.map bare = bs'.map bare from h']

theorem Alike.map {as as' : List α} {f g : α → β} (h : Alike as as')
    (hfg : ∀ a b, Alike a b → Alike (f a) (g b)) : Alike (as.map f) (as'.map g) := by
  induction as generalizing as' with
  | nil =>
    cases as' with
    | nil => rfl
    | cons => exact absurd h not_alike_nil_cons
  | cons a as ih =>
    cases as' with
    | nil => exact absurd h not_alike_cons_nil
    | cons b bs =>
      rw [alike_cons] at h
      exact alike_cons.2 ⟨hfg a b h.1, ih h.2⟩

theorem Alike.forall₂ {as bs : List α} (h : Alike as bs) : List.Forall₂ Alike as bs := by
  induction as generalizing bs with
  | nil =>
    cases bs with
    | nil => exact .nil
    | cons => exact absurd h not_alike_nil_cons
  | cons a as ih =>
    cases bs with
    | nil => exact absurd h not_alike_cons_nil
    | cons b bs =>
      rw [alike_cons] at h
      exact .cons h.1 (ih h.2)

theorem Alike.length_eq {as bs : List α} (h : Alike as bs) : as.length = bs.length := by
  have hlength : (as.map bare).length = (bs.map bare).length := congrArg List.length h
  simpa only [length_map] using hlength

theorem Alike.getLast? {as bs : List α} (h : Alike as bs) :
    as.getLast?.map bare = bs.getLast?.map bare := by
  rw [← getLast?_map, ← getLast?_map, show as.map bare = bs.map bare from h]

@[simp] theorem alike_none : Alike (none : Option α) none := rfl

@[simp] theorem alike_some {a b : α} : Alike (some a) (some b) ↔ Alike a b :=
  Option.some_inj

@[simp] theorem not_alike_none_some {b : α} : ¬ Alike none (some b) := nofun

@[simp] theorem not_alike_some_none {a : α} : ¬ Alike (some a) none := nofun

@[simp] theorem alike_string? {a b : Option String} : Alike a b ↔ a = b := by
  cases a <;> cases b <;> simp

@[simp] theorem alike_paramModifier? {a b : Option ParamModifier} : Alike a b ↔ a = b := by
  cases a <;> cases b <;> simp

@[simp] theorem alike_strings {as bs : List String} : Alike as bs ↔ as = bs := by
  show as.map id = bs.map id ↔ _
  rw [map_id, map_id]

theorem Alike.toList {a b : Option α} (h : Alike a b) : Alike a.toList b.toList := by
  cases a <;> cases b <;> simp_all

end

-- ===== types

namespace TypeRef

mutual

/-- A type without its span and those of its arguments. -/
def bareType : TypeRef → TypeRef
  | { name, args, qualifier, rank, nullable, tuple, .. } =>
    { name, args := bareTypes args, qualifier, rank, nullable, tuple }
termination_by structural t => t

/-- Types without their spans. -/
def bareTypes : List TypeRef → List TypeRef
  | [] => []
  | t :: ts => bareType t :: bareTypes ts
termination_by structural ts => ts

end

end TypeRef

instance : Bare TypeRef := ⟨TypeRef.bareType⟩

theorem TypeRef.bareTypes_eq (ts : List TypeRef) : TypeRef.bareTypes ts = bare ts := by
  induction ts with
  | nil => rfl
  | cons t ts ih => exact congrArg (bare t :: ·) ih

theorem TypeRef.bare_eq (t : TypeRef) :
    bare t = { t with args := bare t.args, span := none } := by
  rw [← TypeRef.bareTypes_eq]
  cases t
  rfl

theorem alike_typeRef {s t : TypeRef} :
    Alike s t ↔ s.name = t.name ∧ Alike s.args t.args ∧ s.qualifier = t.qualifier
      ∧ s.rank = t.rank ∧ s.nullable = t.nullable ∧ s.tuple = t.tuple := by
  unfold Alike
  rw [TypeRef.bare_eq s, TypeRef.bare_eq t]
  simp only [TypeRef.mk.injEq, and_true]

@[simp] theorem alike_typeRef_mk {n n' : String} {as as' : List TypeRef} {q q' : Option String}
    {r r' : Nat} {nl nl' tu tu' : Bool} {s s' : Option Span} :
    Alike (TypeRef.mk n as q r nl tu s) (TypeRef.mk n' as' q' r' nl' tu' s')
      ↔ n = n' ∧ Alike as as' ∧ q = q' ∧ r = r' ∧ nl = nl' ∧ tu = tu' :=
  alike_typeRef

-- ===== expressions

namespace Expr

mutual

/-- An expression without its mark and those inside it. -/
def bareExpr : Expr → Expr
  | ident m name typeArgs qualifier => .ident (bare m) name (bare typeArgs) qualifier
  | member m target name typeArgs conditional =>
    .member (bare m) (bareExpr target) name (bare typeArgs) conditional
  | call m callee args => .call (bare m) (bareExpr callee) (bareExprs args)
  | creation m type args inits =>
    .creation (bare m) (bare type) (bareExprs args) (bareExprs inits)
  | array m type items => .array (bare m) (bare type) (bareExprs items)
  | element m target args => .element (bare m) (bareExpr target) (bareExprs args)
  | group m items => .group (bare m) (bareExprs items)
  | literal m kind text => .literal (bare m) kind text
  | interpolated m holes => .interpolated (bare m) (bareExprs holes)
  | thisRef m => .thisRef (bare m)
  | baseRef m => .baseRef (bare m)
termination_by structural e => e

/-- Expressions without their marks. -/
def bareExprs : List Expr → List Expr
  | [] => []
  | e :: es => bareExpr e :: bareExprs es
termination_by structural es => es

end

end Expr

instance : Bare Expr := ⟨Expr.bareExpr⟩

theorem Expr.bareExprs_eq (es : List Expr) : Expr.bareExprs es = bare es := by
  induction es with
  | nil => rfl
  | cons e es ih => exact congrArg (bare e :: ·) ih

section

variable {m m' : Mark} {n n' : String} {ts ts' : List TypeRef} {q q' : Option String}
  {e e' : Expr} {es es' fs fs' : List Expr} {c c' : Bool} {t t' : Option TypeRef}

@[simp] theorem alike_ident :
    Alike (Expr.ident m n ts q) (.ident m' n' ts' q') ↔ n = n' ∧ Alike ts ts' ∧ q = q' := by
  show Expr.ident _ _ _ _ = Expr.ident _ _ _ _ ↔ _
  rw [Expr.ident.injEq]
  exact and_iff_right rfl

@[simp] theorem alike_member :
    Alike (Expr.member m e n ts c) (.member m' e' n' ts' c')
      ↔ Alike e e' ∧ n = n' ∧ Alike ts ts' ∧ c = c' := by
  show Expr.member _ _ _ _ _ = Expr.member _ _ _ _ _ ↔ _
  rw [Expr.member.injEq]
  exact and_iff_right rfl

@[simp] theorem alike_call :
    Alike (Expr.call m e es) (.call m' e' es') ↔ Alike e e' ∧ Alike es es' := by
  show Expr.call _ _ (Expr.bareExprs es) = Expr.call _ _ (Expr.bareExprs es') ↔ _
  rw [Expr.bareExprs_eq, Expr.bareExprs_eq, Expr.call.injEq]
  exact and_iff_right rfl

@[simp] theorem alike_creation :
    Alike (Expr.creation m t es fs) (.creation m' t' es' fs')
      ↔ Alike t t' ∧ Alike es es' ∧ Alike fs fs' := by
  show Expr.creation _ _ (Expr.bareExprs es) (Expr.bareExprs fs)
    = Expr.creation _ _ (Expr.bareExprs es') (Expr.bareExprs fs') ↔ _
  simp only [Expr.bareExprs_eq, Expr.creation.injEq]
  exact and_iff_right rfl

@[simp] theorem alike_array :
    Alike (Expr.array m t es) (.array m' t' es') ↔ Alike t t' ∧ Alike es es' := by
  show Expr.array _ _ (Expr.bareExprs es) = Expr.array _ _ (Expr.bareExprs es') ↔ _
  rw [Expr.bareExprs_eq, Expr.bareExprs_eq, Expr.array.injEq]
  exact and_iff_right rfl

@[simp] theorem alike_element :
    Alike (Expr.element m e es) (.element m' e' es') ↔ Alike e e' ∧ Alike es es' := by
  show Expr.element _ _ (Expr.bareExprs es) = Expr.element _ _ (Expr.bareExprs es') ↔ _
  rw [Expr.bareExprs_eq, Expr.bareExprs_eq, Expr.element.injEq]
  exact and_iff_right rfl

@[simp] theorem alike_group : Alike (Expr.group m es) (.group m' es') ↔ Alike es es' := by
  show Expr.group _ (Expr.bareExprs es) = Expr.group _ (Expr.bareExprs es') ↔ _
  rw [Expr.bareExprs_eq, Expr.bareExprs_eq, Expr.group.injEq]
  exact and_iff_right rfl

@[simp] theorem alike_interpolated :
    Alike (Expr.interpolated m es) (.interpolated m' es') ↔ Alike es es' := by
  show Expr.interpolated _ (Expr.bareExprs es) = Expr.interpolated _ (Expr.bareExprs es') ↔ _
  rw [Expr.bareExprs_eq, Expr.bareExprs_eq, Expr.interpolated.injEq]
  exact and_iff_right rfl

@[simp] theorem alike_literal {k k' : LiteralKind} :
    Alike (Expr.literal m k n) (.literal m' k' n') ↔ k = k' ∧ n = n' := by
  show Expr.literal _ _ _ = Expr.literal _ _ _ ↔ _
  rw [Expr.literal.injEq]
  exact and_iff_right rfl

@[simp] theorem alike_thisRef : Alike (Expr.thisRef m) (.thisRef m') := rfl

@[simp] theorem alike_baseRef : Alike (Expr.baseRef m) (.baseRef m') := rfl

end

-- ===== declarations

instance : Bare LocalDecl :=
  ⟨fun l => { l with type := bare l.type, init := bare l.init, declarator := bare l.declarator,
                     span := none }⟩

instance : Bare Param :=
  ⟨fun p => { p with type := bare p.type, default := bare p.default, span := default }⟩

instance : Bare MemberDecl :=
  ⟨fun m => { m with type := bare m.type, params := bare m.params, body := bare m.body,
                     locals := bare m.locals, span := none }⟩

instance : Bare UsingDirective :=
  ⟨fun u => { u with target := bare u.target, span := none }⟩

theorem alike_usingDirective {u u' : UsingDirective} :
    Alike u u' ↔ Alike u.target u'.target ∧ u.aliasName = u'.aliasName
      ∧ u.isStatic = u'.isStatic ∧ u.isGlobal = u'.isGlobal := by
  show UsingDirective.mk _ _ _ _ _ = UsingDirective.mk _ _ _ _ _ ↔ _
  simp only [UsingDirective.mk.injEq, and_true]
  rfl

theorem alike_localDecl {l l' : LocalDecl} :
    Alike l l' ↔ l.name = l'.name ∧ Alike l.type l'.type ∧ Alike l.init l'.init
      ∧ l.isForeach = l'.isForeach ∧ l.isLambda = l'.isLambda
      ∧ Alike l.declarator l'.declarator := by
  show LocalDecl.mk _ _ _ _ _ _ _ = LocalDecl.mk _ _ _ _ _ _ _ ↔ _
  simp only [LocalDecl.mk.injEq, and_true]
  rfl

theorem alike_param {p p' : Param} :
    Alike p p' ↔ p.name = p'.name ∧ Alike p.type p'.type ∧ p.modifier = p'.modifier
      ∧ Alike p.default p'.default := by
  show Param.mk _ _ _ _ _ = Param.mk _ _ _ _ _ ↔ _
  simp only [Param.mk.injEq, and_true]
  rfl

theorem alike_memberDecl {m m' : MemberDecl} :
    Alike m m' ↔ m.kind = m'.kind ∧ m.name = m'.name ∧ Alike m.type m'.type
      ∧ Alike m.params m'.params ∧ m.typeParams = m'.typeParams ∧ m.modifiers = m'.modifiers
      ∧ Alike m.body m'.body ∧ Alike m.locals m'.locals := by
  show MemberDecl.mk _ _ _ _ _ _ _ _ _ = MemberDecl.mk _ _ _ _ _ _ _ _ _ ↔ _
  simp only [MemberDecl.mk.injEq, and_true]
  rfl

namespace TypeDecl

mutual

/-- A declaration without its span and those inside it. -/
def bareDecl : TypeDecl → TypeDecl
  | { keyword, name, typeParams, baseTypes, members, nested, modifiers, params, baseArgs, text,
      dotless, .. } =>
    { keyword, name, typeParams, baseTypes := bare baseTypes, members := bare members,
      nested := bareDecls nested, modifiers, params := bare params, baseArgs := bare baseArgs,
      span := default, text, dotless }
termination_by structural d => d

/-- Declarations without their spans. -/
def bareDecls : List TypeDecl → List TypeDecl
  | [] => []
  | d :: ds => bareDecl d :: bareDecls ds
termination_by structural ds => ds

end

end TypeDecl

instance : Bare TypeDecl := ⟨TypeDecl.bareDecl⟩

theorem TypeDecl.bareDecls_eq (ds : List TypeDecl) : TypeDecl.bareDecls ds = bare ds := by
  induction ds with
  | nil => rfl
  | cons d ds ih => exact congrArg (bare d :: ·) ih

theorem TypeDecl.bare_eq (d : TypeDecl) :
    bare d = { d with baseTypes := bare d.baseTypes, members := bare d.members,
                      nested := bare d.nested, params := bare d.params,
                      baseArgs := bare d.baseArgs, span := default } := by
  rw [← TypeDecl.bareDecls_eq]
  cases d
  rfl

theorem alike_typeDecl {d d' : TypeDecl} :
    Alike d d' ↔ d.keyword = d'.keyword ∧ d.name = d'.name ∧ d.typeParams = d'.typeParams
      ∧ Alike d.baseTypes d'.baseTypes ∧ Alike d.members d'.members ∧ Alike d.nested d'.nested
      ∧ d.modifiers = d'.modifiers ∧ Alike d.params d'.params ∧ Alike d.baseArgs d'.baseArgs
      ∧ d.text = d'.text := by
  unfold Alike
  rw [TypeDecl.bare_eq d, TypeDecl.bare_eq d']
  simp only [TypeDecl.mk.injEq, true_and]

-- ===== tokens

namespace Token

mutual

/-- A token without its offsets and those of its holes. -/
def bareToken : Token → Token
  | { kind, text, holes := some hs, dotless, .. } =>
    { kind, text, line := 0, column := 0, start := 0, stop := 0, holes := some (bareHoles hs),
      dotless }
  | { kind, text, holes := none, dotless, .. } =>
    { kind, text, line := 0, column := 0, start := 0, stop := 0, dotless }
termination_by structural t => t

/-- Tokens without their offsets. -/
def bareTokens : List Token → List Token
  | [] => []
  | t :: ts => bareToken t :: bareTokens ts
termination_by structural ts => ts

/-- Holes without the offsets of their tokens. -/
def bareHoles : List (List Token) → List (List Token)
  | [] => []
  | h :: hs => bareTokens h :: bareHoles hs
termination_by structural hs => hs

end

end Token

instance : Bare Token := ⟨Token.bareToken⟩

theorem Token.bareTokens_eq (ts : List Token) : Token.bareTokens ts = bare ts := by
  induction ts with
  | nil => rfl
  | cons t ts ih => exact congrArg (bare t :: ·) ih

theorem Token.bareHoles_eq (hs : List (List Token)) : Token.bareHoles hs = bare hs := by
  induction hs with
  | nil => rfl
  | cons h hs ih => rw [Token.bareHoles, ih, Token.bareTokens_eq]; rfl

theorem Token.bare_eq (t : Token) :
    bare t = { t with line := 0, column := 0, start := 0, stop := 0, holes := bare t.holes } := by
  obtain ⟨kind, text, line, column, start, stop, holes, dotless⟩ := t
  cases holes with
  | none => rfl
  | some hs =>
    show Token.bareToken _ = _
    rw [Token.bareToken, Token.bareHoles_eq]
    rfl

theorem alike_token {t t' : Token} :
    Alike t t' ↔ t.kind = t'.kind ∧ t.text = t'.text ∧ Alike t.holes t'.holes := by
  unfold Alike
  rw [Token.bare_eq t, Token.bare_eq t']
  simp only [Token.mk.injEq, true_and]

namespace Token

variable {t t' : Token}

theorem kind_eq_of_alike (h : Alike t t') : t.kind = t'.kind := (alike_token.1 h).1

theorem text_eq_of_alike (h : Alike t t') : t.text = t'.text := (alike_token.1 h).2.1

end Token

end SourceBundle
