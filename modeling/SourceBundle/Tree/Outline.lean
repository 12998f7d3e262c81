/-
The outline of a syntax tree: one line for each node with its set
fields, and its child nodes under the name of the field they stand in,
two levels further in.
-/
import SourceBundle.Text.Quoted
import SourceBundle.Tree.Decl

namespace SourceBundle

open Text

-- ===== lines of a node

/-- The lines of one node. A field without text is left out of the head line, and a part without
lines is left out altogether. -/
def outlineNode (label : String) (fields : List (String × Option String)) (span : Option Span)
    (parts : List (String × List String)) : List String :=
  let shown := fields.filterMap fun f => f.2.map fun text => f.1 ++ "=" ++ text
  let head := if shown.isEmpty then label else label ++ "(" ++ ", ".intercalate shown ++ ")"
  let place := match span with
    | none => ""
    | some s => " @" ++ s.text
  (head ++ place) :: parts.flatMap fun part =>
    if part.2.isEmpty then [] else ("  " ++ part.1 ++ ":") :: part.2.map ("    " ++ ·)

/-- A flag is shown only if set. -/
def flagField (b : Bool) : Option String :=
  if b then some "True" else none

/-- A text is shown unless empty. -/
def textField (s : String) : Option String :=
  if s.isEmpty then none else some (quoted s)

/-- A text that may be missing. -/
def optionField (s : Option String) : Option String :=
  s.bind textField

/-- A list of texts is shown unless empty. -/
def listField (items : List String) : Option String :=
  if items.isEmpty then none else some (quotedList items)

/-- A number is shown unless zero. -/
def numberField (n : Nat) : Option String :=
  if n = 0 then none else some (toString n)

-- ===== types and expressions

mutual

def TypeRef.outline : TypeRef → List String
  | { name, args, qualifier, rank, nullable, tuple, span } =>
    outlineNode "TypeRef"
      [("name", textField name), ("alias", optionField qualifier), ("array_rank", numberField rank),
       ("is_nullable", flagField nullable), ("is_tuple", flagField tuple)]
      span [("type_args", TypeRef.outlines args)]
termination_by structural t => t

def TypeRef.outlines : List TypeRef → List String
  | [] => []
  | t :: ts => TypeRef.outline t ++ TypeRef.outlines ts
termination_by structural ts => ts

end

def TypeRef.outline? (t : Option TypeRef) : List String :=
  TypeRef.outlines t.toList

mutual

def Expr.outline : Expr → List String
  | .ident m name typeArgs qualifier =>
    outlineNode "NameExpr" [("name", textField name), ("alias", optionField qualifier)] m.span
      [("type_args", TypeRef.outlines typeArgs)]
  | .member m target name typeArgs conditional =>
    outlineNode "MemberAccessExpr"
      [("name", textField name), ("is_conditional", flagField conditional)] m.span
      [("target", Expr.outline target), ("type_args", TypeRef.outlines typeArgs)]
  | .call m callee args =>
    outlineNode "InvocationExpr" [] m.span
      [("callee", Expr.outline callee), ("args", Expr.outlines args)]
  | .creation m type args inits =>
    outlineNode "ObjectCreationExpr" [] m.span
      [("type", TypeRef.outline? type), ("args", Expr.outlines args),
       ("initializer", Expr.outlines inits)]
  | .array m type items =>
    outlineNode "ArrayCreationExpr" [] m.span
      [("type", TypeRef.outline? type), ("items", Expr.outlines items)]
  | .element m target args =>
    outlineNode "ElementAccessExpr" [] m.span
      [("target", Expr.outline target), ("args", Expr.outlines args)]
  | .group m items => outlineNode "GroupExpr" [] m.span [("items", Expr.outlines items)]
  | .literal m kind text =>
    outlineNode "LiteralExpr" [("kind", textField kind.name), ("text", textField text)] m.span []
  | .interpolated m holes =>
    outlineNode "InterpolatedStringExpr" [] m.span [("holes", Expr.outlines holes)]
  | .thisRef m => outlineNode "ThisExpr" [] m.span []
  | .baseRef m => outlineNode "BaseExpr" [] m.span []
termination_by structural e => e

def Expr.outlines : List Expr → List String
  | [] => []
  | e :: es => Expr.outline e ++ Expr.outlines es
termination_by structural es => es

end

-- ===== declarations

def UsingDirective.outline (u : UsingDirective) : List String :=
  outlineNode "UsingDirective"
    [("alias", optionField u.aliasName), ("is_static", flagField u.isStatic),
     ("is_global", flagField u.isGlobal)]
    u.span [("target", u.target.outline)]

def Param.outline (p : Param) : List String :=
  outlineNode "Param"
    [("name", textField p.name), ("modifier", optionField (p.modifier.map ParamModifier.text))]
    p.span [("type", p.type.outline), ("default", Expr.outlines p.default)]

def LocalDecl.outline (l : LocalDecl) : List String :=
  outlineNode "LocalDecl"
    [("name", textField l.name), ("is_foreach", flagField l.isForeach),
     ("is_lambda", flagField l.isLambda)]
    l.span [("type", TypeRef.outline? l.type), ("init", Expr.outlines l.init.toList)]

def MemberDecl.outline (m : MemberDecl) : List String :=
  outlineNode "MemberDecl"
    [("kind", some m.kind.name), ("name", textField m.name),
     ("type_params", listField m.typeParams), ("modifiers", listField m.modifiers)]
    m.span
    [("type", TypeRef.outline? m.type), ("params", m.params.flatMap Param.outline),
     ("body", Expr.outlines m.body), ("locals", m.locals.flatMap LocalDecl.outline)]

mutual

def TypeDecl.outline : TypeDecl → List String
  | { keyword, name, typeParams, baseTypes, members, nested, modifiers, params, baseArgs, span,
      .. } =>
    outlineNode "TypeDecl"
      [("keyword", textField keyword.text), ("name", textField name),
       ("type_params", listField typeParams), ("modifiers", listField modifiers)]
      span
      [("base_types", TypeRef.outlines baseTypes),
       ("members", members.flatMap MemberDecl.outline),
       ("nested_types", TypeDecl.outlines nested), ("params", params.flatMap Param.outline),
       ("base_args", Expr.outlines baseArgs)]
termination_by structural d => d

def TypeDecl.outlines : List TypeDecl → List String
  | [] => []
  | d :: ds => TypeDecl.outline d ++ TypeDecl.outlines ds
termination_by structural ds => ds

end

mutual

def NamespaceDecl.outline : NamespaceDecl → List String
  | { name, usings, types, namespaces, isFileScoped, span } =>
    outlineNode "NamespaceDecl"
      [("name", textField name), ("is_file_scoped", flagField isFileScoped)] span
      [("usings", usings.flatMap UsingDirective.outline), ("types", TypeDecl.outlines types),
       ("namespaces", NamespaceDecl.outlines namespaces)]
termination_by structural d => d

def NamespaceDecl.outlines : List NamespaceDecl → List String
  | [] => []
  | d :: ds => NamespaceDecl.outline d ++ NamespaceDecl.outlines ds
termination_by structural ds => ds

end

def SourceFile.outline (f : SourceFile) : List String :=
  outlineNode "SourceFile" [] f.span
    [("usings", f.usings.flatMap UsingDirective.outline), ("types", TypeDecl.outlines f.types),
     ("namespaces", NamespaceDecl.outlines f.namespaces)]

end SourceBundle
