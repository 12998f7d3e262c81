/-
Expressions. A body is read as a forest of chains: names, member
accesses, calls, element accesses and creations, with groups for
whatever stands between brackets. Operators and statement words are
left out.

Each expression has a node number, unique within a workspace. The same
expression may be reached from the body it stands in and from the local
it initialises; the number says that it is one expression.
-/
import SourceBundle.Tree.Literal
import SourceBundle.Tree.TypeRef

namespace SourceBundle

/-- Where an expression stands and which one it is. -/
structure Mark where
  span : Option Span
  node : Nat
deriving DecidableEq, Repr, Inhabited

inductive Expr where
  /-- A name, perhaps behind a qualifier as in `global::A`. -/
  | ident (mark : Mark) (name : String) (typeArgs : List TypeRef) (qualifier : Option String)
  /-- `target.name`, or `target?.name` if conditional. -/
  | member (mark : Mark) (target : Expr) (name : String) (typeArgs : List TypeRef)
      (conditional : Bool)
  /-- `callee(args)`. -/
  | call (mark : Mark) (callee : Expr) (args : List Expr)
  /-- `new T(args)` with the parts of its initializer; no type in `new(args)`. -/
  | creation (mark : Mark) (type : Option TypeRef) (args inits : List Expr)
  /-- `new T[sizes]` or `new[]`, with the elements of its initializer. -/
  | array (mark : Mark) (type : Option TypeRef) (items : List Expr)
  /-- `target[args]`. -/
  | element (mark : Mark) (target : Expr) (args : List Expr)
  /-- Brackets, blocks, lambda heads, and arguments made of several parts. -/
  | group (mark : Mark) (items : List Expr)
  | literal (mark : Mark) (kind : LiteralKind) (text : String)
  /-- An interpolated string, with an expression for each hole that is not empty. -/
  | interpolated (mark : Mark) (holes : List Expr)
  | thisRef (mark : Mark)
  | baseRef (mark : Mark)
deriving Repr, Inhabited

namespace Expr

def mark : Expr → Mark
  | ident m .. | member m .. | call m .. | creation m .. | array m .. | element m .. | group m ..
  | literal m .. | interpolated m .. | thisRef m | baseRef m => m

def node (e : Expr) : Nat := e.mark.node

/-- Where an expression stands. -/
def span (e : Expr) : Option Span := e.mark.span

/-- The expressions directly inside one, in order. -/
def children : Expr → List Expr
  | member _ target .. => [target]
  | call _ callee args => callee :: args
  | creation _ _ args inits => args ++ inits
  | array _ _ items => items
  | element _ target args => target :: args
  | group _ items => items
  | interpolated _ holes => holes
  | ident .. | literal .. | thisRef _ | baseRef _ => []

end Expr

end SourceBundle
