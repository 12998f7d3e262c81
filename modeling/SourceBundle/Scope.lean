/-
Scopes of locals. A type's scope holds the parameters of its primary
constructor; a member's scope, inside it, holds the member's parameters
and every local of its body. Bodies are not split into blocks, so one
name may be bound more than once: the binding closest before the use
counts, and a name bound only after the use is looked for further out.
-/
import SourceBundle.Tree.Decl

namespace SourceBundle

/-- What a local name is bound by. -/
inductive LocalKind where
  | primaryParam
  | param
  | plain
  | foreach
  | lambdaParam
deriving DecidableEq, Repr

def LocalKind.name : LocalKind → String
  | primaryParam => "PRIMARY_PARAM"
  | param => "PARAM"
  | plain => "LOCAL"
  | foreach => "FOREACH"
  | lambdaParam => "LAMBDA_PARAM"

/-- A name bound in a scope. `decl` is set unless it is a parameter. -/
structure LocalSymbol where
  name : String
  kind : LocalKind
  type : Option TypeRef
  line : Nat
  column : Nat
  decl : Option LocalDecl := none
deriving Repr

/-- The symbols of a scope and of the scopes around it, innermost first. -/
abbrev Scope := List (List LocalSymbol)

namespace LocalSymbol

def ofParam (kind : LocalKind) (p : Param) : LocalSymbol :=
  { name := p.name, kind, type := some p.type, line := p.span.startLine,
    column := p.span.startColumn }

def ofLocal (l : LocalDecl) : LocalSymbol :=
  let kind := if l.isLambda then .lambdaParam else if l.isForeach then .foreach else .plain
  { name := l.name, kind, type := l.type, line := (l.span.map (·.startLine)).getD 0,
    column := (l.span.map (·.startColumn)).getD 0, decl := some l }

/-- Whether a symbol is declared at or before a place. -/
def startsBy (s : LocalSymbol) (line column : Nat) : Bool :=
  s.line < line || (s.line = line && s.column ≤ column)

/-- The later of two symbols; the second one if they start together. -/
def later (a b : LocalSymbol) : LocalSymbol :=
  if a.startsBy b.line b.column then b else a

end LocalSymbol

-- ===== lookup

/-- The symbol closest before a place; without a place the first one. -/
def closestBefore (place : Option (Nat × Nat)) (symbols : List LocalSymbol) :
    Option LocalSymbol :=
  match place with
  | none => symbols.head?
  | some (line, column) =>
    (symbols.filter (·.startsBy line column)).foldl
      (fun best s => some ((best.map (·.later s)).getD s)) none

/-- The symbol that a name stands for at a place. -/
def Scope.lookup (name : String) (place : Option (Nat × Nat)) : Scope → Option LocalSymbol
  | [] => none
  | symbols :: outer =>
    match closestBefore place (symbols.filter (·.name = name)) with
    | some s => some s
    | none => Scope.lookup name place outer

/-- The symbols of one level by name, names in order of their first declaration. -/
def groupByName (symbols : List LocalSymbol) : List (List LocalSymbol) :=
  (symbols.map (·.name)).eraseDups.map fun name => symbols.filter (·.name = name)

-- ===== scopes

def TypeDecl.scope (d : TypeDecl) : Scope :=
  [d.params.map (LocalSymbol.ofParam .primaryParam)]

def MemberDecl.scope (m : MemberDecl) (d : TypeDecl) : Scope :=
  (m.params.map (LocalSymbol.ofParam .param) ++ m.locals.map LocalSymbol.ofLocal) :: d.scope

end SourceBundle
