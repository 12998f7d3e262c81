/-
The references of a unit: the calls, creations and member accesses in
its declarations, what each of them refers to, and the symbols that are
kept.

A reference that is not resolved to one symbol is dropped with a
warning, except that a creation keeps the first of several candidates.
-/
import SourceBundle.Diagnostic
import SourceBundle.Service

namespace SourceBundle

-- ===== expressions asked

mutual

/-- The expressions in one that are asked about, in order. The member access that names what is
called is not one of them, but what it is accessed on is looked into. -/
def Expr.references : Expr → List Expr
  | e@(.call _ (.member _ target ..) args) =>
    e :: (Expr.references target ++ Expr.referencesAll args)
  | e@(.call _ callee args) => e :: (Expr.references callee ++ Expr.referencesAll args)
  | e@(.creation _ _ args inits) =>
    e :: (Expr.referencesAll args ++ Expr.referencesAll inits)
  | e@(.member _ target ..) => e :: Expr.references target
  | .group _ items => Expr.referencesAll items
  | .element _ target args => Expr.references target ++ Expr.referencesAll args
  | .array _ _ items => Expr.referencesAll items
  | .interpolated _ holes => Expr.referencesAll holes
  | .ident .. | .literal .. | .thisRef _ | .baseRef _ => []
termination_by structural e => e

def Expr.referencesAll : List Expr → List Expr
  | [] => []
  | e :: es => Expr.references e ++ Expr.referencesAll es
termination_by structural es => es

end

/-- The expressions of a member: the defaults of its parameters, then its body. -/
def MemberDecl.expressions (m : MemberDecl) : List Expr :=
  m.params.flatMap (·.default) ++ m.body

mutual

/-- The expressions of a declaration: base arguments, defaults of primary parameters, members,
then nested types. -/
def TypeDecl.expressions : TypeDecl → List Expr
  | { baseArgs, params, members, nested, .. } =>
    baseArgs ++ params.flatMap (·.default) ++ members.flatMap MemberDecl.expressions
      ++ TypeDecl.expressionsAll nested
termination_by structural d => d

def TypeDecl.expressionsAll : List TypeDecl → List Expr
  | [] => []
  | d :: ds => TypeDecl.expressions d ++ TypeDecl.expressionsAll ds
termination_by structural ds => ds

end

/-- The expressions of a declaration that are asked about, in order. -/
def TypeDecl.references (d : TypeDecl) : List Expr :=
  Expr.referencesAll d.expressions

-- ===== what is kept

/-- Whether an expression makes an object. -/
def Expr.isCreation : Expr → Bool
  | .creation .. => true
  | _ => false

/-- The candidates of an ambiguous reference, as messages list them. -/
def candidateList (candidates : List Symbol) : String :=
  ", ".intercalate (candidates.map (·.name))

/-- The message for a reference to nothing known. -/
def unresolvedMessage (name reason : String) : String :=
  "[COL-0010] unresolved reference '" ++ name ++ "' dropped"
    ++ (if reason.isEmpty then "" else ": " ++ reason)

/-- The symbol that is kept of an answer, and the warning that it gives rise to. -/
def Resolution.keep (creation : Bool) : Resolution → Option Symbol × Option String
  | .resolved s => (some s, none)
  | .unresolved name reason => (none, some (unresolvedMessage name reason))
  | .ambiguous name candidates =>
    if creation then
      match candidates with
      | [] => (none, some (unresolvedMessage name ""))
      | first :: _ =>
        (some first,
          some ("[COL-0030] ambiguous construction '" ++ name ++ "', using '" ++ first.name
            ++ "'; candidates: " ++ candidateList candidates))
    else
      (none,
        some ("[COL-0020] ambiguous reference '" ++ name ++ "' dropped; candidates: "
          ++ candidateList candidates))

/-- What was collected: symbols in order, and the warnings on the way. -/
structure Collection where
  symbols : List Symbol := []
  diagnostics : List Diagnostic := []

def Collection.append (a b : Collection) : Collection :=
  ⟨a.symbols ++ b.symbols, a.diagnostics ++ b.diagnostics⟩

section

variable {m : Type → Type} [Monad m] [MonadLog m]

/-- What the answer for one expression of a part of a unit adds. -/
def collectAnswer (c : Context) (unit : String) (file : Option String) (e : Expr) :
    Option Resolution → m Collection
  | none => return {}
  | some answer => do
    let (symbol, warning) := answer.keep e.isCreation
    match warning with
    | none => return ⟨symbol.toList, []⟩
    | some message =>
      let d := Diagnostic.atSpan
        { severity := .warning, message, unit := some unit, file } e.span
      c.log .debug (d.format c.directory)
      return ⟨symbol.toList, [d]⟩

/-- What one expression of a part of a unit adds. -/
def collectFrom (s : Service m) (c : Context) (unit : String) (file : Option String)
    (e : Expr) : m Collection := do
  collectAnswer c unit file e (← s.resolve e)

/-- What expressions add, one after another. -/
def collectEach (s : Service m) (c : Context) (unit : String) (file : Option String) :
    List Expr → m Collection
  | [] => return {}
  | e :: es => do
    let first ← collectFrom s c unit file e
    let more ← collectEach s c unit file es
    return first.append more

/-- What the parts of a unit add, one after another. -/
def collectParts (s : Service m) (c : Context) (unit : String) : List UnitPart → m Collection
  | [] => return {}
  | p :: ps => do
    let first ← collectEach s c unit p.file p.decl.references
    let more ← collectParts s c unit ps
    return first.append more

/-- The symbols that a unit refers to, each at its first occurrence, and the warnings. -/
def collect (s : Service m) (c : Context) (u : TypeUnit) : m Collection := do
  let all ← collectParts s c u.qualifiedName u.parts
  let symbols := Text.distinctBy Symbol.identity all.symbols
  c.log .debug s!"Collected {symbols.length} symbol(s) from '{u.qualifiedName}'"
  return { all with symbols }

end

end SourceBundle
