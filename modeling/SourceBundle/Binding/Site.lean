/-
Where expressions stand: the type and member around each of them and
the locals in scope, the expression directly around it, and what gives
a lambda parameter or a bare `new()` its type.
-/
import SourceBundle.Binding.Member
import SourceBundle.Scope
import Std.Data.TreeMap

namespace SourceBundle

-- ===== visiting

/-- An expression and the one directly around it. -/
structure Visit where
  expr : Expr
  parent : Option Expr

mutual

/-- An expression and all inside it, each before those inside it. -/
def Expr.visits (parent : Option Expr) : Expr → List Visit
  | e@(.member _ target ..) => ⟨e, parent⟩ :: Expr.visits (some e) target
  | e@(.call _ callee args) =>
    ⟨e, parent⟩ :: (Expr.visits (some e) callee ++ Expr.visitsAll (some e) args)
  | e@(.creation _ _ args inits) =>
    ⟨e, parent⟩ :: (Expr.visitsAll (some e) args ++ Expr.visitsAll (some e) inits)
  | e@(.array _ _ items) => ⟨e, parent⟩ :: Expr.visitsAll (some e) items
  | e@(.element _ target args) =>
    ⟨e, parent⟩ :: (Expr.visits (some e) target ++ Expr.visitsAll (some e) args)
  | e@(.group _ items) => ⟨e, parent⟩ :: Expr.visitsAll (some e) items
  | e@(.interpolated _ holes) => ⟨e, parent⟩ :: Expr.visitsAll (some e) holes
  | e@(.ident ..) | e@(.literal ..) | e@(.thisRef _) | e@(.baseRef _) => [⟨e, parent⟩]
termination_by structural e => e

def Expr.visitsAll (parent : Option Expr) : List Expr → List Visit
  | [] => []
  | e :: es => Expr.visits parent e ++ Expr.visitsAll parent es
termination_by structural es => es

end

/-- The expressions inside some expressions and these themselves, each before those inside it. -/
def Expr.descendants (roots : List Expr) : List Expr :=
  (Expr.visitsAll none roots).map (·.expr)

-- ===== sites

/-- Where an expression stands. There is no member around base arguments and the defaults of
primary parameters. -/
structure Site where
  type : DeclaredType
  member : Option MemberDecl
  scope : Scope

namespace Site

def typeParams (s : Site) : List String :=
  (s.member.map (·.typeParams)).getD []

/-- The type that a written one is at a site. -/
def boundType (s : Site) (ds : Declarations) (ref : TypeRef) : BoundType :=
  ds.boundType (some s.type) s.typeParams ref

end Site

/-- What is known of expressions, by their node numbers. -/
structure SiteTable where
  sites : Std.TreeMap Nat Site := {}
  parents : Std.TreeMap Nat Expr := {}
  /-- By the name that declares a lambda parameter: what the method with the lambda is called on. -/
  lambdaSources : Std.TreeMap Nat Expr := {}
  /-- The types that a `new()` without a type is assigned to, and where they are written. -/
  targets : Std.TreeMap Nat (TypeRef × Site) := {}

namespace SiteTable

/-- The name that an argument opens with if it is a lambda of one parameter. -/
def lambdaHead? : Expr → Option Expr
  | .group _ (.group _ [name] :: _) => some name
  | .group _ (head :: _) => some head
  | _ => none

/-- The lambda parameters that a call of a method binds, with what it is called on. -/
def lambdaSourcesOf (declarators : List Nat) : Expr → List (Nat × Expr)
  | .call _ (.member _ target ..) args =>
    (args.filterMap lambdaHead?).filterMap fun name =>
      if declarators.contains name.node then some (name.node, target) else none
  | _ => []

def addVisit (site : Site) (declarators : List Nat) (st : SiteTable) (v : Visit) : SiteTable :=
  { st with
    sites := st.sites.insert v.expr.node site
    parents := match v.parent with
      | none => st.parents
      | some p => st.parents.insert v.expr.node p
    lambdaSources := (lambdaSourcesOf declarators v.expr).foldl
      (fun table entry => table.insert entry.1 entry.2) st.lambdaSources }

/-- Adds all expressions inside some at a site. -/
def addExprs (site : Site) (declarators : List Nat) (roots : List Expr) (st : SiteTable) :
    SiteTable :=
  (Expr.visitsAll none roots).foldl (addVisit site declarators) st

/-- Adds the target of an expression if it is a `new()` without a type. -/
def addTarget (site : Site) (type : TypeRef) (st : SiteTable) : Expr → SiteTable
  | .creation mark none .. => { st with targets := st.targets.insert mark.node (type, site) }
  | _ => st

/-- Whether the body of a member is assigned to the member. -/
def isAssigned (m : MemberDecl) : Bool :=
  m.kind = .field || m.kind = .property || m.kind = .event

/-- Adds the targets that a member and its locals give. -/
def addTargets (site : Site) (m : MemberDecl) (st : SiteTable) : SiteTable :=
  let st := match m.type with
    | some type => if isAssigned m then m.body.foldl (addTarget site type) st else st
    | none => st
  m.locals.foldl (fun st l =>
    match l.type, l.init with
    | some type, some init => addTarget site type st init
    | _, _ => st) st

/-- The nodes of the names that declare a member's lambda parameters. -/
def declaratorsOf (m : MemberDecl) : List Nat :=
  (m.locals.filter (·.isLambda)).filterMap fun l => l.declarator.map (·.node)

def addMember (t : DeclaredType) (st : SiteTable) (m : MemberDecl) : SiteTable :=
  let site : Site := ⟨t, some m, m.scope t.decl⟩
  let st := st.addExprs site (declaratorsOf m) (m.params.flatMap (·.default) ++ m.body)
  st.addTargets site m

/-- Adds a type without those nested in it. -/
def addType (st : SiteTable) (t : DeclaredType) : SiteTable :=
  let site : Site := ⟨t, none, t.decl.scope⟩
  let st := st.addExprs site [] (t.decl.baseArgs ++ t.decl.params.flatMap (·.default))
  t.decl.members.foldl (addMember t) st

def ofTypes (types : List DeclaredType) : SiteTable :=
  types.foldl addType {}

end SiteTable

-- ===== index

/-- All that is known of a workspace before anything is asked. -/
structure Index extends Declarations where
  units : List TypeUnit
  globalImports : List Import
  members : MemberTable
  places : SiteTable
  /-- The number of expressions. -/
  nodeCount : Nat

def Workspace.index (w : Workspace) : Index :=
  let ds := w.declarations
  { toDeclarations := ds, units := ds.units, globalImports := w.globalImports,
    members := .ofTypes ds.types, places := .ofTypes ds.types, nodeCount := w.nextNode }

end SourceBundle
