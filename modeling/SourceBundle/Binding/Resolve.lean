/-
Resolving references: which symbol a call, a creation, a member access
or a name refers to. A call of overloads takes the one that fits the
arguments best; if several do, all of them are candidates.
-/
import SourceBundle.Binding.Bind

namespace SourceBundle

-- ===== how it is shown

/-- An expression as messages show it. -/
def Expr.display : Expr → String
  | .ident _ name .. => name
  | .member _ target name .. => target.display ++ "." ++ name
  | .call _ callee _ => callee.display ++ "(...)"
  | .thisRef _ => "this"
  | .baseRef _ => "base"
  | _ => "<expression>"

namespace Index

-- ===== overloads

/-- Several candidates for a name. -/
def severalOf (display : String) (refs : List MemberRef) : Resolution :=
  .ambiguous display (refs.map (·.symbol))

/-- The overloads that are left: those that take the number of arguments and, if these are
several, among them the best fitting ones, if any fits. -/
def viableOverloads (ix : Index) (q : Queries) (refs : List MemberRef) (args : List Expr)
    (skip : Nat) : BindM (List MemberRef) := do
  let viable := refs.filter fun r => Declarations.takes (r.decl.params.drop skip) args.length
  if viable.length ≤ 1 then return viable
  else
    let types ← q.typesOf args
    let scored ← BindM.ofBases (ix.fitOverloads skip types viable)
    return if scored.isEmpty then viable else Declarations.heaviest scored

/-- The overload that a call or creation is given. -/
def chooseOverload (ix : Index) (q : Queries) (refs : List MemberRef) (node : Nat)
    (args : List Expr) (display : String) (receiver : Option BoundType) (isExtension : Bool) :
    BindM Resolution := do
  match ← ix.viableOverloads q refs args (if isExtension then 1 else 0) with
  | [] => return severalOf display refs
  | [r] =>
    modify fun s => { s with choices := s.choices.insert node ⟨r, receiver⟩ }
    return .resolved r.symbol
  | viable => return severalOf display viable

/-- Whether a creation without arguments takes the constructor that no one writes: a structure
has it beside any others. -/
def usesDefault (t : DeclaredType) (ctors : List MemberRef) (args : List Expr) : Bool :=
  args.isEmpty && (t.decl.keyword = .structType || t.decl.keyword = .recordStruct)
    && ctors.all (!·.decl.params.isEmpty)

/-- The constructor of a type that a creation or a constructor call is given. -/
def chooseConstructor (ix : Index) (q : Queries) (t : DeclaredType) (node : Nat)
    (args : List Expr) : BindM Resolution :=
  let ctors := ix.members.constructorsOf t.qualifiedName
  let display := t.qualifiedName ++ "." ++ t.decl.name
  if ctors.isEmpty || usesDefault t ctors args then
    if args.isEmpty then return .resolved t.implicitConstructor
    else return .ambiguous display [t.implicitConstructor]
  else ix.chooseOverload q ctors node args display (some (.ofSelf t)) false

-- ===== calls

/-- A call of what a binding stands for. -/
def resolveCallOf (ix : Index) (q : Queries) (b : Binding) (node : Nat) (args : List Expr)
    (display : String) : BindM Resolution :=
  match b with
  | .methods refs receiver isExtension _ =>
    ix.chooseOverload q refs node args display receiver isExtension
  | .value .. => return .resolved (.external (display ++ ".Invoke"))
  | .external .. => return .resolved (.external display)
  | .ambiguous candidates _ => return .ambiguous display candidates
  | .unresolved _ reason => return .unresolved display reason
  | .type .. | .space .. => return .unresolved display ("'" ++ display ++ "' is not invocable")

/-- A call. Of `this` and `base` it is a call of a constructor. -/
def resolveCall (ix : Index) (q : Queries) (site : Site) (node : Nat) (callee : Expr)
    (args : List Expr) : BindM Resolution := do
  match callee with
  | .thisRef _ => ix.chooseConstructor q site.type node args
  | .baseRef _ =>
    match ← BindM.ofBases (ix.baseClass site.type) with
    | none => return .resolved (.external (site.type.decl.name ++ ".base"))
    | some base => ix.chooseConstructor q base node args
  | _ =>
    let b ← q.bind callee
    let display := if b.name.isEmpty then callee.display else b.name
    ix.resolveCallOf q b node args display

-- ===== creations

def argsOf? : Expr → Option (List Expr)
  | .call _ _ args => some args
  | .creation _ _ args _ => some args
  | _ => none

/-- The type of the parameter that takes a `new()` without a type. -/
def argumentTarget (ix : Index) (q : Queries) (node : Nat) : BindM (Option BoundType) := do
  match ix.places.parents[node]? with
  | none => return none
  | some parent =>
    match (argsOf? parent).bind fun args => args.findIdx? (·.node = node) with
    | none => return none
    | some i =>
      match ← q.choice parent with
      | none => return none
      | some c =>
        let place := if c.member.isExtension then i + 1 else i
        return (Declarations.paramAt c.member.decl.params place).map fun p =>
          ix.boundType (some c.member.type) c.member.decl.typeParams p.type

/-- The constructor of the type that a creation without a type is to make, if that is known. -/
def resolveTarget (ix : Index) (q : Queries) (e : Expr) (args : List Expr) :
    Option BoundType → BindM Resolution
  | none => return .unresolved "new()" "cannot infer the target type of 'new()'"
  | some t =>
    match t.source with
    | none => return .resolved (.external t.text)
    | some s => ix.chooseConstructor q s e.node args

/-- A creation without a type: of the type that it is assigned or handed to. -/
def resolveTargetTyped (ix : Index) (q : Queries) (e : Expr) (args : List Expr) :
    BindM Resolution := do
  let target ← match ← q.typeOf e with
    | some t => pure (some t)
    | none => ix.argumentTarget q e.node
  ix.resolveTarget q e args target

/-- The types that the written type of a creation may be. -/
def createdTypes (ix : Index) (site : Site) (t : TypeRef) : List DeclaredType :=
  let arity := some t.args.length
  if t.qualifier = some "global" then (ix.typeNamed t.name arity).toList
  else if predefinedTypes.contains t.name then []
  else
    (ix.lookupQualified site.typeParams site.type.chain site.type.levels t.parts arity).found

def resolveCreation (ix : Index) (q : Queries) (site : Site) (e : Expr) (type : Option TypeRef)
    (args : List Expr) : BindM Resolution :=
  match type with
  | none => ix.resolveTargetTyped q e args
  | some t =>
    match ix.createdTypes site t with
    | [] => return .resolved (.external t.text)
    | [found] => ix.chooseConstructor q found e.node args
    | several =>
      return .ambiguous t.text (several.filterMap fun s => (ix.members.constructorSymbols s).head?)

-- ===== references

/-- Whether an expression is what a call calls. -/
def isCalleeOf (e : Expr) : Expr → Bool
  | .call _ callee _ => callee.node = e.node
  | _ => false

/-- A name or member access: the reference of the call if it is called, else what it stands
for. -/
def resolveName (ix : Index) (q : Queries) (e : Expr) : BindM (Option Resolution) := do
  match ix.places.parents[e.node]?.filter (isCalleeOf e) with
  | some call => q.resolve call
  | none => return (← q.bind e).resolution

/-- A reference that was not looked up before. -/
def resolveFresh (ix : Index) (q : Queries) (e : Expr) : BindM (Option Resolution) :=
  match ix.places.sites[e.node]? with
  | none => return none
  | some site =>
    match e with
    | .call mark callee args => do return some (← ix.resolveCall q site mark.node callee args)
    | .creation _ type args _ => do return some (← ix.resolveCreation q site e type args)
    | .member .. | .ident .. => ix.resolveName q e
    | _ => return none

/-- What an expression refers to. -/
def resolveStep (ix : Index) (q : Queries) (e : Expr) : BindM (Option Resolution) := do
  match (← get).resolutions[e.node]? with
  | some r => return r
  | none =>
    modify fun s => { s with resolutions := s.resolutions.insert e.node none }
    let r ← ix.resolveFresh q e
    modify fun s => { s with resolutions := s.resolutions.insert e.node r }
    return r

-- ===== the knot

/-- The questions with at most `bound` questions inside one another. -/
def queriesWithin (ix : Index) : (bound : Nat) → Queries
  | 0 => ⟨fun _ => return .unknown, fun _ => return none⟩
  | bound + 1 =>
    ⟨fun e => ix.bindStep (ix.queriesWithin bound) e,
     fun e => ix.resolveStep (ix.queriesWithin bound) e⟩

/-- The questions. Each is worked out for an expression at most once at a time, which bounds how
deep they go. -/
def queries (ix : Index) : Queries :=
  ix.queriesWithin (2 * ix.nodeCount + 2)

def bind (ix : Index) (e : Expr) : BindM Binding :=
  ix.queries.bind e

def resolve (ix : Index) (e : Expr) : BindM (Option Resolution) :=
  ix.queries.resolve e

end Index

end SourceBundle
