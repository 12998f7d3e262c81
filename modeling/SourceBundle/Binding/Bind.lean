/-
Binding expressions: what a name, a member access, a call or any other
expression stands for. Questions about other expressions go through
`Queries`, so that each rule here is a plain function.
-/
import SourceBundle.Binding.Basic
import SourceBundle.Text.Upper

namespace SourceBundle

namespace Index

-- ===== members

/-- What members of one name stand for: all methods among them, or else the first member. -/
def membersBinding (ix : Index) (refs : List MemberRef) (name : String)
    (receiver : Option BoundType) : Binding :=
  match refs.filter (·.decl.kind = .method), refs with
  | [], [] => .unknown
  | [], r :: _ => .value (ix.memberType r receiver) (some r) name
  | methods, _ => .methods methods receiver false name

/-- A declared type applied to written arguments. -/
def typeBinding (ix : Index) (site : Site) (t : DeclaredType) (typeArgs : List TypeRef) : Binding :=
  let args := ix.boundTypes (some site.type) site.typeParams typeArgs
  .type { name := t.qualifiedName, source := some t, args } t.decl.name

/-- The number of type arguments, if there are any. -/
def arityOf (typeArgs : List TypeRef) : Option Nat :=
  if typeArgs.isEmpty then none else some typeArgs.length

/-- A member of something of unknown type: any member of the name. -/
def bindUnknownMember (ix : Index) (name display : String) : Binding :=
  let refs := ix.members.anywhere name
  if Platform.objectMembers.contains name || refs.isEmpty then .external none display
  else .ambiguous (Text.distinctBy Symbol.identity (refs.map (·.symbol))) display

/-- A member of a platform type: an extension method, or something of the platform. -/
def bindPlatformMember (ix : Index) (t : Option BoundType) (name display : String) :
    BindM Binding := do
  match ← BindM.ofBases (ix.extensionMethods name t) with
  | [] =>
    match t with
    | none => return .external none display
    | some t => return .external (← liftExcept (t.platformMember name)) display
  | refs => return .methods refs t true display
where
  /-- A result that may be an error. -/
  liftExcept {α : Type} : Except BindError α → BindM α
    | .ok a => return a
    | .error e => throw e

/-- A member of a value of a declared type, or of the type itself. -/
def bindSourceMember (ix : Index) (t : BoundType) (s : DeclaredType) (name display : String) :
    BindM Binding := do
  let (refs, outside) ← BindM.ofBases (ix.findMembers s name)
  if !refs.isEmpty then return (ix.membersBinding refs name (some t)).withName display
  else
    match ← BindM.ofBases (ix.extensionMethods name (some t)) with
    | [] =>
      if Platform.objectMembers.contains name || outside then return .external none display
      else
        return .unresolved display
          ("'" ++ s.qualifiedName ++ "' has no member '" ++ name ++ "'")
    | refs => return .methods refs (some t) true display

/-- The members of a nullable value that stand for its content. -/
def nullableMembers : List String := ["Value", "HasValue", "GetValueOrDefault"]

/-- A member of a value. -/
def bindValueMember (ix : Index) (type : Option BoundType) (name display : String) :
    BindM Binding :=
  match type with
  | none => return ix.bindUnknownMember name display
  | some t =>
    if t.isTypeParam then return ix.bindUnknownMember name display
    else if t.nullable && nullableMembers.contains name then
      if name = "Value" then return .value (some (t.withRank t.rank)) none display
      else return .external none display
    else
      match t.source with
      | none => ix.bindPlatformMember (some t) name display
      | some s =>
        if 0 < t.rank then ix.bindPlatformMember (some t) name display
        else ix.bindSourceMember t s name display

/-- A member access, given what it is accessed on. -/
def bindMember (ix : Index) (site : Site) (left : Binding) (name : String)
    (typeArgs : List TypeRef) : BindM Binding :=
  let arity := arityOf typeArgs
  let display := Text.dotted left.name name
  match left with
  | .space space _ =>
    let full := Text.dotted space name
    match ix.typeNamed full arity with
    | some t => return ix.typeBinding site t typeArgs
    | none =>
      if ix.spaces.contains full then return .space full full else return .external none full
  | .type t _ =>
    match t.source with
    | none => return .external none display
    | some s =>
      match ix.nestedType s name arity with
      | some nested => return ix.typeBinding site nested typeArgs
      | none => ix.bindSourceMember t s name display
  | .value type .. => ix.bindValueMember type name display
  | .external type _ => ix.bindPlatformMember type name display
  | .ambiguous .. | .methods .. => return ix.bindUnknownMember name display
  | .unresolved _ reason => return .unresolved display reason

-- ===== names

def localType (ix : Index) (q : Queries) (site : Site) (l : LocalSymbol) :
    BindM (Option BoundType) :=
  match l.type, l.decl with
  | some t, _ =>
    let typeParams := if l.kind = .primaryParam then [] else site.typeParams
    return some (ix.boundType (some site.type) typeParams t)
  | none, none => return none
  | none, some d =>
    if d.isLambda then
      match d.declarator.bind (ix.places.lambdaSources[·.node]?) with
      | none => return none
      | some source => return (← q.typeOf source).bind ix.elementOf
    else
      match d.init with
      | none => return none
      | some init => do
        let t ← q.typeOf init
        return if d.isForeach then t.bind ix.elementOf else t

/-- The members of a name that the types around a place have, innermost first, with the type that
has them. -/
def membersAround (ix : Index) (name : String) :
    List DeclaredType → BindM (Option (DeclaredType × List MemberRef))
  | [] => return none
  | t :: outer => do
    let (refs, _) ← BindM.ofBases (ix.findMembers t name)
    if refs.isEmpty then ix.membersAround name outer else return some (t, refs)

/-- A name behind `global::`. -/
def bindGlobalName (ix : Index) (site : Site) (name : String) (typeArgs : List TypeRef) :
    Binding :=
  match ix.typeNamed name (arityOf typeArgs) with
  | some t => ix.typeBinding site t typeArgs
  | none =>
    if ix.spaces.contains name then .space name name else .external none ("global::" ++ name)

/-- A name that no type, static import or namespace of the sources has. Names of the platform
start with a capital letter. -/
def bindForeignName (name : String) : Binding :=
  if (name.toList.head?.map Text.isUpper).getD false then .external none name
  else .value none none name

/-- A name that is neither a local nor a member of a type around the place: a type, a member of a
statically imported type, or a namespace. -/
def bindOuterName (ix : Index) (site : Site) (name : String) (typeArgs : List TypeRef) :
    BindM Binding := do
  let levels := site.type.levels
  match ix.lookupSimple site.typeParams site.type.chain levels name (arityOf typeArgs) with
  | .typeParam => return .type (.param name) name
  | .types [t] => return ix.typeBinding site t typeArgs
  | .types (t :: ts) => return .ambiguous ((t :: ts).map (·.symbol)) name
  | .types [] =>
    match ← ix.membersAround name (ix.staticImports levels) with
    | some (_, refs) => return ix.membersBinding refs name none
    | none =>
      match ix.spaceNamed name levels with
      | some space => return .space space name
      | none => return bindForeignName name

/-- A name that is no local. -/
def bindNonlocal (ix : Index) (site : Site) (name : String) (typeArgs : List TypeRef) :
    BindM Binding := do
  match ← ix.membersAround name site.type.chain with
  | some (t, refs) => return ix.membersBinding refs name (some (.ofSelf t))
  | none => ix.bindOuterName site name typeArgs

def bindName (ix : Index) (q : Queries) (site : Site) (mark : Mark) (name : String)
    (typeArgs : List TypeRef) (qualifier : Option String) : BindM Binding :=
  if qualifier = some "global" then return ix.bindGlobalName site name typeArgs
  else if predefinedTypes.contains name then return .type (.platform name) name
  else
    let place := mark.span.map fun s => (s.startLine, s.startColumn)
    let found := if typeArgs.isEmpty then site.scope.lookup name place else none
    match found with
    | some l => do return .value (← ix.localType q site l) none name
    | none => ix.bindNonlocal site name typeArgs

-- ===== expressions

/-- A call: the type that its overload gives, or that a platform method gives. -/
def bindCall (ix : Index) (q : Queries) (e callee : Expr) (args : List Expr) : BindM Binding := do
  match ← q.choice e with
  | some c => return .ofType (ix.memberType c.member c.receiver)
  | none =>
    match callee with
    | .member _ target name .. =>
      let receiver ← q.typeOf target
      return .ofType (receiver.bind ix.elementOf >>= (·.collectionCall name (!args.isEmpty)))
    | _ => return .unknown

/-- A group: its one item, or a value of the type that it is cast to. -/
def bindGroup (q : Queries) : List Expr → BindM Binding
  | [item] => q.bind item
  | [.group _ [cast], _] => do
    match ← q.bind cast with
    | .type t _ => return .ofType (some t)
    | _ => return .unknown
  | _ => return .unknown

def literalType (kind : LiteralKind) : Option BoundType :=
  match kind.name with
  | "default" => none
  | "type" => some (.platform "Type")
  | name => some (.platform name)

/-- An expression at a site. -/
def bindAt (ix : Index) (q : Queries) (site : Site) (e : Expr) : BindM Binding :=
  match e with
  | .ident mark name typeArgs qualifier => ix.bindName q site mark name typeArgs qualifier
  | .member _ target name typeArgs _ => do ix.bindMember site (← q.bind target) name typeArgs
  | .call _ callee args => ix.bindCall q e callee args
  | .creation _ (some t) .. => return .ofType (some (site.boundType ix.toDeclarations t))
  | .creation mark none .. =>
    return .ofType (ix.places.targets[mark.node]?.map fun (t, s) => s.boundType ix.toDeclarations t)
  | .array _ (some t) _ => return .ofType (some (site.boundType ix.toDeclarations t).arrayOf)
  | .array _ none [] => return .unknown
  | .array _ none (item :: _) => do return .ofType ((← q.typeOf item).map (·.arrayOf))
  | .element _ target _ => do return .ofType ((← q.typeOf target).bind ix.indexedType)
  | .literal _ kind _ => return .ofType (literalType kind)
  | .interpolated .. => return .ofType (some (.platform "string"))
  | .thisRef _ => return .ofType (some (.ofSelf site.type))
  | .baseRef _ => do
    return .ofType ((← BindM.ofBases (ix.baseClass site.type)).map .ofSelf)
  | .group _ items => bindGroup q items

/-- An expression that was not bound before. -/
def bindFresh (ix : Index) (q : Queries) (e : Expr) : BindM Binding :=
  match ix.places.sites[e.node]? with
  | none => return .unknown
  | some site => ix.bindAt q site e

/-- What an expression stands for. One whose binding asks for itself is a value of which nothing
is known. -/
def bindStep (ix : Index) (q : Queries) (e : Expr) : BindM Binding := do
  let s ← get
  match s.bindings[e.node]? with
  | some b => return b
  | none =>
    if s.running.contains e.node then return .unknown
    else
      modify fun s => { s with running := e.node :: s.running }
      let done (s : BindState) : BindState := { s with running := s.running.erase e.node }
      let b ← tryCatch (ix.bindFresh q e) fun error => do
        modify done
        throw error
      modify fun s => { done s with bindings := s.bindings.insert e.node b }
      return b

end Index

end SourceBundle
