/-
The closure of a root: all units that it needs, in the order in which
they are found.

The walk keeps a stack of units to visit. A unit is marked when it is
taken from the stack; if it was not marked before, and is no enum, it
is expanded, and its successors go on the stack with the first on top.
So units are met in depth-first order, before their successors.
-/
import SourceBundle.Closure.References

namespace SourceBundle

-- ===== errors

/-- Why there is no bundle. -/
inductive WalkError where
  /-- The root's name has no namespace, or nothing after it. -/
  | rootUnqualified (root : String)
  /-- No unit of the name can be a root. -/
  | rootNotFound (root : String)
  /-- The root is declared in another namespace than its name says. -/
  | spaceMissing (root space : String)
  /-- The walk was called off after these units. -/
  | cancelled (visited : List String)
  /-- Two units share a name. -/
  | duplicateUnit (name : String)
deriving DecidableEq, Repr

def WalkError.message : WalkError → String
  | rootUnqualified root =>
    "error: [CSB-0010] root '" ++ root ++ "' must be a namespace-qualified class name"
  | rootNotFound root => "error: [CSB-0010] class '" ++ root ++ "' not found in workspace"
  | spaceMissing root space =>
    "error: [CSB-0020] namespace declaration '" ++ space ++ "' for class '" ++ root
      ++ "' not found"
  | cancelled visited =>
    s!"error: [CSB-0050] bundling cancelled after visiting {visited.length} unit(s)"
  | duplicateUnit name =>
    "internal bundler error: [ICE-0010] two distinct units share the qualified name '" ++ name
      ++ "'"

-- ===== root

/-- Whether declarations of this keyword can hold the entry method. -/
def TypeKeyword.canBeRoot : TypeKeyword → Bool
  | classType | structType | record | recordStruct => true
  | interfaceType | enumType | delegateType => false

section

variable {m : Type → Type} [Monad m] [MonadLog m]

/-- The unit that a root's name names. -/
def locateRoot (s : Service m) (root : String) : Except WalkError TypeUnit :=
  let (space, name) := Text.splitLast root
  if space.isEmpty || name.isEmpty then .error (.rootUnqualified root)
  else
    match s.findUnit space name with
    | none => .error (.rootNotFound root)
    | some u =>
      if u.kind ≠ .typeLike || !u.keyword.canBeRoot then .error (.rootNotFound root)
      else if s.enclosingSpace u ≠ some space then .error (.spaceMissing root space)
      else .ok u

/-- The message that says where a root was found. -/
def rootMessage (root : String) (u : TypeUnit) : String :=
  let files := ", ".intercalate u.files
  "Root '" ++ root ++ "' found in " ++ (if files.isEmpty then "<memory>" else files)

-- ===== successors

/-- What a symbol leads to: nothing, a unit without a namespace, or a unit in one. -/
inductive Dependency where
  | absent
  | homeless (unit : TypeUnit)
  | located (unit : TypeUnit) (space : String)

/-- The dependency on the unit that declares a symbol. -/
def Service.dependency (s : Service m) (symbol : Symbol) : Dependency :=
  if symbol.kind = .external then .absent
  else
    match s.declaringUnit symbol with
    | none => .absent
    | some u =>
      match s.enclosingSpace u with
      | none => .homeless u
      | some space => .located u space

/-- The namespace that a dependency lies in, if it is another than the unit's own and not the
global one. -/
def Dependency.foreignSpace? (own : String) : Dependency → Option String
  | .located _ space => if space.isEmpty || space = own then none else some space
  | _ => none

/-- The units that a dependency brings along: under the wide policy its whole namespace first. -/
def Service.brings (s : Service m) (policy : Policy) : Dependency → List TypeUnit
  | .located u space => (if policy = .wide then s.unitsIn space else []) ++ [u]
  | _ => []

/-- The warning for a dependency without a namespace. -/
def Dependency.warning? (own : String) : Dependency → Option Diagnostic
  | .homeless u =>
    some { severity := .warning,
           message := "[CLO-0010] dependency '" ++ u.qualifiedName
             ++ "' has no enclosing namespace; skipped",
           unit := some own }
  | _ => none

/-- What a unit leads to. -/
structure Expansion where
  successors : List TypeUnit
  spaces : List String
  diagnostics : List Diagnostic

/-- The successors of a unit by the symbols it refers to. -/
def Service.expansion (s : Service m) (policy : Policy) (u : TypeUnit) (found : Collection) :
    Expansion :=
  let deps := found.symbols.map s.dependency
  { successors := Text.distinctBy TypeUnit.qualifiedName (deps.flatMap (s.brings policy))
    spaces := Text.distinct (deps.filterMap (Dependency.foreignSpace? u.space))
    diagnostics := found.diagnostics ++ deps.filterMap (Dependency.warning? u.qualifiedName) }

-- ===== walk

/-- How far a walk has got. -/
structure Walk where
  /-- The units in the order in which they were found. -/
  visited : List TypeUnit := []
  /-- For each unit the namespaces of its dependencies. -/
  spaces : List (String × List String) := []
  diagnostics : List Diagnostic := []
  /-- How often the flag to stop has been read. -/
  polls : Nat := 0

namespace Walk

def names (w : Walk) : List String :=
  w.visited.map (·.qualifiedName)

/-- The walk after the flag to stop was read once more. -/
def poll (w : Walk) : Walk :=
  { w with polls := w.polls + 1 }

/-- The unit that was marked under the name of a unit. -/
def marked? (w : Walk) (u : TypeUnit) : Option TypeUnit :=
  w.visited.find? (·.qualifiedName = u.qualifiedName)

/-- The walk after a unit was marked and expanded. -/
def mark (w : Walk) (u : TypeUnit) (spaces : List String) (diagnostics : List Diagnostic) : Walk :=
  { w with
    visited := w.visited ++ [u], spaces := w.spaces ++ [(u.qualifiedName, spaces)],
    diagnostics := w.diagnostics ++ diagnostics }

end Walk

/-- Takes units from the stack until one has to be expanded, and goes on with `next` from its
successors. The flag to stop is read before each unit is taken. -/
def walkStep (s : Service m) (c : Context) (stop : Nat → Bool)
    (next : List TypeUnit → Walk → m (Except WalkError Walk)) :
    List TypeUnit → Walk → m (Except WalkError Walk)
  | [], w => return .ok w
  | u :: stack, w =>
    if stop w.polls then return .error (.cancelled w.names)
    else
      let w := w.poll
      match w.marked? u with
      | some known =>
        if known.key = u.key then walkStep s c stop next stack w
        else return .error (.duplicateUnit u.qualifiedName)
      | none =>
        if u.isEnum then do
          c.log .debug s!"Visited enum '{u.qualifiedName}' (not expanded)"
          walkStep s c stop next stack (w.mark u [] [])
        else do
          let found ← collect s c u
          let x := s.expansion c.policy u found
          c.log .debug s!"Visited '{u.qualifiedName}': {x.successors.length} successor(s)"
          next (x.successors ++ stack) (w.mark u x.spaces x.diagnostics)

/-- The walk with at most `bound` expansions. -/
def walkWithin (s : Service m) (c : Context) (stop : Nat → Bool) :
    (bound : Nat) → List TypeUnit → Walk → m (Except WalkError Walk)
  | 0 => fun _ w => return .ok w
  | bound + 1 => walkStep s c stop (walkWithin s c stop bound)

/-- The walk from a stack of units. Each expansion marks another name, so there are no more of
them than names. -/
def walkFrom (s : Service m) (c : Context) (stop : Nat → Bool) (stack : List TypeUnit) :
    m (Except WalkError Walk) :=
  walkWithin s c stop (s.names.length + 1) stack {}

-- ===== bundle

/-- A root with all that it needs. -/
structure Bundle where
  root : TypeUnit
  units : List TypeUnit
  spaces : List (String × List String)
  diagnostics : List Diagnostic
  policy : Policy

/-- The namespaces of the units, each once. -/
def Bundle.namespaces (b : Bundle) : List String :=
  Text.distinct (b.units.map (·.space))

/-- The bundle of a root from the walk of all that it needs. -/
def Walk.toBundle (w : Walk) (root : TypeUnit) (policy : Policy) : Bundle :=
  { root, units := w.visited, spaces := w.spaces, diagnostics := w.diagnostics, policy }

/-- The bundle of a root. `stop n` is what the flag to stop says when it is read the `n`th time,
counted from zero. -/
def bundle (s : Service m) (c : Context) (root : String) (stop : Nat → Bool := fun _ => false) :
    m (Except WalkError Bundle) := do
  c.log .info (stageMessage "Walking closure of" root)
  match locateRoot s root with
  | .error e => return .error e
  | .ok u =>
    c.log .debug (rootMessage root u)
    match ← walkFrom s c stop [u] with
    | .error e => return .error e
    | .ok w =>
      c.log .info s!"Closure of '{root}' has {w.visited.length} unit(s)"
      return .ok (w.toBundle u c.policy)

end

end SourceBundle
