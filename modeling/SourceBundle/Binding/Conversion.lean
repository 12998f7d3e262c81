/-
How well an argument fits a parameter, and how well the arguments of a
call fit an overload.
-/
import SourceBundle.Binding.Hierarchy

namespace SourceBundle

/-- How a type fits another. -/
inductive Fit where
  /-- Nothing speaks against it. -/
  | unknown
  /-- Values are converted. -/
  | convertible
  | identical
deriving DecidableEq, Repr

def Fit.score : Fit → Nat
  | unknown => 0
  | convertible => 1
  | identical => 2

/-- Whether a type that only has a name is predefined. -/
def BoundType.isPredefined (t : BoundType) : Bool :=
  predefinedTypes.contains t.name

/-- Whether a parameter takes every value. -/
def BoundType.isAny (t : BoundType) : Bool :=
  Platform.anyTypes.contains t.name

/-- How `null` fits a type: anywhere but where a number or a truth value is asked for. -/
def fitNull (param : BoundType) : Option Fit :=
  if Platform.widens param.name || param.name = "bool" then none else some .convertible

/-- How a platform type fits another. -/
def fitPlatform (arg param : BoundType) : Option Fit :=
  if arg.name = param.name then some .identical
  else if Platform.widensTo arg.name param.name || param.isAny then some .convertible
  else if arg.isPredefined && param.isPredefined then none
  else some .unknown

/-- How a declared type fits a platform type, or the other way round. -/
def fitMixed (arg param : BoundType) : Option Fit :=
  if param.isAny then some .convertible
  else if arg.isPredefined || param.isPredefined then none
  else some .unknown

namespace Declarations

/-- How an argument fits a parameter, if it can at all. -/
def fit (ds : Declarations) (arg param : BoundType) : StateM BaseMemo (Option Fit) :=
  if param.isTypeParam || arg.isTypeParam then return some .convertible
  else if arg.name = "null" then return fitNull param
  else if arg.rank ≠ param.rank then return none
  else
    match arg.source, param.source with
    | some a, some p =>
      if a.qualifiedName = p.qualifiedName then return some .identical
      else return if ← ds.isSubtype a p then some .convertible else none
    | none, none => return fitPlatform arg param
    | _, _ => return fitMixed arg param

-- ===== overloads

/-- Whether parameters take this number of arguments. -/
def takes (params : List Param) (count : Nat) : Bool :=
  let required := (params.filter fun p => !p.hasDefault && !p.isVariadic).length
  if params.any (·.isVariadic) then required ≤ count
  else required ≤ count && count ≤ params.length

/-- The parameter that takes the argument at a place. -/
def paramAt (params : List Param) (i : Nat) : Option Param :=
  if i < params.length then params[i]? else params.getLast?.filter (·.isVariadic)

/-- The better of two fits. -/
def betterFit (a b : Option Fit) : Option Fit :=
  match a, b with
  | some x, some y => if x.score < y.score then b else a
  | none, b => b
  | a, none => a

/-- How an argument fits a parameter; one that takes all further arguments is also fitted by an
element. -/
def fitParam (ds : Declarations) (r : MemberRef) (p : Param) (arg : BoundType) :
    StateM BaseMemo (Option Fit) := do
  let param := ds.boundType (some r.type) r.decl.typeParams p.type
  let whole ← ds.fit arg param
  if p.isVariadic && 0 < param.rank then
    return betterFit whole (← ds.fit arg (param.withRank (param.rank - 1)))
  else return whole

/-- The sum of the weights with which arguments fit the parameters from a place on. Arguments of
unknown type weigh nothing; if one does not fit there is no sum. -/
def fitArgs (ds : Declarations) (r : MemberRef) (params : List Param) :
    (place : Nat) → List (Option BoundType) → StateM BaseMemo (Option Nat)
  | _, [] => return some 0
  | i, arg :: args =>
    match arg, paramAt params i with
    | some a, some p => do
      match ← ds.fitParam r p a with
      | none => return none
      | some f => return (← ds.fitArgs r params (i + 1) args).map (f.score + ·)
    | _, _ => ds.fitArgs r params (i + 1) args

/-- The weights of those overloads that the arguments fit. -/
def fitOverloads (ds : Declarations) (skip : Nat) (args : List (Option BoundType)) :
    List MemberRef → StateM BaseMemo (List (Nat × MemberRef))
  | [] => return []
  | r :: rs => do
    let score ← ds.fitArgs r (r.decl.params.drop skip) 0 args
    let more ← ds.fitOverloads skip args rs
    return (score.map (·, r)).toList ++ more

/-- The overloads of the greatest weight. -/
def heaviest (scored : List (Nat × MemberRef)) : List MemberRef :=
  let best := scored.foldl (fun n s => max n s.1) 0
  (scored.filter (·.1 = best)).map (·.2)

end Declarations

namespace Index

/-- Whether the first parameter of a method takes a receiver. -/
def takesReceiver (ix : Index) (r : MemberRef) (receiver : BoundType) : StateM BaseMemo Bool :=
  match r.decl.params with
  | [] => return true
  | p :: _ => do
    let fit ← ix.fit receiver (ix.boundType (some r.type) r.decl.typeParams p.type)
    return fit.isSome

/-- The extension methods among some that take a receiver. -/
def extensionsFor (ix : Index) (receiver : BoundType) :
    List MemberRef → StateM BaseMemo (List MemberRef)
  | [] => return []
  | r :: rs => do
    let fits ← ix.takesReceiver r receiver
    let more ← ix.extensionsFor receiver rs
    return if fits then r :: more else more

/-- The extension methods of a name that take a receiver, or all if its type is not known. -/
def extensionMethods (ix : Index) (name : String) (receiver : Option BoundType) :
    StateM BaseMemo (List MemberRef) :=
  match receiver with
  | none => return ix.members.extensions name
  | some t => ix.extensionsFor t (ix.members.extensions name)

end Index

end SourceBundle
