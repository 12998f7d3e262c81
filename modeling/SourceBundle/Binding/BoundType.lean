/-
Types as expressions have them: a declared type, a platform type or a
type parameter, with type arguments and a number of array suffixes.
-/
import SourceBundle.Binding.Platform
import SourceBundle.Binding.TypeLookup
import SourceBundle.Text.Digit
import SourceBundle.Text.Quoted
import SourceBundle.Token.Kind

namespace SourceBundle

/-- A bound type; `source` is the declaration of a declared one. -/
structure BoundType where
  name : String
  source : Option DeclaredType := none
  args : List BoundType := []
  rank : Nat := 0
  isTypeParam : Bool := false
  nullable : Bool := false
deriving Repr

namespace BoundType

/-- The last part of the name. -/
def simpleName (t : BoundType) : String :=
  (Text.splitLast t.name).2

/-- The same type with another number of array suffixes, not nullable. -/
def withRank (t : BoundType) (rank : Nat) : BoundType :=
  { t with rank, nullable := false }

/-- The type of arrays of these. -/
def arrayOf (t : BoundType) : BoundType :=
  t.withRank (t.rank + 1)

/-- A platform type of some arguments. -/
def platform (name : String) (args : List BoundType := []) : BoundType :=
  { name, args }

def param (name : String) : BoundType :=
  { name, isTypeParam := true }

mutual

/-- The type with its arguments and array suffixes. -/
def text : BoundType → String
  | { name, args, rank, .. } =>
    name ++ (if args.isEmpty then "" else "<" ++ ", ".intercalate (texts args) ++ ">")
      ++ String.join (List.replicate rank "[]")
termination_by structural t => t

def texts : List BoundType → List String
  | [] => []
  | t :: ts => text t :: texts ts
termination_by structural ts => ts

end

/-- Whether a platform type is a collection with one type argument. -/
def isSequence (t : BoundType) : Bool :=
  Platform.sequenceTypes.contains t.simpleName

/-- Whether a platform type is a collection of keys with values. -/
def isMap (t : BoundType) : Bool :=
  Platform.mapTypes.contains t.simpleName

/-- The type of the elements of arrays, strings and platform collections. -/
def element (t : BoundType) : Option BoundType :=
  if 0 < t.rank then some (t.withRank (t.rank - 1))
  else if t.source.isSome || t.isTypeParam then none
  else if t.simpleName = "string" then some (platform "char")
  else
    match t.args with
    | [a] => if t.isSequence then some a else none
    | [_, _] => if t.isMap then some (platform "KeyValuePair" t.args) else none
    | _ => none

/-- What a declared type is inside itself: applied to its own parameters. -/
def ofSelf (t : DeclaredType) : BoundType :=
  { name := t.qualifiedName, source := some t, args := t.decl.typeParams.map param }

/-- The argument that stands for a type parameter, with the array suffixes of its use. -/
def argument? (params : List String) (args : List BoundType) (name : String) (rank : Nat) :
    Option BoundType := do
  let arg ← args[params.idxOf name]?
  return if rank = 0 then arg else arg.withRank (arg.rank + rank)

mutual

/-- A type with the parameters of a declaration replaced by arguments. A parameter without an
argument stays. -/
def replaceParams (params : List String) (given : List BoundType) : BoundType → BoundType
  | t@{ name, args, rank, isTypeParam, .. } =>
    if isTypeParam && params.contains name then (argument? params given name rank).getD t
    else { t with args := replaceParamsAll params given args }
termination_by structural t => t

def replaceParamsAll (params : List String) (given : List BoundType) :
    List BoundType → List BoundType
  | [] => []
  | t :: ts => replaceParams params given t :: replaceParamsAll params given ts
termination_by structural ts => ts

end

/-- A type written in a declaration, seen through a receiver of that type. -/
def seenThrough (t : BoundType) (declared : DeclaredType) (receiver : Option BoundType) :
    BoundType :=
  match receiver with
  | none => t
  | some r =>
    if !r.args.isEmpty && (r.source.map (·.qualifiedName)) = some declared.qualifiedName then
      t.replaceParams declared.decl.typeParams r.args
    else t

end BoundType

-- ===== written types

namespace Declarations

mutual

/-- The type that a written one is inside a declaration and the type parameters of a member. A
name behind an alias qualifier is looked up from outside. -/
def boundType (ds : Declarations) (t : Option DeclaredType) (typeParams : List String) :
    TypeRef → BoundType
  | ref@{ name, args, qualifier, rank, nullable, tuple, .. } =>
    let bound : BoundType :=
      if tuple then .platform TypeRef.tupleName (boundTypes ds t typeParams args)
      else if predefinedTypes.contains name then .platform name
      else
        let site := if qualifier.isNone then t else none
        let look := ds.lookupQualified typeParams ((site.map (·.chain)).getD [])
          ((site.map (·.levels)).getD rootLevels) ref.parts (some args.length)
        match look with
        | .typeParam => .param name
        | .types (found :: _) =>
          { name := found.qualifiedName, source := some found
            args := boundTypes ds t typeParams args }
        | .types [] => .platform name (boundTypes ds t typeParams args)
    { bound with rank, nullable }
termination_by structural ref => ref

def boundTypes (ds : Declarations) (t : Option DeclaredType) (typeParams : List String) :
    List TypeRef → List BoundType
  | [] => []
  | ref :: refs => boundType ds t typeParams ref :: boundTypes ds t typeParams refs
termination_by structural refs => refs

end

/-- The base types that the parts of a type write, in order. -/
def writtenBases (ds : Declarations) (qualifiedName : String) : List BoundType :=
  (ds.named qualifiedName).flatMap fun part => part.decl.baseTypes.map (ds.boundType (some part) [])

/-- The type of the elements of a type. A declared collection has the elements of the first
platform collection among its bases. -/
def elementOf (ds : Declarations) (t : BoundType) : Option BoundType :=
  match t.element, t.source with
  | some e, _ => some e
  | none, none => none
  | none, some s =>
    ((ds.writtenBases s.qualifiedName).filter (·.source.isNone)).findSome? BoundType.element

end Declarations

-- ===== platform members

/-- Why the type of a member cannot be told. -/
inductive BindError where
  /-- The number of a tuple element has digits that are no decimal digits. -/
  | badElementNumber (digits : String)
  /-- The number of a tuple element has more decimal digits than are read. -/
  | longElementNumber (count : Nat)
deriving DecidableEq, Repr

/-- The most decimal digits that the number of a tuple element is read with. -/
def maxElementDigits : Nat := 4300

/-- The message of an error. It shows no more than two hundred characters of a bad number. -/
def BindError.message : BindError → String
  | badElementNumber digits =>
    "invalid literal for int() with base 10: "
      ++ String.ofList ((Text.quoted digits).toList.take 200)
  | longElementNumber count =>
    s!"Exceeds the limit ({maxElementDigits} digits) for integer string conversion: "
      ++ s!"value has {count} digits; use sys.set_int_max_str_digits() to increase the limit"

namespace BoundType

/-- The digits behind `Item` in the name of a tuple element. -/
def elementDigits? (name : String) : Option String :=
  match name.toList with
  | 'I' :: 't' :: 'e' :: 'm' :: digits =>
    if !digits.isEmpty && digits.all Text.isDigit then some (String.ofList digits) else none
  | _ => none

/-- The type of the tuple element with the given digits, counted from one. -/
def tupleElement (t : BoundType) (digits : String) : Except BindError (Option BoundType) :=
  let count := (digits.toList.takeWhile fun c => (Text.decimalValue? c).isSome).length
  if maxElementDigits < count then .error (.longElementNumber count)
  else
    match Text.decimalNumber? digits.toList with
    | none => .error (.badElementNumber digits)
    | some 0 => .ok none
    | some (n + 1) => .ok t.args[n]?

/-- The type of a member of a platform type, where it is known. -/
def platformMember (t : BoundType) (name : String) : Except BindError (Option BoundType) :=
  let simple := t.simpleName
  if 0 < t.rank then
    .ok (if name = "Length" || name = "Rank" then some (platform "int") else none)
  else if name = "Count" && (t.isSequence || t.isMap) then .ok (some (platform "int"))
  else if simple = "string" && name = "Length" then .ok (some (platform "int"))
  else
    match t.args with
    | [key, value] =>
      if simple = "KeyValuePair" && name = "Key" then .ok (some key)
      else if simple = "KeyValuePair" && name = "Value" then .ok (some value)
      else if t.isMap && name = "Keys" then .ok (some (platform "IEnumerable" [key]))
      else if t.isMap && name = "Values" then .ok (some (platform "IEnumerable" [value]))
      else tupleMember t simple name
    | _ => tupleMember t simple name
where
  /-- The type of an element of a tuple. -/
  tupleMember (t : BoundType) (simple name : String) : Except BindError (Option BoundType) :=
    if simple = TypeRef.tupleName then
      match elementDigits? name with
      | some digits => t.tupleElement digits
      | none => .ok none
    else .ok none

/-- The type that a method of a collection gives, where it is known, from the type of the
elements. -/
def collectionCall (element : BoundType) (name : String) (hasArgs : Bool) : Option BoundType :=
  if Platform.elementMethods.contains name || ((name = "Min" || name = "Max") && !hasArgs) then
    some element
  else if Platform.sequenceMethods.contains name then some (platform "IEnumerable" [element])
  else if name = "ToList" then some (platform "List" [element])
  else if name = "ToHashSet" then some (platform "HashSet" [element])
  else if name = "ToArray" then some element.arrayOf
  else none

end BoundType

end SourceBundle
