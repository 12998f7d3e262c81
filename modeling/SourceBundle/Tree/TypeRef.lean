/-
Type references as they are written: a dotted name with the type
arguments of its last part, or a tuple of types, with a nullable mark
and array suffixes. Arrays of several dimensions count as one suffix.
-/
import SourceBundle.Text.Split

namespace SourceBundle

/-- A stretch of source text, from its first character to just past its last. -/
structure Span where
  startLine : Nat
  startColumn : Nat
  endLine : Nat
  endColumn : Nat
deriving DecidableEq, Repr, Inhabited

/-- A span as `line:column-line:column`. -/
def Span.text (s : Span) : String :=
  s!"{s.startLine}:{s.startColumn}-{s.endLine}:{s.endColumn}"

/-- A written type. The elements of a tuple are its arguments. -/
structure TypeRef where
  name : String
  args : List TypeRef := []
  qualifier : Option String := none
  rank : Nat := 0
  nullable : Bool := false
  tuple : Bool := false
  span : Option Span := none
deriving Repr, Inhabited

namespace TypeRef

/-- The name that tuple types have. -/
def tupleName : String := "(tuple)"

/-- The parts of the dotted name. -/
def parts (t : TypeRef) : List String :=
  Text.splitAt '.' t.name

/-- The last part of the dotted name. -/
def simpleName (t : TypeRef) : String :=
  t.parts.getLastD ""

/-- The type of one element of an array of this type. -/
def elementType (t : TypeRef) : TypeRef :=
  { t with rank := t.rank - 1, nullable := false }

/-- A name with the alias that qualifies it. -/
def qualifiedText (qualifier : Option String) (name : String) : String :=
  match qualifier with
  | none => name
  | some a => a ++ "::" ++ name

mutual

/-- The type as it is written in one fixed spacing. -/
def text : TypeRef → String
  | { name, args, qualifier, rank, nullable, tuple, .. } =>
    let head :=
      if tuple then "(" ++ ", ".intercalate (texts args) ++ ")"
      else
        qualifiedText qualifier name ++
          (if args.isEmpty then "" else "<" ++ ", ".intercalate (texts args) ++ ">")
    head ++ (if nullable then "?" else "") ++ String.join (List.replicate rank "[]")
termination_by structural t => t

def texts : List TypeRef → List String
  | [] => []
  | t :: ts => text t :: texts ts
termination_by structural ts => ts

end

end TypeRef

end SourceBundle
