/-
The types that literals have. A number gets its type from its suffix,
its radix mark, and whether it has a point or an exponent.
-/

namespace SourceBundle

/-- The type of a literal. -/
inductive LiteralKind where
  | int
  | uint
  | long
  | ulong
  | float
  | double
  | decimal
  | string
  | char
  | bool
  | null
  | type
  | defaultValue
deriving DecidableEq, Repr

namespace LiteralKind

def name : LiteralKind → String
  | int => "int"
  | uint => "uint"
  | long => "long"
  | ulong => "ulong"
  | float => "float"
  | double => "double"
  | decimal => "decimal"
  | string => "string"
  | char => "char"
  | bool => "bool"
  | null => "null"
  | type => "type"
  | defaultValue => "default"

/-- The type that the letters after a whole number give it. -/
def ofSuffix (suffix : List Char) : LiteralKind :=
  if suffix = ['u', 'l'] || suffix = ['l', 'u'] then ulong
  else if suffix = ['l'] then long
  else if suffix = ['u'] then uint
  else int

/-- Digits of a hexadecimal number in lower case. -/
def isHexDigit (c : Char) : Bool :=
  ('0' ≤ c && c ≤ '9') || ('a' ≤ c && c ≤ 'f')

/-- The type of a number. Case and digit grouping do not matter. -/
def ofNumber (text : String) : LiteralKind :=
  let cs := (text.toList.map Char.toLower).filter (· ≠ '_')
  match cs with
  | '0' :: 'x' :: digits => ofSuffix (digits.dropWhile isHexDigit)
  | '0' :: 'b' :: digits => ofSuffix (digits.dropWhile fun c => c = '0' || c = '1')
  | _ =>
    if cs.getLast? = some 'f' then float
    else if cs.getLast? = some 'm' then decimal
    else if cs.getLast? = some 'd' || cs.contains '.' || cs.contains 'e' then double
    else ofSuffix (cs.dropWhile fun c => '0' ≤ c && c ≤ '9')

end LiteralKind

end SourceBundle
