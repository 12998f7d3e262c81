/-
Using directives as they are seen from a declaration, and how a bundle
writes them.
-/
import SourceBundle.Tree.Decl

namespace SourceBundle

/-- A using directive as it is seen from a declaration: of a namespace, of the static members of
a type, or an alias of either. -/
structure Import where
  name : String
  aliasName : Option String := none
  isStatic : Bool := false
  isGlobal : Bool := false
deriving DecidableEq, Repr, Inhabited

namespace Import

/-- Whether the directive opens a namespace. -/
def isPlain (i : Import) : Bool :=
  i.aliasName.isNone && !i.isStatic

/-- What a directive imports. An alias keeps its target as written. -/
def ofDirective (u : UsingDirective) : Import :=
  let name :=
    if u.aliasName.isSome then u.target.text
    else TypeRef.qualifiedText u.target.qualifier u.target.name
  { name, aliasName := u.aliasName, isStatic := u.isStatic, isGlobal := u.isGlobal }

def render (i : Import) : String :=
  match i.aliasName with
  | some a => "using " ++ a ++ " = " ++ i.name ++ ";"
  | none => if i.isStatic then "using static " ++ i.name ++ ";" else "using " ++ i.name ++ ";"

end Import

end SourceBundle
