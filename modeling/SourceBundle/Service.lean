/-
What the bundling core asks of a language: which units there are, what
an expression refers to, and which unit declares a symbol. The closure,
the collection of references and the rendering speak only to this.

Looking up a reference is the one answer that may have effects, in a
monad of the service's choice; the other answers are plain functions.
There are finitely many units: each one that is answered with is named.
-/
import SourceBundle.Symbol
import SourceBundle.TypeUnit

namespace SourceBundle

/-- A language service. -/
structure Service (m : Type → Type) where
  names : List String
  /-- The unit of exactly this namespace and name. -/
  findUnit : (space name : String) → Option TypeUnit
  /-- What a call, creation or member access refers to. -/
  resolve : Expr → m (Option Resolution)
  /-- The unit whose declaration holds that of a symbol. -/
  declaringUnit : Symbol → Option TypeUnit
  /-- The namespace that a unit is declared in. -/
  enclosingSpace : TypeUnit → Option String
  /-- The directives seen from the declarations of a namespace. -/
  importsOf : (space : String) → List Import
  /-- The units of a namespace in order of declaration. -/
  unitsIn : (space : String) → List TypeUnit
  /-- Whether the sources declare a namespace. -/
  declaresSpace : (space : String) → Bool
  /-- The directives that hold everywhere. -/
  globalImports : List Import
  findUnit_named : ∀ {space name : String} {u : TypeUnit},
    findUnit space name = some u → u.qualifiedName ∈ names
  declaringUnit_named : ∀ {symbol : Symbol} {u : TypeUnit},
    declaringUnit symbol = some u → u.qualifiedName ∈ names
  unitsIn_named : ∀ {space : String} {u : TypeUnit},
    u ∈ unitsIn space → u.qualifiedName ∈ names

end SourceBundle
