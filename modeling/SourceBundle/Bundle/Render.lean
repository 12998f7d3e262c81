/-
The source file of a bundle: a comment on input and output, the usings
of the file, a scaffold that calls the root, and a namespace block for
each unit with the usings it needs and its declarations word for word.
-/
import SourceBundle.Closure.Walk

namespace SourceBundle

/-- The comment that opens each file. -/
def openingComment : List String :=
  ["/*******",
   "* Read input from Console",
   "* Use: Console.WriteLine to output your result to STDOUT.",
   "* Use: Console.Error.WriteLine to output debugging information to STDERR;",
   "*/"]

def usingLine (space : String) : String :=
  "using " ++ space ++ ";"

-- ===== usings

/-- The namespaces that the block of a unit imports: those of its dependencies, then those of
bundled units that its declarations import. -/
def Bundle.blockSpaces (b : Bundle) (u : TypeUnit) : List String :=
  let needed := (b.spaces.lookup u.qualifiedName).getD []
  let imported := u.imports.filter fun i =>
    i.isPlain && b.namespaces.contains i.name && i.name ≠ u.space
  Text.distinct (needed ++ imported.map (·.name))

/-- The aliases and static usings of a unit. -/
def TypeUnit.ownImports (u : TypeUnit) : List String :=
  (u.imports.filter fun i => !i.isPlain).map Import.render

section

variable {m : Type → Type}

/-- Whether a directive goes to the top of the file: a plain one if the sources do not declare
its namespace, any other if it holds everywhere. -/
def Service.isHoisted (s : Service m) (i : Import) : Bool :=
  if i.isPlain then !s.declaresSpace i.name else i.isGlobal

/-- The directives that go to the top of the file. -/
def Bundle.hoistedImports (b : Bundle) (s : Service m) : List Import :=
  let seen := b.namespaces.flatMap s.importsOf ++ s.globalImports
  Text.distinct ((seen.filter s.isHoisted).map fun i => { i with isGlobal := false })

/-- The usings of the file. The global namespace has no block, so the usings of its units stand
here too. -/
def Bundle.fileUsings (b : Bundle) (s : Service m) (c : Context) : List String :=
  let hoisted := if c.hoist then (b.hoistedImports s).map Import.render else []
  let blockless := (b.units.filter (·.space.isEmpty)).flatMap fun u =>
    (b.blockSpaces u).map usingLine ++ u.ownImports
  Text.distinct (c.defaultUsings.map usingLine ++ hoisted ++ blockless)

end

-- ===== blocks

/-- The scaffold: a program that prints what the entry method gives. -/
def scaffold (c : Context) (root : TypeUnit) : List String :=
  ["namespace " ++ c.scaffoldNamespace,
   "\x7b",
   "    using " ++ root.space ++ ";",
   "",
   "    class Program",
   "    \x7b",
   "        static void Main(string[] args)",
   "        \x7b",
   "            var result = " ++ root.name ++ "." ++ c.entryMethod ++ "();",
   "            Console.WriteLine(result);",
   "        \x7d",
   "    \x7d",
   "\x7d"]

/-- The block of a unit; a unit of the global namespace stands alone. -/
def Bundle.block (b : Bundle) (u : TypeUnit) : List String :=
  if u.space.isEmpty then [u.text]
  else
    let usings := Text.distinct
      (((b.blockSpaces u).map usingLine ++ u.ownImports).map ("    " ++ ·))
    ["namespace " ++ u.space, "\x7b"]
      ++ (if usings.isEmpty then [] else usings ++ [""]) ++ [u.text, "\x7d"]

-- ===== file

section

variable {m : Type → Type}

def Bundle.lines (b : Bundle) (s : Service m) (c : Context) : List String :=
  openingComment ++ [""] ++ b.fileUsings s c ++ [""] ++ scaffold c b.root
    ++ b.units.flatMap fun u => "" :: b.block u

def Bundle.text (b : Bundle) (s : Service m) (c : Context) : String :=
  "\n".intercalate (b.lines s c) ++ "\n"

def hoistMessage (hoisted : List Import) : String :=
  s!"Hoisted {hoisted.length} platform using(s)"

/-- The text of a bundle's file, with a message on what was hoisted. -/
def Bundle.render {n : Type → Type} [Monad n] [MonadLog n] (b : Bundle) (s : Service m)
    (c : Context) : n String := do
  if c.hoist then
    c.log .debug (hoistMessage (b.hoistedImports s))
  return b.text s c

end

end SourceBundle
