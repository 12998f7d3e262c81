/-
Projects: a name, a directory of sources, and what the project file
says about them. Without a list of its own a project has all source
files below its directory, but none below a directory of build output.
-/
import SourceBundle.Files.ReadText
import SourceBundle.Text.Search

namespace SourceBundle

/-- A project. `explicit` lists its sources if the project file does so. -/
structure Project where
  name : String
  root : Path
  file : Option Path := none
  implicitUsings : Bool := false
  explicit : Option (List Path) := none
deriving Repr

/-- The namespaces that implicit usings open. -/
def implicitNamespaces : List String :=
  ["System", "System.Collections.Generic", "System.IO", "System.Linq", "System.Net.Http",
   "System.Threading", "System.Threading.Tasks"]

/-- The directories of build output. -/
def outputDirectories : List String := ["bin", "obj"]

-- ===== project files

/-- A relative path with either slash between its parts. -/
def Path.ofRelative (text : String) : Path :=
  ⟨.relative, Path.partsOf (text.map fun c => if c = '\\' then '/' else c)⟩

namespace Path

/-- A name cut before its last dot, if something stands on both sides of it. -/
def splitSuffix (p : Path) : String × String :=
  let name := p.name.toList
  let suffix := '.' :: (name.reverse.takeWhile (· ≠ '.')).reverse
  let stem := name.take (name.length - suffix.length)
  if stem.isEmpty || suffix.length = 1 || !name.contains '.' then (p.name, "")
  else (String.ofList stem, String.ofList suffix)

/-- The last part without its suffix. -/
def stem (p : Path) : String :=
  p.splitSuffix.1

/-- The suffix of the last part in lower case, with its dot. -/
def suffix (p : Path) : String :=
  p.splitSuffix.2.toLower

/-- All parts, where a root counts as one. -/
def allParts (p : Path) : List String :=
  match p.root with
  | .relative => p.parts
  | .slash => "/" :: p.parts
  | .doubleSlash => "//" :: p.parts

/-- The parts from a directory on, by names alone, or all parts if the path does not start with
the directory. -/
def relativeParts (directory p : Path) : List String :=
  if p.root = directory.root && directory.parts.isPrefixOf p.parts then
    p.parts.drop directory.parts.length
  else p.allParts

end Path

namespace Project

open Text

/-- A setting of a project file with one of some words as its value. -/
def setting (name : String) (words : List String) : Matcher Unit := fun cs => do
  let cs ← afterFolded? ("<" ++ name ++ ">") cs
  let cs ← words.findSome? fun word => afterFolded? word (afterBlanks cs)
  let cs ← afterFolded? ("</" ++ name ++ ">") (afterBlanks cs)
  return ((), cs)

/-- A source that a project file lists. -/
def listedSource : Matcher String := fun cs => do
  let cs ← afterFolded? "<Compile" cs
  guard ((cs.head?.map isBlank).getD false)
  let cs ← afterFolded? "Include=\"" (afterBlanks cs)
  let (path, cs) ← upToQuote? cs
  guard (!path.isEmpty)
  return (path, cs)

/-- The project that a project file describes. It is named after the file unless a name is
given. -/
def ofText (file : Path) (name : Option String) (text : String) : Project :=
  let has (m : Matcher Unit) : Bool := !(allMatches m text).isEmpty
  let sources := (allMatches listedSource text).map fun s => file.parent.join (.ofRelative s)
  { name := (name.filter (!·.isEmpty)).getD file.stem, root := file.parent, file := some file,
    implicitUsings := has (setting "ImplicitUsings" ["enable", "true"]),
    explicit :=
      if has (setting "EnableDefaultCompileItems" ["false"]) then some sources else none }

section

variable {m : Type → Type} [Monad m] [MonadFiles m]

def read (file : Path) (name : Option String := none) : m (Except ReadError Project) := do
  match ← readText file with
  | .error e => return .error e
  | .ok text => return .ok (ofText file name text)

-- ===== documents

/-- Paths in the order of their parts from a directory on. -/
def sortFrom (directory : Path) (paths : List Path) : List Path :=
  paths.mergeSort fun p q => Path.partsLe (directory.relativeParts p) (directory.relativeParts q)

/-- Those of some paths that lead to files. -/
def existingFiles : List Path → m (Except FileFault (List Path))
  | [] => return .ok []
  | p :: ps => do
    match ← isKind .file p with
    | .error e => return .error e
    | .ok here =>
      match ← existingFiles ps with
      | .error e => return .error e
      | .ok more => return .ok (if here then p :: more else more)

/-- Whether a path below a directory leads through build output. -/
def isOutput (parts : List String) : Bool :=
  parts.dropLast.any outputDirectories.contains

/-- Those of some paths that are no build output, in order. -/
def listed (found : List (List String)) : List (List String) :=
  (found.filter (!isOutput ·)).mergeSort Path.partsLe

/-- All that stands below a directory with a given end of its name, in order, but not what is
build output. -/
def search (directory : Path) (ending : String) : m (Except FileFault (List Path)) := do
  match ← MonadFiles.below directory ending with
  | .error f => return .error f
  | .ok found => return .ok ((listed found).map fun parts => directory.join ⟨.relative, parts⟩)

/-- The sources of a project in order of their paths. -/
def documents (p : Project) : m (Except FileFault (List Path)) := do
  match p.explicit with
  | some paths =>
    match ← existingFiles paths with
    | .error e => return .error e
    | .ok found => return .ok (sortFrom p.root found)
  | none =>
    match ← search p.root ".cs" with
    | .error f => return .error f
    | .ok found => existingFiles found

end

end Project

end SourceBundle
