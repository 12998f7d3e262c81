/-
What a workspace is made of. Its locator names a solution file, a
project file or a directory; a directory has the projects whose files
lie below it, or is one project itself.
-/
import SourceBundle.Files.Project

namespace SourceBundle

namespace Solution

open Text

/-- A project entry of a solution file: a name and a path. -/
def entry : Matcher (String × String) := fun cs => do
  let cs ← after? "Project(\"".toList cs
  let (_, cs) ← upToQuote? cs
  let cs ← after? [')'] cs
  let cs ← after? ['='] (afterBlanks cs)
  let cs ← after? ['"'] (afterBlanks cs)
  let (name, cs) ← upToQuote? cs
  let cs ← after? [','] (afterBlanks cs)
  let cs ← after? ['"'] (afterBlanks cs)
  let (path, cs) ← upToQuote? cs
  return ((name, path), cs)

/-- The project entries of a solution file, each at the start of a line. -/
def entries (text : String) : List (String × String) :=
  lineMatches entry text

/-- The project files that a solution beside them names. Other entries are folders and projects
of other languages. -/
def projectFiles (directory : Path) (text : String) : List (String × Path) :=
  ((entries text).filter (·.2.toLower.endsWith ".csproj")).map fun (name, path) =>
    (name, directory.join (.ofRelative path))

end Solution

/-- Why a locator leads to no workspace. -/
inductive LocateError where
  /-- Nothing stands there. -/
  | missing (locator : String)
  /-- It is some other file. -/
  | unsupported (locator : String)
  /-- A file cannot be read. -/
  | unreadable (e : ReadError)
deriving DecidableEq, Repr

def LocateError.message : LocateError → String
  | missing locator => "workspace '" ++ locator ++ "' does not exist"
  | unsupported locator =>
    "workspace '" ++ locator ++ "' is not a .sln, .csproj or directory"
  | unreadable e => e.message

/-- The projects of a workspace in order, and the project files that a solution names and that do
not exist. -/
structure WorkspaceLayout where
  locator : Path
  projects : List Project := []
  missing : List Path := []

namespace WorkspaceLayout

section

variable {m : Type → Type} [Monad m] [MonadFiles m]

def addFiles (w : WorkspaceLayout) : List Path → m (Except LocateError WorkspaceLayout)
  | [] => return .ok w
  | file :: files => do
    match ← Project.read file with
    | .error e => return .error (.unreadable e)
    | .ok p => addFiles { w with projects := w.projects ++ [p] } files

def addEntries (w : WorkspaceLayout) :
    List (String × Path) → m (Except LocateError WorkspaceLayout)
  | [] => return .ok w
  | (name, file) :: more => do
    match ← isKind .file file with
    | .error e => return .error (.unreadable (.fault e))
    | .ok false => addEntries { w with missing := w.missing ++ [file] } more
    | .ok true =>
      match ← Project.read file (some name) with
      | .error e => return .error (.unreadable e)
      | .ok p => addEntries { w with projects := w.projects ++ [p] } more

def ofDirectory (directory : Path) : m (Except LocateError WorkspaceLayout) := do
  let w : WorkspaceLayout := { locator := directory }
  match ← Project.search directory ".csproj" with
  | .error f => return .error (.unreadable (.fault f))
  | .ok [] =>
    let name := if directory.name.isEmpty then directory.text else directory.name
    return .ok { w with projects := [{ name, root := directory }] }
  | .ok files => w.addFiles files

def ofSolution (file : Path) : m (Except LocateError WorkspaceLayout) := do
  match ← readText file with
  | .error e => return .error (.unreadable e)
  | .ok text => addEntries { locator := file } (Solution.projectFiles file.parent text)

/-- The layout that a locator leads to. -/
def locate (locator : String) : m (Except LocateError WorkspaceLayout) := do
  let path := Path.ofText locator
  match ← MonadFiles.kind path with
  | .error e =>
    return .error
      (if e.isAbsence then .missing locator else .unreadable (.fault ⟨e, path, none⟩))
  | .ok .directory => ofDirectory path
  | .ok .file =>
    if path.suffix = ".sln" then ofSolution path
    else if path.suffix = ".csproj" then addFiles { locator := path } [path]
    else return .error (.unsupported locator)

end

end WorkspaceLayout

end SourceBundle
