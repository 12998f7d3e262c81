/-
Workspaces: projects with their documents, read and parsed. A document
that cannot be read or parsed is skipped with a warning.
-/
import SourceBundle.Diagnostic
import SourceBundle.Files.Solution
import SourceBundle.Tree.Parse.File

namespace SourceBundle

/-- A parsed source file of a project. -/
structure Document where
  path : Path
  project : Project
  source : SourceFile

/-- A loaded workspace. Expressions are numbered across all documents; `nextNode` is the first
number not in use. -/
structure Workspace where
  context : Context
  projects : List Project := []
  documents : List Document := []
  diagnostics : List Diagnostic := []
  /-- The files that documents were read from; each is read once. -/
  loaded : List Path := []
  nextNode : Nat := 0

/-- Why a workspace is not loaded. -/
inductive LoadError where
  | locate (e : LocateError)
  /-- A listed source cannot be asked about. -/
  | source (f : FileFault)
deriving DecidableEq, Repr

def LoadError.message : LoadError → String
  | locate e => "error: [CSB-0030] cannot load workspace: " ++ e.message
  | source f => f.message

namespace Workspace

section

variable {m : Type → Type} [Monad m] [MonadLog m]

def report (w : Workspace) (d : Diagnostic) : m Workspace := do
  w.context.log .debug (d.format w.context.directory)
  return { w with diagnostics := w.diagnostics ++ [d] }

def reportAll (w : Workspace) : List Diagnostic → m Workspace
  | [] => return w
  | d :: ds => do
    let w ← w.report d
    w.reportAll ds

/-- The warning for a document that is left out. -/
def skippedWarning (file message : String) : Diagnostic :=
  { severity := .warning, message := "[WSP-0010] document skipped: " ++ message, file := some file }

/-- The warning for a document that is left out because of what stands at a place in it. -/
def skippedAt (file message : String) (line column : Nat) : Diagnostic :=
  { skippedWarning file message with line := some line, column := some column }

/-- The warning for a project file that does not exist. -/
def missingWarning (file : Path) : Diagnostic :=
  { severity := .warning, message := "[WSP-0020] project file not found: " ++ file.text,
    file := some file.text }

/-- Parses a source and adds it as a document; says whether it was added. -/
def addDocument (w : Workspace) (path : Path) (project : Project) (source : List Char) :
    m (Workspace × Bool) := do
  let file := path.text
  w.context.log .debug s!"Lexing {file}"
  match tokenizeChars source with
  | .error e =>
    return (← w.report (skippedAt file e.message e.line e.column), false)
  | .ok tokens =>
    w.context.log .debug s!"Lexed {tokens.length} token(s) from {file}"
    match parseTokens source tokens w.nextNode with
    | .error e =>
      return (← w.report (skippedAt file e.message e.token.line e.token.column), false)
    | .ok (source, nextNode) =>
      let documents := w.documents ++ [⟨path, project, source⟩]
      return ({ w with documents, nextNode }, true)

def addSources (w : Workspace) (project : Project) : List (String × String) → m Workspace
  | [] => return w
  | (name, text) :: more => do
    let (w, _) ← w.addDocument (.ofText name) project text.toList
    w.addSources project more

/-- The project of named texts. -/
def textProject (implicitUsings : Bool) : Project :=
  { name := "Workspace", root := {}, implicitUsings }

/-- A workspace of one project made of named texts, in order of their names. -/
def ofSources (c : Context) (sources : List (String × String)) (implicitUsings : Bool := false) :
    m Workspace :=
  let project := textProject implicitUsings
  let w : Workspace := { context := c, projects := [project] }
  w.addSources project (sources.mergeSort fun a b => a.1 ≤ b.1)

-- ===== files

variable [MonadFiles m]

/-- Reads a document of a project, unless its file was read before. -/
def addFile (w : Workspace) (project : Project) (path : Path) : m Workspace := do
  let key ← MonadFiles.canonical path
  if w.loaded.contains key then
    w.context.log .debug s!"Document {path.text} already loaded (cache hit)"
    return w
  else
    match ← readText path with
    | .error e => w.report (skippedWarning path.text ("cannot read: " ++ e.message))
    | .ok text =>
      let (w, added) ← w.addDocument path project text.toList
      return if added then { w with loaded := w.loaded ++ [key] } else w

def addFiles (w : Workspace) (project : Project) : List Path → m Workspace
  | [] => return w
  | path :: paths => do
    let w ← w.addFile project path
    w.addFiles project paths

/-- Adds a project with its documents. -/
def addProject (w : Workspace) (project : Project) : m (Except LoadError Workspace) := do
  w.context.log .debug s!"Loading project '{project.name}' from {project.root.text}"
  match ← project.documents with
  | .error f => return .error (.source f)
  | .ok paths =>
    let w := { w with projects := w.projects ++ [project] }
    return .ok (← w.addFiles project paths)

def addProjects (w : Workspace) : List Project → m (Except LoadError Workspace)
  | [] => return .ok w
  | project :: projects => do
    match ← w.addProject project with
    | .error e => return .error e
    | .ok w => w.addProjects projects

/-- Loads the workspace that a locator leads to. -/
def load (c : Context) (locator : String) : m (Except LoadError Workspace) := do
  let w : Workspace := { context := c }
  c.log .info (stageMessage "Loading workspace" locator)
  match ← WorkspaceLayout.locate locator with
  | .error e => return .error (.locate e)
  | .ok layout =>
    let w ← w.reportAll (layout.missing.map missingWarning)
    match ← w.addProjects layout.projects with
    | .error e => return .error e
    | .ok w =>
      c.log .info s!"Loaded {w.documents.length} document(s) from {w.projects.length} project(s)"
      return .ok w

end

end Workspace

end SourceBundle
