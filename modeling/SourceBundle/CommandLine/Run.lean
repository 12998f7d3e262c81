/-
Running commands: what each of them prints, logs and writes, and the
code that the program ends with.
-/
import SourceBundle.Binding.Language
import SourceBundle.Bundle.Write
import SourceBundle.CommandLine.Command
import SourceBundle.Snippet
import SourceBundle.Tree.Outline

namespace SourceBundle

/-- How a run ends: its code and what it prints. -/
structure Outcome where
  code : Nat
  output : String := ""
deriving DecidableEq, Repr

namespace Outcome

/-- A run that failed. -/
def failed : Outcome := { code := 1 }

/-- A run that went well and prints some lines. -/
def printed (lines : List String) : Outcome :=
  { code := 0, output := String.join (lines.map (· ++ "\n")) }

end Outcome

/-- Why a run breaks off before its end. -/
inductive RunError where
  /-- A type cannot be bound. -/
  | bind (e : BindError)
  /-- A file is refused where there is nothing else to do. -/
  | file (f : FileFault)
  /-- The root is blank. -/
  | blankRoot
  /-- The directory is blank. -/
  | blankDirectory
deriving DecidableEq, Repr

def RunError.message : RunError → String
  | bind e => e.message
  | file f => f.message
  | blankRoot => "the root is blank"
  | blankDirectory => "the directory is blank"

-- ===== output

def TypeUnit.kindWord (u : TypeUnit) : String :=
  if u.isEnum then "enum" else u.keyword.text

/-- The lines that list a closure. -/
def Bundle.listing (b : Bundle) : List String :=
  b.units.map fun u =>
    let spaces := (b.spaces.lookup u.qualifiedName).getD []
    padRight 14 u.kindWord ++ " " ++ u.qualifiedName
      ++ (if spaces.isEmpty then "" else "  -> " ++ ", ".intercalate spaces)

/-- The lines that list units by their namespaces, which come in order of their names. -/
def unitListing (units : List TypeUnit) : List String :=
  let spaces := (Text.distinct (units.map (·.space))).mergeSort (· ≤ ·)
  spaces.flatMap fun space =>
    ("=== namespace " ++ (if space.isEmpty then "<global>" else space) ++ " ===")
      :: ((units.filter (·.space = space)).map fun u =>
          "    " ++ padRight 14 u.kindWord ++ " " ++ u.name)
      ++ [""]

def Token.listing (file : String) (t : Token) : String :=
  s!"{file}:{t.line}:{t.column}:\t" ++ padRight 20 t.kind.name ++ " " ++ Text.quoted t.text

-- ===== steps

section

variable {m : Type → Type} [Monad m] [MonadLog m] [MonadFiles m]

/-- Logs an error that ends a run. -/
def failWith (c : Context) (message : String) : m Outcome := do
  c.log .error message
  return .failed

/-- Opens a workspace, shows what is wrong with it and goes on. -/
def withWorkspace (c : Context) (locator : String)
    (next : OpenWorkspace → m (Except RunError Outcome)) : m (Except RunError Outcome) := do
  match ← Workspace.load c locator with
  | .error (.source f) => return .error (.file f)
  | .error e => return .ok (← failWith c e.message)
  | .ok w =>
    let w ← w.openIndex
    match ← showDiagnostics (some c) c.directory w.workspace.diagnostics with
    | .error f => return .error (.file f)
    | .ok _ => next w

/-- Walks the closure of a root and goes on with the bundle. -/
def withBundle (c : Context) (w : OpenWorkspace) (root : Option String)
    (next : Bundle → m (Except RunError Outcome)) : m (Except RunError Outcome) := do
  match root with
  | none => return .error .blankRoot
  | some root =>
    match ← (bundle w.index.service c root).start with
    | .error e => return .error (.bind e)
    | .ok (.error e) => return .ok (← failWith c e.message)
    | .ok (.ok b) =>
      match ← showDiagnostics (some c) c.directory b.diagnostics with
      | .error f => return .error (.file f)
      | .ok _ => next b

def OpenWorkspace.service (w : OpenWorkspace) : Service (Session m) :=
  w.index.service

def writeBundle (c : Context) (w : OpenWorkspace) (directory : Option String) (b : Bundle) :
    m (Except RunError Outcome) := do
  let text ← b.render (w.service (m := m)) c
  match directory with
  | none => return .error .blankDirectory
  | some directory =>
    match ← writeText c (b.path directory) text with
    | .error (.impossible f) => return .error (.file f)
    | .error e => return .ok (← failWith c e.message)
    | .ok path => return .ok (.printed ["Generated " ++ path.text])

/-- Reads a source file and goes on with its text. -/
def withSource (c : Context) (file : Path) (next : String → m Outcome) :
    m (Except RunError Outcome) := do
  match ← readText file with
  | .ok text => return .ok (← next text)
  | .error e =>
    match e.impossible? with
    | some f => return .error (.file f)
    | none =>
      let message := "error: [CSB-0030] cannot read " ++ file.text ++ ": " ++ e.message
      return .ok (← failWith c message)

/-- Logs what is wrong at a place of a source file. -/
def sourceFailure (c : Context) (file : Path) (line column : Nat) (message : String) :
    m Outcome :=
  failWith c s!"{file.text}:{line}:{column}: error: {message}"

-- ===== commands

/-- Lists the units of a workspace, or those of some namespaces. -/
def runUnits (w : OpenWorkspace) (spaces : Option (List String)) : Outcome :=
  match spaces with
  | none => .printed (unitListing w.index.units)
  | some spaces => .printed (unitListing (w.index.units.filter (spaces.contains ·.space)))

/-- Shows the syntax tree of a source file. -/
def runTree (c : Context) (file : Path) (text : String) : m Outcome :=
  match SourceFile.parse text with
  | .error (.lex e) => sourceFailure c file e.line e.column e.message
  | .error (.parse e) => sourceFailure c file e.token.line e.token.column e.message
  | .ok (source, _) => return .printed source.outline

def runTokens (c : Context) (file : Path) (includeEnd : Bool) (text : String) : m Outcome :=
  match tokenize text with
  | .error e => sourceFailure c file e.line e.column e.message
  | .ok tokens =>
    let shown := tokens.filter fun t => includeEnd || t.kind ≠ .eof
    return .printed (shown.map (Token.listing file.text))

def Command.run (c : Context) : Command → m (Except RunError Outcome)
  | bundle workspace root directory toOutput =>
    withWorkspace c workspace fun w => withBundle c w root fun b =>
      if toOutput then return .ok { code := 0, output := ← b.render (w.service (m := m)) c }
      else writeBundle c w directory b
  | deps workspace root =>
    withWorkspace c workspace fun w => withBundle c w root fun b =>
      return .ok (.printed b.listing)
  | units workspace spaces =>
    withWorkspace c workspace fun w => return .ok (runUnits w spaces)
  | tree file =>
    let path := Path.ofText file
    withSource c path (runTree c path)
  | tokens file includeEnd =>
    let path := Path.ofText file
    withSource c path (runTokens c path includeEnd)

/-- How a run with refused arguments ends. -/
def refuse (r : CommandLine.Refusal) : m Outcome := do
  if r.error = .help then return .printed [CommandLine.usageLine r.spec]
  else
    MonadLog.note { message := r.message }
    return { code := 2 }

def runProgram (e : Environment) (directory : Path) (args : List String) :
    m (Except RunError Outcome) := do
  match CommandLine.read args with
  | .error r => return .ok (← refuse r)
  | .ok i =>
    match e.check with
    | .error r => return .ok (← refuse r)
    | .ok _ => i.command.run (i.context e directory)

end

end SourceBundle
