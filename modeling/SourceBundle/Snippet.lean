/-
Diagnostics as they are shown: the message, and below it the line of
source that it is about with a mark under the place.
-/
import SourceBundle.Diagnostic
import SourceBundle.Files.ReadText

namespace SourceBundle

/-- A text after blanks that bring it to a width. -/
def padLeft (width : Nat) (text : String) : String :=
  String.ofList (List.replicate (width - text.length) ' ') ++ text

/-- A text before blanks that bring it to a width. -/
def padRight (width : Nat) (text : String) : String :=
  text ++ String.ofList (List.replicate (width - text.length) ' ')

namespace Diagnostic

/-- The level that a diagnostic is logged at. -/
def level (d : Diagnostic) : LogLevel :=
  if d.severity = .error then .error else .warning

/-- The line of source that a diagnostic is about. -/
def sourceLine? (d : Diagnostic) (lines : List String) : Option String := do
  let line ← d.line
  if 1 ≤ line then lines[(line - 1).toNat]? else none

/-- The width of the line number before a line. -/
def gutterWidth (line : Int) : Nat :=
  max 5 (toString line).length

/-- The column after the last one that is marked, for a mark that starts at `start`. The mark of
a diagnostic that ends on another line goes to the end of its line. -/
def markEnd (d : Diagnostic) (start : Int) (source : String) : Int :=
  match d.endLine, d.endColumn with
  | some l, some c => if d.line = some l then max start c else source.length + 1
  | _, _ => start

/-- The mark under a line: one sign at least. -/
def markLine (d : Diagnostic) (line column : Int) (source : String) : String :=
  let start := max 1 column
  let signs := max 1 (d.markEnd start source - start)
  String.ofList (List.replicate (gutterWidth line) ' ') ++ " | "
    ++ String.ofList (List.replicate (start - 1).toNat ' ')
    ++ String.ofList (List.replicate signs.toNat '^')

/-- The lines that show the place of a diagnostic in the lines of its file. -/
def snippet (d : Diagnostic) (lines : List String) : List String :=
  match d.line, d.sourceLine? lines with
  | some line, some source =>
    (padLeft (gutterWidth line) (toString line) ++ " | " ++ source)
      :: (d.column.map fun column => d.markLine line column source).toList
  | _, _ => []

end Diagnostic

section

variable {m : Type → Type} [Monad m] [MonadLog m] [MonadFiles m]

/-- Logs a message in a context; without one, after a complaint. -/
def logIn (c : Option Context) (level : LogLevel) (message : String) : m Unit :=
  match c with
  | some c => c.log level message
  | none => do
    MonadLog.note { message := "No context provided for logging." }
    MonadLog.note { message }

/-- Logs messages in order. -/
def logAllIn (c : Option Context) (level : LogLevel) : List String → m Unit
  | [] => return
  | message :: messages => do
    logIn c level message
    logAllIn c level messages

/-- The lines of a file, or none if it cannot be read. To ask for a file that cannot be is a
fault. -/
def fileLines (file : String) : m (Except FileFault (List String)) := do
  match ← readText (.ofText file) with
  | .error e =>
    match e.impossible? with
    | some f => return .error f
    | none => return .ok []
  | .ok text => return .ok (Text.lines text)

/-- Shows a diagnostic. -/
def showDiagnostic (c : Option Context) (directory : Path) (d : Diagnostic) :
    m (Except FileFault Unit) := do
  logIn c d.level (d.format directory)
  match d.file with
  | none => return .ok ()
  | some file =>
    if file.isEmpty || d.line.isNone then return .ok ()
    else
      match ← fileLines file with
      | .error f => return .error f
      | .ok lines => do
        logAllIn c d.level (d.snippet lines)
        return .ok ()

/-- Shows diagnostics in order, up to one whose file cannot be. -/
def showDiagnostics (c : Option Context) (directory : Path) :
    List Diagnostic → m (Except FileFault Unit)
  | [] => return .ok ()
  | d :: ds => do
    match ← showDiagnostic c directory d with
    | .error f => return .error f
    | .ok _ => showDiagnostics c directory ds

end

end SourceBundle
