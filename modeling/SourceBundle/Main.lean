/-
The program: the command line on the real file system. Nothing is
decided here; files are read and written, and lines printed.
-/
import SourceBundle.CommandLine.Run
import SourceBundle.Text.Timestamp

namespace SourceBundle

/-- The time of day, as the time at which the entry of this process was made. -/
def currentTime : IO String := do
  try
    let info ← (System.mkFilePath ["/proc/self"]).metadata
    return Text.timestamp info.modified.sec.toNat
  catch _ => return Text.timestamp 0

instance : MonadLog IO where
  note line := do
    let time ← if line.label.isSome then currentTime else pure ""
    IO.eprintln (line.text time)

/-- The cause of a refusal. -/
def causeOf : IO.Error → FileError
  | .noFileOrDirectory .. => .notFound
  | .alreadyExists .. => .alreadyExists
  | .inappropriateType _ number reason | .invalidArgument _ number reason
  | .permissionDenied _ number reason | .resourceExhausted _ number reason
  | .noSuchThing _ number reason | .otherError number reason
  | .unsatisfiedConstraints number reason | .illegalOperation number reason
  | .resourceBusy number reason | .hardwareFault number reason =>
    if number = 20 then .notDirectory
    else if number = 21 then .isDirectory
    else if number = 36 then .nameTooLong
    else .other number.toNat reason
  | e => .other 0 (toString e)

/-- Does work on files and gives the cause if it is refused. -/
def attempt {α : Type} (work : IO α) : IO (Except FileError α) := do
  try
    return .ok (← work)
  catch e => return .error (causeOf e)

/-- Does work on the file of a path. -/
def attemptAt {α : Type} (p : Path) (work : IO α) : IO (Except FileError α) :=
  if p.hasZero then return .error .zeroInPath else attempt work

/-- What stands at the end of a path. -/
def kindAt (p : Path) : IO EntryKind := do
  let info ← (System.mkFilePath [p.text]).metadata
  return if info.type == .dir then .directory else .file

/-- All that stands below a directory. Links to directories are not followed. -/
partial def listBelow (p : Path) (parts : List String) : IO (List (List String)) := do
  let mut found := []
  for entry in ← (System.mkFilePath [(p.join ⟨.relative, parts⟩).text]).readDir do
    let here := parts ++ [entry.fileName]
    let kind ← try kindAt (p.join ⟨.relative, here⟩) catch _ => pure .file
    found := found ++ [here]
    if kind = .directory then
      let link ← (System.mkFilePath [(p.join ⟨.relative, here⟩).text]).symlinkMetadata
      if link.type == .dir then
        found := found ++ (← try listBelow p here catch _ => pure [])
  return found

/-- Eight letters that are hardly ever the same twice. -/
def randomLetters : IO String := do
  let bytes ← IO.getRandomBytes 8
  return String.ofList (bytes.toList.map fun b => Char.ofNat ('a'.toNat + b.toNat % 26))

/-- The directory that relative paths are seen from. -/
def workingDirectory : IO Path := do
  return .ofText (← IO.currentDir).toString

instance : MonadFiles IO where
  kind p := attemptAt p (kindAt p)
  below p ending := do
    match ← attemptAt p (kindAt p) with
    | .error e => return if e.isAbsence then .ok [] else .error ⟨e, p, none⟩
    | .ok .file => return .ok []
    | .ok .directory =>
      let found ← try listBelow p [] catch _ => pure []
      return .ok (found.filter fun parts => (parts.getLastD "").endsWith ending)
  read p := attemptAt p do return (← IO.FS.readBinFile p.text).toList
  canonical p := do
    try
      return .ofText (← IO.FS.realPath p.text).toString
    catch _ => return (← workingDirectory).absolute p
  makeDirectory p := attemptAt p (IO.FS.createDir p.text)
  stage directory name content := do
    let around := (← workingDirectory).absolute directory
    let path := around.join ⟨.relative, ["." ++ name ++ "." ++ (← randomLetters) ++ ".tmp"]⟩
    match ← attempt (IO.FS.writeBinFile path.text ⟨content.toArray⟩) with
    | .ok _ => return .ok path
    | .error e => return .error ⟨e, path, none⟩
  move source target := attempt (IO.FS.rename source.text target.text)
  remove p := try IO.FS.removeFile p.text catch _ => return

end SourceBundle

open SourceBundle in
/-- Runs the program with the arguments of the command line. -/
def main (args : List String) : IO UInt32 := do
  let environment : Environment :=
    { policy := ← IO.getEnv "CSBUNDLE_POLICY", entryMethod := ← IO.getEnv "CSBUNDLE_ENTRY_METHOD" }
  match ← runProgram environment (← workingDirectory) args with
  | .error e =>
    IO.eprintln e.message
    return 1
  | .ok outcome =>
    IO.print outcome.output
    return outcome.code.toUInt32
