/-
Writing a bundle to a directory. The text is written to a file of
another name first, which then takes its place, so that there is never
a part of a bundle under its own name.
-/
import SourceBundle.Bundle.Render
import SourceBundle.Files.Access
import SourceBundle.Text.Utf8

namespace SourceBundle

/-- Why a file is not written. -/
inductive WriteError where
  /-- The file system refuses. -/
  | refused (path : Path) (cause : FileFault)
  /-- No file can have the path. -/
  | impossible (cause : FileFault)
deriving DecidableEq, Repr

namespace WriteError

def message : WriteError → String
  | refused path cause =>
    "error: [CSB-0040] cannot write " ++ path.text ++ ": " ++ cause.message
  | impossible cause => cause.message

/-- The error of a path that a fault keeps from being written. -/
def ofFault (path : Path) (f : FileFault) : WriteError :=
  if f.isImpossible then .impossible f else .refused path f

end WriteError

def Bundle.path (b : Bundle) (directory : String) : Path :=
  (Path.ofText directory).join ⟨.relative, [b.root.name ++ ".cs"]⟩

/-- What comes of a directory that could not be made, given whether there is one. -/
def ensured (p : Path) (e : FileError) (there : Except FileFault Bool) : Except FileFault Unit :=
  match e, there with
  | .notFound, _ => .error ⟨e, p, none⟩
  | _, .ok true => .ok ()
  | _, _ => .error ⟨e, p, none⟩

section

variable {m : Type → Type} [Monad m] [MonadFiles m]

/-- Makes a directory unless there is one. -/
def ensureDirectory (p : Path) : m (Except FileFault Unit) := do
  match ← MonadFiles.makeDirectory p with
  | .ok _ => return .ok ()
  | .error e => return ensured p e (← isKind .directory p)

/-- Makes a directory and those around it; at most `depth` of these are missing. -/
def ensureDirectories : (depth : Nat) → Path → m (Except FileFault Unit)
  | 0, p => ensureDirectory p
  | depth + 1, p => do
    match ← ensureDirectory p with
    | .ok _ => return .ok ()
    | .error f =>
      if f.error ≠ .notFound || p.parts.isEmpty then return .error f
      else
        match ← ensureDirectories depth p.parent with
        | .error f => return .error f
        | .ok _ => ensureDirectory p

/-- Puts bytes at a path in a directory that exists. -/
def placeFile (path : Path) (bytes : List UInt8) : m (Except FileFault Unit) := do
  match ← MonadFiles.stage path.parent path.name bytes with
  | .error f => return .error f
  | .ok staged =>
    match ← MonadFiles.move staged path with
    | .ok _ => return .ok ()
    | .error e => do
      MonadFiles.remove staged
      return .error ⟨e, staged, some path⟩

/-- Writes a text to a path, with the directories around it. -/
def writeText [MonadLog m] (c : Context) (path : Path) (text : String) :
    m (Except WriteError Path) := do
  let bytes := Text.encodeUtf8 text
  match ← ensureDirectories path.parts.length path.parent with
  | .error f => return .error (.ofFault path f)
  | .ok _ =>
    match ← placeFile path bytes with
    | .error f => return .error (.ofFault path f)
    | .ok _ =>
      c.log .info s!"Wrote {bytes.length} byte(s) to {path.text}"
      return .ok path

end

end SourceBundle
