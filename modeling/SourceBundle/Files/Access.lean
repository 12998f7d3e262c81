/-
What is asked of a file system, and what it may answer. The rest of the
project works on files through this alone.
-/
import SourceBundle.Files.Path
import SourceBundle.Text.Quoted

namespace SourceBundle

/-- Why a file system refuses. -/
inductive FileError where
  | notFound
  | alreadyExists
  | notDirectory
  | isDirectory
  | nameTooLong
  /-- A path with a zero character in it, which no file can have. -/
  | zeroInPath
  | other (number : Nat) (reason : String)
deriving DecidableEq, Repr

namespace FileError

/-- The number of an error. A path that no file can have is refused before the file system is
asked, and without a number. -/
def number? : FileError → Option Nat
  | notFound => some 2
  | alreadyExists => some 17
  | notDirectory => some 20
  | isDirectory => some 21
  | nameTooLong => some 36
  | zeroInPath => none
  | other n _ => some n

def reason : FileError → String
  | notFound => "No such file or directory"
  | alreadyExists => "File exists"
  | notDirectory => "Not a directory"
  | isDirectory => "Is a directory"
  | nameTooLong => "File name too long"
  | zeroInPath => "embedded null byte"
  | other _ r => r

/-- Whether the error says that there is nothing at a path. -/
def isAbsence : FileError → Bool
  | notFound | notDirectory | zeroInPath => true
  | _ => false

end FileError

/-- A refusal and the paths that were asked about: one, or two for a move. -/
structure FileFault where
  error : FileError
  path : Path
  target : Option Path := none
deriving DecidableEq, Repr

namespace FileFault

def message (f : FileFault) : String :=
  let target := match f.target with
    | none => ""
    | some t => " -> " ++ Text.quoted t.text
  match f.error.number? with
  | none => f.error.reason
  | some n => s!"[Errno {n}] " ++ f.error.reason ++ ": " ++ Text.quoted f.path.text ++ target

/-- Whether the path is at fault: no file system can do what is asked. -/
def isImpossible (f : FileFault) : Bool :=
  f.error = .zeroInPath

end FileFault

/-- Whether a path has a zero character in it. -/
def Path.hasZero (p : Path) : Bool :=
  p.parts.any (·.toList.contains '\x00')

/-- What stands at a path. -/
inductive EntryKind where
  | directory
  | file
deriving DecidableEq, Repr

/-- Effects that work on files. -/
class MonadFiles (m : Type → Type) where
  /-- What stands at a path. -/
  kind : Path → m (Except FileError EntryKind)
  /-- All that stands below a directory with a given end of its name, by the parts of its path
  from there, in any order. There is nothing below what is no directory. -/
  below : Path → (ending : String) → m (Except FileFault (List (List String)))
  read : Path → m (Except FileError (List UInt8))
  /-- The path that a file has for itself, whichever way it was reached. -/
  canonical : Path → m Path
  makeDirectory : Path → m (Except FileError Unit)
  /-- Writes bytes to a new file in a directory, under a name made from another one. -/
  stage : (directory : Path) → (name : String) → List UInt8 → m (Except FileFault Path)
  /-- Moves a file to a path, in place of a file there. -/
  move : (source target : Path) → m (Except FileError Unit)
  remove : Path → m Unit

section

variable {m : Type → Type} [Monad m] [MonadFiles m]

/-- Whether something of a kind stands at a path. Refusals for other causes than absence are
answers of their own. -/
def isKind (kind : EntryKind) (p : Path) : m (Except FileFault Bool) := do
  match ← MonadFiles.kind p with
  | .ok k => return .ok (k = kind)
  | .error e => return if e.isAbsence then .ok false else .error ⟨e, p, none⟩

end

end SourceBundle
