/-
A file system in memory: directories and files by their full paths, and
the directory that relative paths are seen from.
-/
import SourceBundle.Files.Access

namespace SourceBundle

/-- What stands at a place. -/
inductive Entry where
  | directory
  | file (content : List UInt8)
deriving DecidableEq, Repr

def Entry.kind : Entry → EntryKind
  | directory => .directory
  | file _ => .file

/-- A file system in memory. The root is always a directory. -/
structure FileTree where
  entries : List (List String × Entry) := []
  /-- The parts of the path of the working directory. -/
  working : List String := []

namespace FileTree

/-- The longest name in bytes that a directory takes. -/
def maxName : Nat := 255

/-- The longest path in bytes that can be asked about. -/
def maxPath : Nat := 4095

/-- What stands at a place. -/
def entryAt (t : FileTree) (place : List String) : Option Entry :=
  if place.isEmpty then some .directory else t.entries.lookup place

/-- Goes from a place along the parts of a path. The last part need not exist. -/
def follow (t : FileTree) (place : List String) : List String → Except FileError (List String)
  | [] => .ok place
  | part :: parts =>
    match t.entryAt place with
    | none => .error .notFound
    | some (.file _) => .error .notDirectory
    | some .directory =>
      if part = ".." then t.follow place.dropLast parts
      else if maxName < part.utf8ByteSize then .error .nameTooLong
      else t.follow (place ++ [part]) parts

/-- The place that a path leads to. The path as a whole is looked at before its parts. -/
def placeOf (t : FileTree) (p : Path) : Except FileError (List String) :=
  if p.hasZero then .error .zeroInPath
  else if maxPath < p.text.utf8ByteSize then .error .nameTooLong
  else t.follow (if p.isAbsolute then [] else t.working) p.parts

/-- What stands at a path. -/
def find (t : FileTree) (p : Path) : Except FileError Entry := do
  match t.entryAt (← t.placeOf p) with
  | some e => .ok e
  | none => .error .notFound

def under (t : FileTree) (place : List String) : List (List String × Entry) :=
  t.entries.filterMap fun (parts, e) =>
    if place.isPrefixOf parts && place.length < parts.length then
      some (parts.drop place.length, e)
    else none

/-- The path of what stands below a directory. -/
def pathBelow (p : Path) (parts : List String) : Path :=
  p.join ⟨.relative, parts⟩

/-- Whether the path of something below a directory is too long to be asked about. -/
def isTooFar (p : Path) (parts : List String) : Bool :=
  maxPath < (pathBelow p parts).text.utf8ByteSize

/-- All that stands below a directory with a given end of its name. Each directory on the way has
to be one that can be asked about. -/
def below (t : FileTree) (p : Path) (ending : String) : Except FileFault (List (List String)) :=
  match t.placeOf p with
  | .error e => if e.isAbsence then .ok [] else .error ⟨e, p, none⟩
  | .ok place =>
    let found := t.under place
    match found.find? fun x => x.2.kind = .directory && isTooFar p x.1 with
    | some x => .error ⟨.nameTooLong, pathBelow p x.1, none⟩
    | none => .ok ((found.map (·.1)).filter fun parts => (parts.getLastD "").endsWith ending)

def set (t : FileTree) (place : List String) (e : Entry) : FileTree :=
  { t with entries := t.entries.filter (·.1 ≠ place) ++ [(place, e)] }

def erase (t : FileTree) (place : List String) : FileTree :=
  { t with entries := t.entries.filter (·.1 ≠ place) }

def read (t : FileTree) (p : Path) : Except FileError (List UInt8) := do
  match ← t.find p with
  | .file content => .ok content
  | .directory => .error .isDirectory

/-- The full path of a path, by names alone. -/
def fullPath (t : FileTree) (p : Path) : Path :=
  Path.absolute ⟨.slash, t.working⟩ p

def makeDirectory (t : FileTree) (p : Path) : Except FileError FileTree := do
  let place ← t.placeOf p
  match t.entryAt place with
  | some _ => .error .alreadyExists
  | none =>
    match t.entryAt place.dropLast with
    | some .directory => .ok (t.set place .directory)
    | some (.file _) => .error .notDirectory
    | none => .error .notFound

def move (t : FileTree) (source target : Path) : Except FileError FileTree := do
  let content ← t.read source
  let place ← t.placeOf target
  match t.entryAt place with
  | some .directory => .error .isDirectory
  | _ => .ok ((t.erase (← t.placeOf source)).set place (.file content))

/-- Makes a directory at a place where there is nothing. -/
def ensure (t : FileTree) (place : List String) : FileTree :=
  if (t.entryAt place).isNone then t.set place .directory else t

/-- Adds an entry at the end of a way from a place. The directories that the way leads through are
made, also those that it leaves again. -/
def add (t : FileTree) (place : List String) (e : Entry) : List String → FileTree
  | [] =>
    match e with
    | .directory => t.ensure place
    | .file _ => t.set place e
  | part :: parts =>
    let t := t.ensure place
    if part = ".." then t.add place.dropLast e parts else t.add (place ++ [part]) e parts

/-- What tells the names of staged files apart, in the order in which names are tried. The first
mark stands for any that is not taken, and all are of one length. -/
def stagedMark (number : Nat) : String :=
  if number = 0 then "<RAND>"
  else "<" ++ String.ofList ((toString (10000 + number)).toList.drop 1) ++ ">"

/-- The path of a file that is written before it takes its place. -/
def stagedPath (directory : Path) (name : String) (number : Nat) : Path :=
  directory.join ⟨.relative, ["." ++ name ++ "." ++ stagedMark number ++ ".tmp"]⟩

/-- How many bytes longer such a path is than it is shown here. -/
def stagedExtra : Nat := 2

/-- How many names are tried for a staged file. -/
def stagedTries : Nat := 10000

/-- The first path for a staged file at which there is nothing, from a number on. -/
def freePath? (t : FileTree) (directory : Path) (name : String) :
    (tries number : Nat) → Option Path
  | 0, _ => none
  | tries + 1, number =>
    let path := stagedPath directory name number
    if (t.entryAt path.parts).isNone then some path
    else t.freePath? directory name tries (number + 1)

/-- The tree with a file that is written before it takes its place, and the path of this file. -/
def stage (t : FileTree) (directory : Path) (name : String) (content : List UInt8) :
    Except FileFault (Path × FileTree) :=
  let around := t.fullPath directory
  let path := stagedPath around name 0
  if maxName < path.name.utf8ByteSize + stagedExtra
      || maxPath < path.text.utf8ByteSize + stagedExtra then
    .error ⟨.nameTooLong, path, none⟩
  else
    match t.freePath? around name stagedTries 0 with
    | none => .error ⟨.other 17 "No usable temporary file name found", path, none⟩
    | some path => .ok (path, t.set path.parts (.file content))

end FileTree

section

variable {m : Type → Type} [Monad m]

/-- A change of the tree that may be refused. -/
def changeTree (f : FileTree → Except FileError FileTree) :
    StateT FileTree m (Except FileError Unit) := do
  match f (← get) with
  | .ok t => do
    set t
    return .ok ()
  | .error e => return .error e

instance : MonadFiles (StateT FileTree m) where
  kind p := return ((← get).find p).map Entry.kind
  below p ending := return (← get).below p ending
  read p := return (← get).read p
  canonical p := return (← get).fullPath p
  makeDirectory p := changeTree (·.makeDirectory p)
  stage directory name content := do
    match (← get).stage directory name content with
    | .error f => return .error f
    | .ok (path, t) => do
      set t
      return .ok path
  move source target := changeTree (·.move source target)
  remove p := modify fun t => t.erase (t.fullPath p).parts

end

end SourceBundle
