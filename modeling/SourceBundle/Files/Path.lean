/-
Paths as names of places in a file tree. A path is a root and a list of
parts; empty parts and single dots are dropped when it is read, and
double dots stay until it is made absolute.
-/
import SourceBundle.Text.Split

namespace SourceBundle

/-- What a path starts from. Two leading slashes are a root of their own; one, or more than two,
are the same root. -/
inductive PathRoot where
  | relative
  | slash
  | doubleSlash
deriving DecidableEq, Repr, Inhabited

structure Path where
  root : PathRoot := .relative
  parts : List String := []
deriving DecidableEq, Repr, Inhabited

namespace Path

def partsOf (text : String) : List String :=
  (Text.splitAt '/' text).filter fun part => part ≠ "" && part ≠ "."

def rootOf (text : String) : PathRoot :=
  match text.toList with
  | '/' :: '/' :: '/' :: _ => .slash
  | '/' :: '/' :: _ => .doubleSlash
  | '/' :: _ => .slash
  | _ => .relative

/-- The path that a text names. -/
def ofText (text : String) : Path :=
  ⟨rootOf text, partsOf text⟩

/-- A path as it is written; the empty one is a dot. -/
def text (p : Path) : String :=
  let body := "/".intercalate p.parts
  match p.root with
  | .relative => if p.parts.isEmpty then "." else body
  | .slash => "/" ++ body
  | .doubleSlash => "//" ++ body

def isAbsolute (p : Path) : Bool :=
  p.root ≠ .relative

/-- One path after another; an absolute one stands for itself. -/
def join (p q : Path) : Path :=
  if q.isAbsolute then q else ⟨p.root, p.parts ++ q.parts⟩

/-- A part put after parts that are given last first, where a double dot takes back the part
before it, and at a root nothing. -/
def collapsePart (absolute : Bool) (parts : List String) (part : String) : List String :=
  if part ≠ ".." then part :: parts
  else
    match parts with
    | [] => if absolute then [] else [".."]
    | last :: more => if last = ".." then ".." :: parts else more

/-- A path with its double dots taken back by name alone. -/
def collapse (p : Path) : Path :=
  ⟨p.root, (p.parts.foldl (collapsePart p.isAbsolute) []).reverse⟩

/-- The absolute path of one that is seen from a directory. -/
def absolute (directory p : Path) : Path :=
  (directory.join p).collapse

/-- The last part of a path, or nothing. -/
def name (p : Path) : String :=
  p.parts.getLastD ""

/-- The path without its last part; a root, or the empty path, is its own parent. -/
def parent (p : Path) : Path :=
  ⟨p.root, p.parts.dropLast⟩

/-- The order of paths: part by part, each by code points. -/
def partsLe : List String → List String → Bool
  | [], _ => true
  | _ :: _, [] => false
  | a :: as, b :: bs => if a = b then partsLe as bs else a ≤ b

end Path

end SourceBundle
