/-
The text of a file: UTF-8, perhaps after a byte order mark, with its
lines ended alike.
-/
import SourceBundle.Files.Access
import SourceBundle.Text.Lines
import SourceBundle.Text.Utf8

namespace SourceBundle

/-- Why a file has no text. -/
inductive ReadError where
  | fault (f : FileFault)
  | decode (e : Text.DecodeError)
deriving DecidableEq, Repr

namespace ReadError

def message : ReadError → String
  | fault f => f.message
  | decode e => e.message

/-- The fault of the path, if no file can have it. -/
def impossible? : ReadError → Option FileFault
  | fault f => if f.isImpossible then some f else none
  | decode _ => none

end ReadError

/-- The byte order mark of UTF-8. -/
def byteOrderMark : List UInt8 := [0xEF, 0xBB, 0xBF]

/-- Bytes without the mark. If they are only a part of the mark nothing is left. -/
def dropMark (bytes : List UInt8) : List UInt8 :=
  if bytes.isPrefixOf byteOrderMark then []
  else if byteOrderMark.isPrefixOf bytes then bytes.drop byteOrderMark.length
  else bytes

/-- The text that bytes are. Positions in errors count from after the mark. -/
def textOfBytes (bytes : List UInt8) : Except Text.DecodeError String :=
  (Text.decodeUtf8 (dropMark bytes)).map fun cs => String.ofList (Text.unifyLineEnds cs)

def readText {m : Type → Type} [Monad m] [MonadFiles m] (p : Path) :
    m (Except ReadError String) := do
  match ← MonadFiles.read p with
  | .error e => return .error (.fault ⟨e, p, none⟩)
  | .ok bytes =>
    match textOfBytes bytes with
    | .error e => return .error (.decode e)
    | .ok text => return .ok text

end SourceBundle
