/-
UTF-8. A lead byte tells how many bytes follow it and in which range
the first of these lies; the others lie between 80 and BF. Reading
stops at the first byte that cannot stand where it does.
-/
import SourceBundle.Text.CharRange

namespace SourceBundle.Text

/-- What is wrong with bytes that are no UTF-8. -/
inductive DecodeCause where
  /-- No character starts with this byte. -/
  | startByte
  /-- The next byte does not go on with the character. -/
  | continuation
  /-- The bytes end inside a character. -/
  | endOfData
deriving DecidableEq, Repr

def DecodeCause.text : DecodeCause → String
  | startByte => "invalid start byte"
  | continuation => "invalid continuation byte"
  | endOfData => "unexpected end of data"

/-- Bytes that are no UTF-8: where they start, how many they are, and the first of them. -/
structure DecodeError where
  start : Nat
  count : Nat
  byte : UInt8
  cause : DecodeCause
deriving DecidableEq, Repr

/-- A byte as two hexadecimal digits. -/
def hexByte (b : UInt8) : String :=
  String.ofList [Nat.digitChar (b.toNat / 16), Nat.digitChar (b.toNat % 16)]

def DecodeError.message (e : DecodeError) : String :=
  let place :=
    if e.count = 1 then s!"byte 0x{hexByte e.byte} in position {e.start}"
    else s!"bytes in position {e.start}-{e.start + e.count - 1}"
  "'utf-8' codec can't decode " ++ place ++ ": " ++ e.cause.text

-- ===== reading

/-- What a lead byte tells: the number of bytes after it, the range of the first of these, and
the bits that it carries itself. -/
structure Lead where
  tails : Nat
  low : UInt8
  high : UInt8
  bits : Nat

/-- What a byte tells as the first of a character. -/
def lead? (b : UInt8) : Option Lead :=
  let n := b.toNat
  if n < 0x80 then some ⟨0, 0x80, 0xBF, n⟩
  else if n < 0xC2 then none
  else if n < 0xE0 then some ⟨1, 0x80, 0xBF, n - 0xC0⟩
  else if n < 0xF0 then
    some ⟨2, if n = 0xE0 then 0xA0 else 0x80, if n = 0xED then 0x9F else 0xBF, n - 0xE0⟩
  else if n < 0xF5 then
    some ⟨3, if n = 0xF0 then 0x90 else 0x80, if n = 0xF4 then 0x8F else 0xBF, n - 0xF0⟩
  else none

/-- How reading the bytes after a lead byte ends. -/
inductive Tail where
  | whole (value : Nat)
  /-- The bytes end too early. -/
  | cut
  /-- A byte is out of range after some good ones. -/
  | bad (good : Nat)

/-- The same with one more good byte before it. -/
def Tail.afterOne : Tail → Tail
  | bad good => .bad (good + 1)
  | t => t

/-- Reads the bytes after a lead byte. -/
def readTail : (tails : Nat) → (low high : UInt8) → (value : Nat) → List UInt8 → Tail
  | 0, _, _, value, _ => .whole value
  | _ + 1, _, _, _, [] => .cut
  | tails + 1, low, high, value, b :: bs =>
    if low ≤ b && b ≤ high then
      (readTail tails 0x80 0xBF (value * 64 + (b.toNat - 0x80)) bs).afterOne
    else .bad 0

/-- Reads bytes from a position on, the first `skip` of which belong to the character before;
`done` holds the characters read, the last one first. -/
def decodeFrom (done : List Char) : (position skip : Nat) → List UInt8 →
    Except DecodeError (List Char)
  | _, _, [] => .ok done.reverse
  | position, skip + 1, _ :: bs => decodeFrom done (position + 1) skip bs
  | position, 0, b :: bs =>
    match lead? b with
    | none => .error ⟨position, 1, b, .startByte⟩
    | some l =>
      match readTail l.tails l.low l.high l.bits bs with
      | .cut => .error ⟨position, bs.length + 1, b, .endOfData⟩
      | .bad good => .error ⟨position, good + 1, b, .continuation⟩
      | .whole value => decodeFrom (Char.ofNat value :: done) (position + 1) l.tails bs

/-- The characters of bytes in UTF-8. -/
def decodeUtf8 (bytes : List UInt8) : Except DecodeError (List Char) :=
  decodeFrom [] 0 0 bytes

/-- The bytes of a text in UTF-8. -/
def encodeUtf8 (text : String) : List UInt8 :=
  text.toUTF8.toList

end SourceBundle.Text
