/-
What stands at the front of a text: gaps, literals, names, numbers and
marks. Each reader answers with a number of characters, so that what is
read and what is left are a `take` and a `drop` of the same list. A
fault is given with the number of characters before it.

A NUL character counts as the end of the text inside literals, line
comments and directives.
-/
import SourceBundle.Text.Digit
import SourceBundle.Text.Letter
import SourceBundle.Text.Numeral
import SourceBundle.Token.Kind

namespace SourceBundle

open Text

-- ===== faults

/-- Why a text has no token at a place. -/
inductive LexFault where
  | unterminatedString
  | unterminatedVerbatim
  | unterminatedRaw
  | unterminatedChar
  | unterminatedHole
  | unterminatedComment
  | unexpected (c : Char)
deriving DecidableEq, Repr

/-- A fault and how many characters stand before it. -/
abbrev FaultAt := LexFault × Nat

-- ===== gaps

/-- Where a gap between tokens has got to. -/
inductive GapMode where
  | between
  | line
  | block (start : Nat)
deriving DecidableEq, Repr

/-- White space between tokens. -/
def isGapBlank (c : Char) : Bool :=
  c = ' ' || c = '\t' || c = '\r' || c = '\n' || c = '\x0c' || c = '\x0b'

/-- Reads on in a gap. `fresh` says that only spaces and tabs stand between here and the start
of the line, where `#` opens a directive; `n` characters have been read. -/
def gapFrom : GapMode → Bool → Nat → List Char → Except FaultAt Nat
  | .between, _, n, [] => .ok n
  | .between, _, n, '/' :: '/' :: cs => gapFrom .line false (n + 2) cs
  | .between, _, n, '/' :: '*' :: cs => gapFrom (.block n) false (n + 2) cs
  | .between, fresh, n, c :: cs =>
    if isGapBlank c then
      gapFrom .between (c = '\n' || ((c = ' ' || c = '\t') && fresh)) (n + 1) cs
    else if c = '#' && fresh then gapFrom .line false (n + 1) cs
    else .ok n
  | .line, _, n, [] => .ok n
  | .line, _, n, c :: cs =>
    if c = '\n' then gapFrom .between true (n + 1) cs
    else if c = '\x00' then .ok n
    else gapFrom .line false (n + 1) cs
  | .block start, _, _, [] => .error (.unterminatedComment, start)
  | .block _, _, n, '*' :: '/' :: cs => gapFrom .between false (n + 2) cs
  | .block start, _, n, _ :: cs => gapFrom (.block start) false (n + 1) cs

/-- The length of the gap at the front: blanks, comments and directives. -/
def gapLength (fresh : Bool) (cs : List Char) : Except FaultAt Nat :=
  gapFrom .between fresh 0 cs

-- ===== literals

/-- The characters up to the closing quote of a literal with backslash escapes, the quote
included. A newline or NUL leaves it open. -/
def escapedLength? (quote : Char) : List Char → Option Nat
  | [] => none
  | '\\' :: [] => none
  | '\\' :: _ :: cs => (escapedLength? quote cs).map (· + 2)
  | c :: cs =>
    if c = '\x00' || c = '\n' then none
    else if c = quote then some 1
    else (escapedLength? quote cs).map (· + 1)

/-- The characters up to the closing quote of a verbatim literal, the quote included. A doubled
quote stands for itself. -/
def verbatimLength? : List Char → Option Nat
  | [] => none
  | '"' :: '"' :: cs => (verbatimLength? cs).map (· + 2)
  | c :: cs =>
    if c = '"' then some 1
    else if c = '\x00' then none
    else (verbatimLength? cs).map (· + 1)

/-- The characters up to the first run of `quotes` quotes, the run included. -/
def rawTailLength? (quotes : Nat) : List Char → Option Nat
  | [] => none
  | c :: cs =>
    if (List.replicate quotes '"').isPrefixOf (c :: cs) then some quotes
    else (rawTailLength? quotes cs).map (· + 1)

/-- The length of a raw literal: it closes with as many quotes as it opens with. -/
def rawLength? (cs : List Char) : Option Nat :=
  let quotes := (cs.takeWhile (· = '"')).length
  (rawTailLength? quotes (cs.drop quotes)).map (quotes + ·)

/-- Whether the text opens with three quotes. -/
def opensRaw (cs : List Char) : Bool :=
  ['"', '"', '"'].isPrefixOf cs

-- ===== interpolated strings

/-- The expression part of a hole, as a range of the characters of its literal. -/
structure HoleRange where
  start : Nat
  length : Nat
deriving DecidableEq, Repr

/-- What reading a hole found: the length of its expression, and of all of it with the closing
brace. -/
structure HoleExtent where
  expression : Nat
  total : Nat
deriving DecidableEq, Repr

/-- Reads on in a hole. `skip` characters belong to a literal inside it, `depth` counts open
brackets (a stray closing one makes it negative), and `expression` is set once a comma or colon
outside brackets has ended the expression; from there on quotes are plain characters. -/
def holeFrom : (skip : Nat) → (depth : Int) → (expression : Option Nat) → (n : Nat) →
    List Char → Except FaultAt HoleExtent
  | _, _, _, _, [] => .error (.unterminatedHole, 0)
  | skip + 1, depth, expression, n, _ :: cs => holeFrom skip depth expression (n + 1) cs
  | 0, depth, expression, n, c :: cs =>
    if c = '\x00' then .error (.unterminatedHole, 0)
    else if c = '"' && expression.isNone then
      match escapedLength? '"' cs with
      | none => .error (.unterminatedString, n)
      | some k => holeFrom k depth expression (n + 1) cs
    else if c = '\'' && expression.isNone then
      match escapedLength? '\'' cs with
      | none => .error (.unterminatedChar, n)
      | some k => holeFrom k depth expression (n + 1) cs
    else if c = '(' || c = '[' || c = '\x7b' then holeFrom 0 (depth + 1) expression (n + 1) cs
    else if c = ')' || c = ']' then holeFrom 0 (depth - 1) expression (n + 1) cs
    else if c = '\x7d' then
      if depth = 0 then .ok ⟨expression.getD n, n + 1⟩
      else holeFrom 0 (depth - 1) expression (n + 1) cs
    else if (c = ',' || c = ':') && depth = 0 && expression.isNone then
      holeFrom 0 depth (some n) (n + 1) cs
    else holeFrom 0 depth expression (n + 1) cs

/-- The extent of the hole whose opening brace stands just before. Alignment and format are not
part of its expression. -/
def holeExtent (cs : List Char) : Except FaultAt HoleExtent :=
  holeFrom 0 0 none 0 cs

/-- The holes of an interpolated literal in order, and its length, or the fault that the reading
stopped at. The holes before a fault are known, because a fault inside one of them comes first. -/
structure InterpolatedExtent where
  holes : List HoleRange
  length : Except FaultAt Nat

/-- Reads on in an interpolated literal after its opening quote; `n` characters have been read
and the next `skip` are passed over. -/
def interpolatedFrom (verbatim : Bool) : (skip n : Nat) → List Char → InterpolatedExtent
  | _, _, [] => ⟨[], .error (.unterminatedString, 0)⟩
  | skip + 1, n, _ :: cs => interpolatedFrom verbatim skip (n + 1) cs
  | 0, n, c :: cs =>
    if c = '\x00' || (c = '\n' && !verbatim) then ⟨[], .error (.unterminatedString, 0)⟩
    else if c = '\\' && !verbatim then interpolatedFrom verbatim 1 (n + 1) cs
    else if c = '"' then
      if verbatim && cs.head? = some '"' then interpolatedFrom verbatim 1 (n + 1) cs
      else ⟨[], .ok (n + 1)⟩
    else if c = '\x7b' then
      if cs.head? = some '\x7b' then interpolatedFrom verbatim 1 (n + 1) cs
      else
        match holeExtent cs with
        | .error (fault, k) => ⟨[], .error (fault, n + 1 + k)⟩
        | .ok hole =>
          let more := interpolatedFrom verbatim hole.total (n + 1) cs
          { more with holes := ⟨n + 1, hole.expression⟩ :: more.holes }
    else if c = '\x7d' && cs.head? = some '\x7d' then interpolatedFrom verbatim 1 (n + 1) cs
    else interpolatedFrom verbatim 0 (n + 1) cs

-- ===== names and numbers

/-- What a name starts with. -/
def isNameStart (c : Char) : Bool :=
  isLetter c || c = '_'

/-- What a name goes on with. -/
def isNamePart (c : Char) : Bool :=
  isLetter c || isNumeral c || c = '_'

/-- The length of the name at the front, given that its first character is one. -/
def nameLength (cs : List Char) : Nat :=
  1 + ((cs.drop 1).takeWhile isNamePart).length

/-- Digits and the mark that groups them. -/
def isGroupedDigit (c : Char) : Bool :=
  isDigit c || c = '_'

/-- The length of a fraction: a point, a digit, and what follows of them. -/
def fractionLength : List Char → Nat
  | '.' :: d :: cs => if isDigit d then 1 + ((d :: cs).takeWhile isGroupedDigit).length else 0
  | _ => 0

/-- The length of an exponent: its letter, a sign or none, and digits. -/
def exponentLength : List Char → Nat
  | e :: cs =>
    if e = 'e' || e = 'E' then
      match cs with
      | s :: d :: ds =>
        if isDigit s then 1 + (cs.takeWhile isDigit).length
        else if (s = '+' || s = '-') && isDigit d then 2 + ((d :: ds).takeWhile isDigit).length
        else 0
      | [s] => if isDigit s then 2 else 0
      | [] => 0
    else 0
  | [] => 0

/-- The letters that give a number its type. -/
def isNumberSuffix (c : Char) : Bool :=
  ['u', 'U', 'l', 'L', 'f', 'F', 'd', 'D', 'm', 'M'].contains c

/-- Whether the text opens with the mark of a hexadecimal or binary number. -/
def hasRadixMark : List Char → Bool
  | '0' :: x :: _ => x = 'x' || x = 'X' || x = 'b' || x = 'B'
  | _ => false

/-- The length of the number at the front. -/
def numberLength (cs : List Char) : Nat :=
  if hasRadixMark cs then 2 + ((cs.drop 2).takeWhile isNamePart).length
  else
    let whole := (cs.takeWhile isGroupedDigit).length
    let fraction := fractionLength (cs.drop whole)
    let exponent := exponentLength (cs.drop (whole + fraction))
    let body := whole + fraction + exponent
    body + ((cs.drop body).takeWhile isNumberSuffix).length

/-- Whether a number starts here. -/
def startsNumber : List Char → Bool
  | '.' :: d :: _ => isDigit d
  | c :: _ => isDigit c
  | [] => false

-- ===== lexemes

/-- What stands at the front of a text that starts with no gap. -/
inductive Lexeme where
  /-- A lexeme whose text is all of its characters. -/
  | plain (kind : Kind) (length : Nat)
  /-- A name written after `@`, which is no part of its text. -/
  | escapedName (length : Nat)
  /-- An interpolated literal whose holes are to be read. -/
  | interpolated (extent : InterpolatedExtent)

namespace Lexeme

/-- The kind of the token that a lexeme makes. -/
def kind : Lexeme → Kind
  | plain kind _ => kind
  | escapedName _ => .ident
  | interpolated _ => .interpolated

/-- How many characters at the front are no part of the token's text. -/
def hidden : Lexeme → Nat
  | escapedName _ => 1
  | _ => 0

/-- The holes that are to be read. -/
def holes : Lexeme → Option (List HoleRange)
  | interpolated extent => some extent.holes
  | _ => none

/-- The number of characters. -/
def length : Lexeme → Except FaultAt Nat
  | plain _ n => .ok n
  | escapedName n => .ok n
  | interpolated extent => extent.length

end Lexeme

/-- The length of the suffix that makes a literal one of bytes. -/
def byteSuffixLength : List Char → Nat
  | u :: '8' :: _ => if u = 'u' || u = 'U' then 2 else 0
  | _ => 0

/-- A literal of known length, or the fault that it is not closed. -/
def closedOr (fault : LexFault) (length : Option Nat) : Except FaultAt Nat :=
  match length with
  | some n => .ok n
  | none => .error (fault, 0)

/-- A literal that opens with a quote. -/
def plainString (cs : List Char) : Except FaultAt Lexeme := do
  let n ←
    if opensRaw cs then closedOr .unterminatedRaw (rawLength? cs)
    else closedOr .unterminatedString ((escapedLength? '"' (cs.drop 1)).map (1 + ·))
  return .plain .string (n + byteSuffixLength (cs.drop n))

/-- The marks that may stand before a literal's quote. -/
def isStringMark (c : Char) : Bool :=
  c = '$' || c = '@'

/-- A literal that opens with marks: raw ones are not looked into, `$` makes it interpolated and
`@` verbatim. -/
def markedString (cs : List Char) : Except FaultAt Lexeme :=
  let marks := cs.takeWhile isStringMark
  let body := cs.drop marks.length
  if opensRaw body then do
    let n ← closedOr .unterminatedRaw (rawLength? body)
    return .plain (if marks.contains '$' then .interpolated else .string) (marks.length + n)
  else if marks.contains '$' then
    .ok (.interpolated (interpolatedFrom (marks.contains '@') 0 (marks.length + 1) (body.drop 1)))
  else do
    let n ← closedOr .unterminatedVerbatim (verbatimLength? (body.drop 1))
    return .plain .string (marks.length + 1 + n)

/-- Whether marks and a quote stand here. -/
def startsMarkedString (cs : List Char) : Bool :=
  match cs with
  | c :: _ => isStringMark c && (cs.dropWhile isStringMark).head? = some '"'
  | [] => false

/-- A question mark before a number that starts with a point is a mark of its own. -/
def questionBeforeNumber : List Char → Bool
  | '?' :: '.' :: d :: _ => isDigit d
  | _ => false

/-- The operator of several characters at the front. -/
def compoundOperator? (cs : List Char) : Option (String × Kind) :=
  compoundOperators.find? fun o => o.1.toList.isPrefixOf cs

/-- The lexeme at the front of a text that is not empty and starts with no gap. -/
def lexeme (cs : List Char) : Except FaultAt Lexeme :=
  match cs with
  | [] => .ok (.plain .eof 0)
  | c :: rest =>
    if startsMarkedString cs then markedString cs
    else if c = '"' then plainString cs
    else if c = '\'' then do
      let n ← closedOr .unterminatedChar (escapedLength? '\'' rest)
      return .plain .char (1 + n)
    else if c = '@' && (rest.head?.any isNameStart) then .ok (.escapedName (1 + nameLength rest))
    else if isNameStart c then
      let n := nameLength cs
      .ok (.plain (Kind.ofWord (String.ofList (cs.take n))) n)
    else if startsNumber cs then .ok (.plain .number (numberLength cs))
    else if questionBeforeNumber cs then .ok (.plain .question 1)
    else
      match compoundOperator? cs with
      | some (text, kind) => .ok (.plain kind text.length)
      | none =>
        match Kind.ofMark? c with
        | some kind => .ok (.plain kind 1)
        | none => .error (.unexpected c, 0)

-- ===== dots

theorem ne_dot_of_isNamePart {c : Char} (hc : isNamePart c = true) : c ≠ '.' := by
  rintro rfl
  exact absurd hc (by decide)

theorem ne_dot_of_isNameStart {c : Char} (hc : isNameStart c = true) : c ≠ '.' := by
  rintro rfl
  exact absurd hc (by decide)

/-- A name has no dot. -/
theorem dotless_name {c : Char} {cs : List Char} (hc : isNameStart c = true) :
    '.' ∉ (c :: cs).take (nameLength (c :: cs)) := by
  have htake : (c :: cs).take (nameLength (c :: cs)) = c :: cs.takeWhile isNamePart := by
    rw [nameLength, Nat.add_comm, List.take_succ_cons, List.drop_one, List.tail_cons]
    exact congrArg (c :: ·) (List.prefix_iff_eq_take.1 (List.takeWhile_prefix _)).symm
  rw [htake]
  intro hdot
  rcases List.mem_cons.1 hdot with hdot | hdot
  · exact ne_dot_of_isNameStart hc hdot.symm
  · exact ne_dot_of_isNamePart (List.all_eq_true.1 List.all_takeWhile _ hdot) rfl

-- ===== the ways to read a lexeme

/-- How a lexeme is read off the front of a text. -/
inductive Lexed : List Char → Lexeme → Prop
  | marked {cs l} : startsMarkedString cs = true → markedString cs = .ok l → Lexed cs l
  | quoted {rest l} : plainString ('"' :: rest) = .ok l → Lexed ('"' :: rest) l
  | char {rest n} : escapedLength? '\'' rest = some n → Lexed ('\'' :: rest) (.plain .char (1 + n))
  | escaped {d rest} : isNameStart d = true →
      Lexed ('@' :: d :: rest) (.escapedName (1 + nameLength (d :: rest)))
  | name {c rest} : isNameStart c = true →
      Lexed (c :: rest)
        (.plain (Kind.ofWord (String.ofList ((c :: rest).take (nameLength (c :: rest)))))
          (nameLength (c :: rest)))
  | number {cs} : startsNumber cs = true → Lexed cs (.plain .number (numberLength cs))
  | compound {cs text kind} : compoundOperator? cs = some (text, kind) →
      Lexed cs (.plain kind text.length)
  | mark {c rest kind} : Kind.ofMark? c = some kind → Lexed (c :: rest) (.plain kind 1)

theorem closedOr_eq_ok {fault : LexFault} {length? : Option Nat} {n : Nat}
    (h : closedOr fault length? = .ok n) : length? = some n := by
  cases length? with
  | none => cases h
  | some k => cases h; rfl

/-- What goes on after a length comes from a length. -/
theorem bind_length_eq_ok {x : Except FaultAt Nat} {f : Nat → Lexeme} {l : Lexeme}
    (h : (do let n ← x; return f n) = .ok l) : ∃ n, x = .ok n ∧ l = f n := by
  cases x with
  | error e => cases h
  | ok n => cases h; exact ⟨n, rfl, rfl⟩

theorem lexed_of_lexeme {cs : List Char} {l : Lexeme} (hcs : cs ≠ []) (h : lexeme cs = .ok l) :
    Lexed cs l := by
  unfold lexeme at h
  split at h
  · exact absurd rfl hcs
  next c rest =>
  split at h
  next hmarked => exact .marked hmarked h
  split at h
  next hc => exact hc ▸ .quoted (hc ▸ h)
  split at h
  next hc =>
    obtain ⟨n, hn, rfl⟩ := bind_length_eq_ok h
    exact hc ▸ .char (closedOr_eq_ok hn)
  split at h
  next hescaped =>
    cases h
    cases rest with
    | nil => simp at hescaped
    | cons d rest =>
      simp only [List.head?_cons, Option.any_some, Bool.and_eq_true, decide_eq_true_eq] at hescaped
      exact hescaped.1 ▸ .escaped hescaped.2
  split at h
  next hstart => cases h; exact .name hstart
  split at h
  next hnumber => cases h; exact .number hnumber
  split at h
  next hquestion =>
    cases h
    unfold questionBeforeNumber at hquestion
    split at hquestion
    next heq => cases heq; exact .mark rfl
    next => cases hquestion
  split at h
  next hcompound => cases h; exact .compound hcompound
  split at h
  next hmark => cases h; exact .mark hmark
  next => cases h

theorem plainString_kind {cs : List Char} {l : Lexeme} (h : plainString cs = .ok l) :
    l.kind = .string := by
  unfold plainString at h
  split at h <;> obtain ⟨n, -, rfl⟩ := bind_length_eq_ok h <;> rfl

theorem markedString_kind {cs : List Char} {l : Lexeme} (h : markedString cs = .ok l) :
    l.kind = .string ∨ l.kind = .interpolated := by
  unfold markedString at h
  dsimp only at h
  split at h
  · obtain ⟨n, -, rfl⟩ := bind_length_eq_ok h
    show (if _ then Kind.interpolated else Kind.string) = _ ∨ _ = _
    split
    · exact .inr rfl
    · exact .inl rfl
  · split at h
    · cases h
      exact .inr rfl
    · obtain ⟨n, -, rfl⟩ := bind_length_eq_ok h
      exact .inl rfl

/-- The kinds of words. -/
def Kind.IsWord (kind : Kind) : Prop :=
  kind = .ident ∨ kind = .predefinedType

instance (kind : Kind) : Decidable kind.IsWord := by
  unfold Kind.IsWord
  infer_instance

/-- A word stands where a name starts, perhaps after `@`. -/
theorem lexeme_word {cs : List Char} {l : Lexeme} (h : lexeme cs = .ok l) (hkind : l.kind.IsWord) :
    (∃ c rest, cs = c :: rest ∧ isNameStart c = true
        ∧ l = .plain (Kind.ofWord (String.ofList (cs.take (nameLength cs)))) (nameLength cs))
      ∨ ∃ d rest, cs = '@' :: d :: rest ∧ isNameStart d = true
        ∧ l = .escapedName (1 + nameLength (d :: rest)) := by
  by_cases hcs : cs = []
  · subst hcs
    cases h
    exact absurd hkind (by decide)
  cases lexed_of_lexeme hcs h with
  | marked _ hm =>
    rcases markedString_kind hm with hm | hm <;> exact absurd (hm ▸ hkind) (by decide)
  | quoted hq => exact absurd (plainString_kind hq ▸ hkind) (by decide)
  | char | number => exact hkind.elim nofun nofun
  | escaped hstart => exact .inr ⟨_, _, rfl, hstart, rfl⟩
  | name hstart => exact .inl ⟨_, _, rfl, hstart, rfl⟩
  | compound ho =>
    have hall : ∀ o ∈ compoundOperators, ¬ o.2.IsWord := by decide
    exact absurd hkind (hall _ (List.mem_of_find?_eq_some ho))
  | mark hk =>
    unfold Kind.ofMark? at hk
    split at hk <;> cases hk <;> exact hkind.elim nofun nofun

/-- An identifier has no dot. -/
theorem dotless_of_lexeme {cs : List Char} {l : Lexeme} {n : Nat} (h : lexeme cs = .ok l)
    (hn : l.length = .ok n) (hkind : l.kind = .ident) : '.' ∉ (cs.take n).drop l.hidden := by
  rcases lexeme_word h (.inl hkind) with ⟨c, rest, rfl, hstart, rfl⟩ | ⟨d, rest, rfl, hstart, rfl⟩
  · cases hn
    exact dotless_name hstart
  · cases hn
    rw [Lexeme.hidden, Nat.add_comm, List.take_succ_cons, List.drop_one, List.tail_cons]
    exact dotless_name hstart

end SourceBundle
