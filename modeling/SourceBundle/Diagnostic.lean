/-
Diagnostics: what was found wrong without stopping the work, and where.
A message may open with its code between brackets.
-/
import SourceBundle.Context
import SourceBundle.Tree.Expr

namespace SourceBundle

/-- How serious a diagnostic is. -/
inductive Severity where
  | error
  | warning
  | other (word : String)
deriving DecidableEq, Repr

def Severity.word : Severity → String
  | error => "error"
  | warning => "warning"
  | other word => word

def Severity.ofWord (word : String) : Severity :=
  if word = "error" then error else if word = "warning" then warning else other word

/-- A diagnostic: its message, the unit and the file it is about, and where it starts and ends. -/
structure Diagnostic where
  severity : Severity
  message : String
  unit : Option String := none
  file : Option String := none
  line : Option Int := none
  column : Option Int := none
  endLine : Option Int := none
  endColumn : Option Int := none
deriving DecidableEq, Repr

namespace Diagnostic

/-- The code that opens the message, between brackets. -/
def code (d : Diagnostic) : Option String :=
  match d.message.toList with
  | '[' :: cs => if cs.contains ']' then some (String.ofList (cs.takeWhile (· ≠ ']'))) else none
  | _ => none

/-- The line and column as they follow a file name. A column alone is not shown. -/
def placeText (d : Diagnostic) : String :=
  match d.line, d.column with
  | none, _ => ""
  | some l, none => s!":{l}"
  | some l, some c => s!":{l}:{c}"

/-- The head line: absolute file name, place, unit, severity and message. -/
def format (directory : Path) (d : Diagnostic) : String :=
  let file := match d.file with
    | none => ""
    | some f => (directory.absolute (.ofText f)).text
  let unit := match d.unit with
    | none => ""
    | some u => "(" ++ u ++ ")"
  let place := file ++ d.placeText ++ unit
  (if place.isEmpty then "" else place ++ ": ") ++ d.severity.word ++ ": " ++ d.message

/-- A diagnostic placed at a span. -/
def atSpan (d : Diagnostic) (span : Option Span) : Diagnostic :=
  match span with
  | none => d
  | some s =>
    { d with
      line := some s.startLine, column := some s.startColumn, endLine := some s.endLine,
      endColumn := some s.endColumn }

end Diagnostic

end SourceBundle
