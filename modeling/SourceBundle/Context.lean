/-
The options of a bundling run: how far the closure goes, what the
scaffold looks like, and what is logged.
-/
import SourceBundle.Files.Path
import SourceBundle.Log

namespace SourceBundle

/-- How many units of a referenced namespace come along. -/
inductive Policy where
  /-- All that the namespace declares. -/
  | wide
  /-- Only those that are referenced. -/
  | narrow
deriving DecidableEq, Repr, Inhabited

def Policy.name : Policy → String
  | wide => "wide"
  | narrow => "narrow"

def Policy.ofName? (name : String) : Option Policy :=
  [wide, narrow].find? (·.name = name)

/-- The namespaces that each bundle imports first. -/
def defaultFileUsings : List String :=
  ["System", "System.Linq", "System.Drawing", "System.Collections.Generic"]

/-- The options of a run. -/
structure Context where
  policy : Policy := .wide
  /-- The static method of the root that the scaffold calls. -/
  entryMethod : String := "Solve"
  /-- The namespace of the scaffold. -/
  scaffoldNamespace : String := "CSharpContestProject"
  defaultUsings : List String := defaultFileUsings
  /-- Whether usings of namespaces that no source declares go to the top of the file. -/
  hoist : Bool := true
  logLevel : LogLevel := .warning
  richLog : Bool := false
  /-- The directory that relative file names are seen from. -/
  directory : Path := ⟨.slash, []⟩
deriving Repr, Inhabited

namespace Context

/-- The line that a message gives in this context, if it is let through. -/
def admit? (c : Context) (level : LogLevel) (message : String) : Option LogLine :=
  if level.rank ≤ c.logLevel.rank then
    some ⟨if c.richLog then some level else none, message⟩
  else none

def log {m : Type → Type} [Monad m] [MonadLog m] (c : Context) (level : LogLevel)
    (message : String) : m Unit :=
  match c.admit? level message with
  | none => pure ()
  | some line => MonadLog.note line

end Context

end SourceBundle
