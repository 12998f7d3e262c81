/-
The log: messages of four levels, which a context lets through or not.
In rich format a line opens with the time and the level; the time is
filled in where the line is written.
-/

namespace SourceBundle

/-- The levels of messages and of what is let through, from nothing to all. -/
inductive LogLevel where
  | silent
  | error
  | warning
  | info
  | debug
deriving DecidableEq, Repr, Inhabited

namespace LogLevel

/-- The rank of a level; a message passes if its rank is not above that of the context. -/
def rank : LogLevel → Nat
  | silent => 0
  | error => 3
  | warning => 6
  | info => 10
  | debug => 30

/-- The name of a level in rich format. -/
def name : LogLevel → String
  | silent => "SILENT"
  | error => "ERROR"
  | warning => "WARNING"
  | info => "INFO"
  | debug => "DEBUG"

end LogLevel

/-- A line that was let through. `label` is set in rich format. -/
structure LogLine where
  label : Option LogLevel := none
  message : String
deriving DecidableEq, Repr

/-- The text of a line written at the given time. -/
def LogLine.text (time : String) (line : LogLine) : String :=
  match line.label with
  | none => line.message
  | some level => time ++ " [" ++ level.name ++ "] " ++ line.message

/-- Effects that keep a log. -/
class MonadLog (m : Type → Type) where
  note : LogLine → m Unit

/-- Plain values keep no log. -/
instance : MonadLog Id := ⟨fun _ => ()⟩

/-- Work that keeps its log as a list, the last line first. -/
abbrev Logged := StateM (List LogLine)

instance : MonadLog Logged := ⟨fun line => modify (line :: ·)⟩

instance {σ : Type} {m : Type → Type} [Monad m] [MonadLog m] : MonadLog (StateT σ m) :=
  ⟨fun line => StateT.lift (MonadLog.note line)⟩

instance {ε : Type} {m : Type → Type} [Monad m] [MonadLog m] : MonadLog (ExceptT ε m) :=
  ⟨fun line => ExceptT.lift (MonadLog.note line)⟩

/-- The message that opens a stage of work, with what it works on. -/
def stageMessage (stage subject : String) : String :=
  if subject.isEmpty then stage ++ "..." else stage ++ " '" ++ subject ++ "'"

end SourceBundle
