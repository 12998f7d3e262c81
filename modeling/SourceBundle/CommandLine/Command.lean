/-
The commands: what can be asked for on the command line, and how it is
written there.
-/
import SourceBundle.CommandLine.Options
import SourceBundle.Context

namespace SourceBundle

/-- What can be asked for. The root and the directory may have been left blank. -/
inductive Command where
  /-- Writes the bundle of a root to a directory, or to the output. -/
  | bundle (workspace : String) (root directory : Option String) (toOutput : Bool)
  /-- Lists what a root needs. -/
  | deps (workspace : String) (root : Option String)
  /-- Lists the units of a workspace, or those of some namespaces. -/
  | units (workspace : String) (spaces : Option (List String))
  /-- Shows the syntax tree of a file. -/
  | tree (file : String)
  /-- Lists the tokens of a file. -/
  | tokens (file : String) (includeEnd : Bool)
deriving DecidableEq, Repr

/-- A command with the options that go with every command. -/
structure Invocation where
  command : Command
  verbosity : Nat := 0
  richLog : Bool := false
  policy : Option String := none
  entryMethod : Option String := none
  scaffoldNamespace : Option String := none
  hoist : Bool := true
deriving Repr

-- ===== grammar

namespace CommandLine

def helpOption : OptionSpec := ⟨["-h", "--help"], .help⟩

def policyOption : OptionSpec :=
  ⟨["--policy"], .value [Policy.wide.name, Policy.narrow.name]⟩

/-- What stands before a command. -/
def mainSpec : CommandSpec :=
  { program := "csbundle"
    options := [helpOption, ⟨["-v", "--verbose"], .switch⟩, ⟨["-l", "--log"], .switch⟩]
    positions := ["command"]
    takesRest := true }

def bundleSpec : CommandSpec :=
  { program := "csbundle bundle"
    options := [helpOption, policyOption, ⟨["--entry-method"], .value []⟩,
      ⟨["--scaffold-namespace"], .value []⟩, ⟨["--no-hoist"], .switch⟩, ⟨["--stdout"], .switch⟩]
    positions := ["workspace", "root", "output_dir"] }

def depsSpec : CommandSpec :=
  { program := "csbundle deps", options := [helpOption, policyOption]
    positions := ["workspace", "root"] }

def unitsSpec : CommandSpec :=
  { program := "csbundle units", options := [helpOption, ⟨["--namespace", "-n"], .value []⟩]
    positions := ["workspace"] }

def treeSpec : CommandSpec :=
  { program := "csbundle ast", options := [helpOption], positions := ["file"] }

def tokensSpec : CommandSpec :=
  { program := "csbundle tok", options := [helpOption, ⟨["--include-eof", "-I"], .switch⟩]
    positions := ["file"] }

/-- The commands by name. -/
def commandSpecs : List (String × CommandSpec) :=
  [("bundle", bundleSpec), ("deps", depsSpec), ("units", unitsSpec), ("ast", treeSpec),
   ("tok", tokensSpec), ("tokens", tokensSpec)]

/-- The line that says how a command is written. -/
def usageLine (c : CommandSpec) : String :=
  let option (o : OptionSpec) : String :=
    " [" ++ o.names.headD "" ++ (if o.takesValue then " VALUE" else "") ++ "]"
  "usage: " ++ c.program ++ String.join (c.options.map option)
    ++ String.join (c.positions.map (" " ++ ·)) ++ (if c.takesRest then " ..." else "")

-- ===== reading

/-- Arguments that are refused, by the command that refuses them. -/
structure Refusal where
  spec : CommandSpec
  error : UsageError

/-- The line that says what is wrong. -/
def Refusal.message (r : Refusal) : String :=
  r.spec.program ++ ": error: " ++ r.error.message

/-- The namespaces that are chosen, if there is a choice: a blank one chooses none. -/
def chosenSpaces (g : Given) : Option (List String) :=
  if g.count "--namespace" = 0 then none else some (g.value? "--namespace").toList

/-- The command of a name and its arguments. The first position is never blank. -/
def commandOf (name : String) (g : Given) : Command :=
  let first := (g.word? 0).getD ""
  match name with
  | "bundle" => .bundle first (g.word? 1) (g.word? 2) (0 < g.count "--stdout")
  | "deps" => .deps first (g.word? 1)
  | "units" => .units first (chosenSpaces g)
  | "ast" => .tree first
  | _ => .tokens first (0 < g.count "--include-eof")

/-- Reads the arguments of a command that is found by name. -/
def readCommand (main : Given) (name : String) (spec : CommandSpec) :
    Except Refusal Invocation := do
  let g ← (spec.read main.rest).mapError (⟨spec, ·⟩)
  match main.extras ++ g.extras with
  | [] =>
    return { command := commandOf name g, verbosity := main.count "--verbose"
             richLog := 0 < main.count "--log", policy := g.value? "--policy"
             entryMethod := g.value? "--entry-method"
             scaffoldNamespace := g.value? "--scaffold-namespace"
             hoist := g.count "--no-hoist" = 0 }
  | extras => throw ⟨mainSpec, .unknownArguments extras⟩

/-- Reads the arguments of the program. -/
def read (args : List String) : Except Refusal Invocation := do
  let main ← (mainSpec.read args).mapError (⟨mainSpec, ·⟩)
  let name := (main.word? 0).getD ""
  match commandSpecs.lookup name with
  | none => throw ⟨mainSpec, .badChoice "command" name (commandSpecs.map (·.1))⟩
  | some spec => readCommand main name spec

end CommandLine

-- ===== context

/-- The variables of the environment that count. -/
structure Environment where
  policy : Option String := none
  entryMethod : Option String := none

namespace Environment

/-- A setting that is not empty. -/
def nonempty (value : Option String) : Option String :=
  value.filter (!·.isEmpty)

/-- Whether the policy is one. -/
def check (e : Environment) : Except CommandLine.Refusal Unit :=
  match nonempty e.policy with
  | none => .ok ()
  | some value =>
    if (Policy.ofName? value).isSome then .ok ()
    else .error ⟨CommandLine.mainSpec, .badPolicy value⟩

end Environment

namespace Invocation

/-- The level of what is logged. -/
def logLevel (i : Invocation) : LogLevel :=
  if 3 ≤ i.verbosity then .debug else if 1 ≤ i.verbosity then .info else .warning

/-- The context of an invocation: its own options, then the environment, then defaults. An empty
setting counts as none. -/
def context (i : Invocation) (e : Environment) (directory : Path) : Context :=
  let base : Context :=
    { logLevel := i.logLevel, richLog := i.richLog, hoist := i.hoist, directory }
  let policy := Environment.nonempty i.policy <|> Environment.nonempty e.policy
  let entryMethod := Environment.nonempty i.entryMethod <|> Environment.nonempty e.entryMethod
  { base with
    policy := (policy.bind Policy.ofName?).getD base.policy
    entryMethod := entryMethod.getD base.entryMethod
    scaffoldNamespace :=
      (Environment.nonempty i.scaffoldNamespace).getD base.scaffoldNamespace }

end Invocation

end SourceBundle
