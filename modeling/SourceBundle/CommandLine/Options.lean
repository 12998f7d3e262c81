/-
Reading the arguments of a command: options by one of their names or an
unambiguous start of a long one, values behind an equals sign or in the
next argument, short options in a row, and words for the positions in
between. After a double dash all arguments are words. A double dash says
nothing itself: one that is all there is for an option or a position
leaves it blank.
-/
import SourceBundle.Text.Digit
import SourceBundle.Text.Quoted

namespace SourceBundle

-- ===== grammar

/-- What an option does when it is given. -/
inductive OptionKind where
  /-- It counts how often it is given. -/
  | switch
  /-- It takes a value, perhaps one of some words. -/
  | value (choices : List String)
  /-- It asks for help, and nothing else is done. -/
  | help
deriving DecidableEq, Repr

/-- An option with its names. -/
structure OptionSpec where
  names : List String
  kind : OptionKind
deriving DecidableEq, Repr

/-- The names of an option as messages show them. -/
def OptionSpec.title (o : OptionSpec) : String :=
  "/".intercalate o.names

/-- Whether an option takes a value. -/
def OptionSpec.takesValue (o : OptionSpec) : Bool :=
  match o.kind with
  | .value _ => true
  | _ => false

/-- The grammar of a command: the name it is called by, its options and its positions. -/
structure CommandSpec where
  program : String
  options : List OptionSpec
  positions : List String
  /-- Whether the word at its one position takes all arguments after it along. -/
  takesRest : Bool := false
deriving Repr

/-- Why arguments are refused, or that help was asked for. -/
inductive UsageError where
  | help
  /-- The start of an option's name fits several. -/
  | ambiguousOption (given : String) (names : List String)
  /-- An option that takes no value has one. -/
  | ignoredValue (option : String) (value : String)
  | missingValue (option : String)
  | badChoice (argument value : String) (choices : List String)
  | missingPositions (positions : List String)
  | unknownArguments (given : List String)
  | badPolicy (value : String)
deriving DecidableEq, Repr

def UsageError.message : UsageError → String
  | help => ""
  | ambiguousOption given names =>
    "ambiguous option: " ++ given ++ " could match " ++ ", ".intercalate names
  | ignoredValue option value =>
    "argument " ++ option ++ ": ignored explicit argument " ++ Text.quoted value
  | missingValue option => "argument " ++ option ++ ": expected one argument"
  | badChoice argument value choices =>
    "argument " ++ argument ++ ": invalid choice: " ++ Text.quoted value ++ " (choose from "
      ++ ", ".intercalate (choices.map Text.quoted) ++ ")"
  | missingPositions positions =>
    "the following arguments are required: " ++ ", ".intercalate positions
  | unknownArguments given => "unrecognized arguments: " ++ " ".intercalate given
  | badPolicy value =>
    "invalid $CSBUNDLE_POLICY value '" ++ value ++ "' (expected 'wide' or 'narrow')"

-- ===== shapes

/-- An option as it is given: which one, by which name, and the value written with it. -/
structure OptionUse where
  spec : OptionSpec
  name : String
  value : Option String
deriving Repr

/-- What an argument looks like. -/
inductive ArgShape where
  | word
  /-- The double dash. -/
  | dashes
  | option (use : OptionUse)
  | unknownOption
deriving Repr

namespace CommandSpec

def optionNames (c : CommandSpec) : List (String × OptionSpec) :=
  c.options.flatMap fun o => o.names.map (·, o)

def optionNamed (c : CommandSpec) (name : String) : Option OptionSpec :=
  c.optionNames.lookup name

/-- A text cut at its first equals sign. -/
def splitValue (arg : String) : String × Option String :=
  let cs := arg.toList
  (String.ofList (cs.takeWhile (· ≠ '=')),
    if cs.contains '=' then some (String.ofList ((cs.dropWhile (· ≠ '=')).drop 1)) else none)

/-- The options that an argument may mean: those whose long name it starts, or the short one that
it opens with, the rest being its value. -/
def meanings (c : CommandSpec) (arg : String) : List OptionUse :=
  match arg.toList with
  | '-' :: '-' :: _ =>
    let (start, value) := splitValue arg
    (c.optionNames.filter fun (name, _) => start.isPrefixOf name).map
      fun (name, o) => ⟨o, name, value⟩
  | '-' :: letter :: rest =>
    let short := String.ofList ['-', letter]
    c.optionNames.filterMap fun (name, o) =>
      if name = short then some ⟨o, name, some (String.ofList rest)⟩
      else if arg.isPrefixOf name then some ⟨o, name, none⟩
      else none
  | _ => []

/-- Whether characters are decimal digits only, of which there may be none. -/
def allDecimal (cs : List Char) : Bool :=
  cs.all fun c => (Text.decimalValue? c).isSome

/-- Whether an argument is a negative number. A line feed at its end does not count. -/
def isNegativeNumber (arg : String) : Bool :=
  match arg.toList with
  | '-' :: cs =>
    let cs := if cs.getLast? = some '\n' then cs.dropLast else cs
    let whole := cs.takeWhile (· ≠ '.')
    match cs.dropWhile (· ≠ '.') with
    | [] => !whole.isEmpty && allDecimal whole
    | _ :: fraction => allDecimal whole && !fraction.isEmpty && allDecimal fraction
  | _ => false

/-- What an argument before any double dash looks like. One that opens with a dash is a word only
if it is no option, and is a dash alone, a negative number or has a blank in it. -/
def shapeOf (c : CommandSpec) (arg : String) : Except UsageError ArgShape :=
  match arg.toList with
  | '-' :: rest =>
    match c.optionNamed arg with
    | some o => .ok (.option ⟨o, arg, none⟩)
    | none =>
      if rest.isEmpty then .ok .word
      else
        let (name, value) := splitValue arg
        match value, c.optionNamed name with
        | some v, some o => .ok (.option ⟨o, name, some v⟩)
        | _, _ =>
          match c.meanings arg with
          | [use] => .ok (.option use)
          | [] =>
            .ok (if isNegativeNumber arg || rest.contains ' ' then .word else .unknownOption)
          | uses => .error (.ambiguousOption arg (uses.map (·.name)))
  | _ => .ok .word

def shapes (c : CommandSpec) : List String → Except UsageError (List (String × ArgShape))
  | [] => .ok []
  | arg :: args =>
    if arg = "--" then .ok ((arg, .dashes) :: args.map (·, .word))
    else do
      let shape ← c.shapeOf arg
      return (arg, shape) :: (← c.shapes args)

end CommandSpec

-- ===== reading

/-- What the arguments of a command say. -/
structure Given where
  /-- The options in order; one without a value, or with a blank one, has none. -/
  options : List (OptionSpec × Option String) := []
  /-- The words at the positions, in order; there is none at a blank one. -/
  words : List (Option String) := []
  /-- The arguments that the word at the last position takes along. -/
  rest : List String := []
  /-- The positions without a word. -/
  missing : List String := []
  /-- What could not be understood. -/
  extras : List String := []

/-- What an argument says where it stands alone: a double dash says nothing. -/
def saidBy (arg : String) : Option String :=
  if arg = "--" then none else some arg

namespace Given

/-- How often an option was given, by one of its names. -/
def count (g : Given) (name : String) : Nat :=
  (g.options.filter (·.1.names.contains name)).length

/-- The word at a position. -/
def word? (g : Given) (position : Nat) : Option String :=
  g.words.getD position none

/-- The last value of an option, by one of its names. A blank one is none. -/
def value? (g : Given) (name : String) : Option String :=
  ((g.options.filter (·.1.names.contains name)).getLast?).bind (·.2)

/-- Takes an option with its value. -/
def takeOption (g : Given) (o : OptionSpec) (value : Option String) : Except UsageError Given :=
  match o.kind, value.bind saidBy with
  | .help, _ => .error .help
  | .value choices, some v =>
    if choices.isEmpty || choices.contains v then
      .ok { g with options := g.options ++ [(o, some v)] }
    else .error (.badChoice o.title v choices)
  | _, v => .ok { g with options := g.options ++ [(o, v)] }

def takeOptions (g : Given) : List (OptionSpec × Option String) → Except UsageError Given
  | [] => .ok g
  | (o, value) :: more => do (← g.takeOption o value).takeOptions more

end Given

/-- The switches that letters in a row give after the one of an option, and whether the last
option still asks for a value. What follows an option with a value is its value. -/
def CommandSpec.unfoldLetters (c : CommandSpec) (o : OptionSpec) :
    List Char → Except UsageError (List (OptionSpec × Option String) × Bool)
  | [] => .ok ([(o, none)], o.takesValue)
  | letter :: rest =>
    if o.takesValue then .ok ([(o, some (String.ofList (letter :: rest)))], false)
    else
      match c.optionNamed (String.ofList ['-', letter]) with
      | none => .error (.ignoredValue o.title (String.ofList (letter :: rest)))
      | some next => do
        let (more, waiting) ← c.unfoldLetters next rest
        return ((o, none) :: more, waiting)

/-- The options that one argument gives, and whether the last of them still asks for a value. -/
def CommandSpec.unfoldUse (c : CommandSpec) (use : OptionUse) :
    Except UsageError (List (OptionSpec × Option String) × Bool) :=
  match use.value with
  | none => .ok ([(use.spec, none)], use.spec.takesValue)
  | some value =>
    if use.spec.takesValue then .ok ([(use.spec, some value)], false)
    else if value.isEmpty || "--".isPrefixOf use.name then
      .error (.ignoredValue use.spec.title value)
    else c.unfoldLetters use.spec value.toList

/-- Options of which the last one has a value. -/
def withLastValue (value : String) (options : List (OptionSpec × Option String)) :
    List (OptionSpec × Option String) :=
  options.dropLast ++ (options.getLast?.map fun (o, _) => (o, some value)).toList

def lastTitle (options : List (OptionSpec × Option String)) : String :=
  (options.getLast?.map (·.1.title)).getD ""

namespace CommandSpec

/-- Reads arguments for the positions that are left. `bound` says that the argument before was a
word at a position: a double dash beside such a word is dropped. With the double dash before it
dropped, a word stands for itself. -/
def readArgs (c : CommandSpec) (g : Given) (positions : List String) (bound : Bool) :
    List (String × ArgShape) → Except UsageError Given
  | [] => .ok { g with missing := positions }
  | (arg, .unknownOption) :: more =>
    c.readArgs { g with extras := g.extras ++ [arg] } positions false more
  | (arg, .word) :: more =>
    if positions.isEmpty then c.readArgs { g with extras := g.extras ++ [arg] } [] false more
    else if c.takesRest then
      .ok { g with words := g.words ++ [some arg], rest := more.map (·.1) }
    else c.readArgs { g with words := g.words ++ [saidBy arg] } (positions.drop 1) true more
  | (arg, .dashes) :: more =>
    if bound then c.readArgs g positions false more
    else if positions.isEmpty then
      c.readArgs { g with extras := g.extras ++ [arg] } [] false more
    else if c.takesRest && !more.isEmpty then
      .ok { g with words := g.words ++ [some arg], rest := more.map (·.1) }
    else
      match more with
      | [] => .ok { g with extras := g.extras ++ [arg], missing := positions }
      | (word, _) :: more =>
        c.readArgs { g with words := g.words ++ [some word] } (positions.drop 1) true more
  | (_, .option use) :: more =>
    match c.unfoldUse use with
    | .error e => .error e
    | .ok (options, false) =>
      match g.takeOptions options with
      | .error e => .error e
      | .ok g => c.readArgs g positions false more
    | .ok (options, true) =>
      match more with
      | (value, .word) :: more =>
        match g.takeOptions (withLastValue value options) with
        | .error e => .error e
        | .ok g => c.readArgs g positions false more
      | _ => .error (.missingValue (lastTitle options))

/-- What arguments say. Each position has to have a word. -/
def read (c : CommandSpec) (args : List String) : Except UsageError Given := do
  let g ← c.readArgs {} c.positions false (← c.shapes args)
  if g.missing.isEmpty then return g else throw (.missingPositions g.missing)

end CommandSpec

end SourceBundle
