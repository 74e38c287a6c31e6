import CacheDelay.Decimal.Reader
import CacheDelay.Files.Path

/-!
# Command-line arguments

A small grammar of options, flags and positional arguments, and its parser. Options are written
`--long value`, `--long=value`, `-s value`, `-svalue` or `-s=value`; short flags can be combined,
and `--` ends the options. The value of an option may stand in an environment variable instead.

An argument is checked when the next one is taken, or at the end: an unknown argument is thus
reported before a bad value right in front of it, a bad value before anything that follows later.
-/

namespace CacheDelay.Cli

open CacheDelay.Decimal CacheDelay.Files CacheDelay.Text

/-- Why a command line is not accepted, or that it asks for help. -/
inductive Usage where
  | argumentConflict
  | valueValidation
  | invalidValue
  | tooManyValues
  | unknownArgument
  | missingRequiredArgument
  | missingSubcommand
  | invalidSubcommand
  | displayHelp
  | displayHelpOnMissing
  deriving DecidableEq

/-- What a rejected command line is told. -/
def Usage.message : Usage → String
  | .argumentConflict => "arguments exclude each other or are repeated"
  | .valueValidation => "an argument has a bad value"
  | .invalidValue => "an argument lacks its value or has none of the possible ones"
  | .tooManyValues => "an argument takes no value"
  | .unknownArgument => "unexpected argument"
  | .missingRequiredArgument => "a required argument is missing"
  | .missingSubcommand => "a command is required"
  | .invalidSubcommand => "unknown command"
  | .displayHelp | .displayHelpOnMissing =>
    "commands: probe <output>, analyze <traces>..., dump <trace>"

/-- Whether a command line was accepted as a request for help. -/
def Usage.isHelp (usage : Usage) : Bool := usage == .displayHelp

/-- The sorts of values. -/
inductive ValueSort where
  | path
  | choice (names : List String)
  | integer (least greatest : Int)
  | natural
  | float

/-- A value of an option or positional argument. -/
inductive Value where
  | path (p : Path)
  | choice (name : String)
  | integer (n : Int)
  | natural (n : Nat)
  | float (x : Binary64)

/-- The greatest signed 64-bit number, up to which bounded integers are read before their bounds are
checked. -/
def maxSigned64 : Nat := 0x7FFFFFFFFFFFFFFF

/-- Reads a value of the given sort. -/
def ValueSort.read (sort : ValueSort) (text : String) : Except Usage Value :=
  match sort with
  | .path => if text.isEmpty then .error .invalidValue else .ok (.path ⟨text⟩)
  | .choice names => if names.contains text then .ok (.choice text) else .error .invalidValue
  | .integer least greatest =>
    match readSigned maxSigned64 text.toList with
    | .ok n => if least ≤ n ∧ n ≤ greatest then .ok (.integer n) else .error .valueValidation
    | .error _ => .error .valueValidation
  | .natural =>
    match readNumeral maxWord64 text.toList with
    | .ok n => .ok (.natural n)
    | .error _ => .error .valueValidation
  | .float =>
    match readFloat? text.toList with
    | some x => .ok (.float x)
    | none => .error .valueValidation

/-- What an option does. -/
inductive OptionAction where
  | setFlag
  | showHelp
  | setValue (sort : ValueSort)

/-- An option or flag. -/
structure OptionSpec where
  /-- Its long name, without dashes. -/
  long : String
  short? : Option Char
  action : OptionAction
  /-- The environment variable that gives its value when the command line does not. -/
  fallbackVariable : Option String

/-- The positional argument of a command. -/
structure Positional where
  name : String
  many : Bool

/-- What a command accepts. -/
structure Grammar where
  options : List OptionSpec
  positional? : Option Positional
  /-- Pairs of options that exclude each other. -/
  conflicts : List (String × String)

/-- The values found for each argument, in the order of their arguments; flags have none. -/
abbrev Matches := List (String × List Value)

namespace Matches

/-- Whether an argument was given. -/
def has (m : Matches) (name : String) : Bool := m.any (·.1 == name)

/-- The values of an argument. -/
def values (m : Matches) (name : String) : List Value :=
  (m.filter (·.1 == name)).flatMap (·.2)

/-- The paths given for an argument. -/
def paths (m : Matches) (name : String) : List Path :=
  (m.values name).filterMap fun
    | .path p => some p
    | _ => none

/-- The path given for an option. -/
def path? (m : Matches) (name : String) : Option Path := (m.paths name).head?

/-- The natural number given for an option. -/
def natural? (m : Matches) (name : String) : Option Nat :=
  (m.values name).findSome? fun
    | .natural n => some n
    | _ => none

/-- The integer given for an option. -/
def integer? (m : Matches) (name : String) : Option Int :=
  (m.values name).findSome? fun
    | .integer n => some n
    | _ => none

/-- The number given for an option. -/
def float? (m : Matches) (name : String) : Option Binary64 :=
  (m.values name).findSome? fun
    | .float x => some x
    | _ => none

/-- The choice given for an option. -/
def choice? (m : Matches) (name : String) : Option String :=
  (m.values name).findSome? fun
    | .choice c => some c
    | _ => none

end Matches

/-! ## Parsing -/

/-- An argument whose texts are not read yet. -/
inductive Pending where
  | option (spec : OptionSpec) (sort : ValueSort) (texts : List String)
  | positional (spec : Positional) (texts : List String)

/-- What is known after some arguments. -/
structure State where
  found : Matches
  pending? : Option Pending
  /-- Whether the next argument is the value of the pending option. -/
  awaiting : Bool
  /-- Whether `--` was seen. -/
  ended : Bool
  /-- Whether the positional argument is taken and allows no more. -/
  full : Bool

/-- The state before the first argument. -/
def State.start : State := ⟨[], none, false, false, false⟩

namespace State

/-- The state with an option found. -/
def setOnce (s : State) (name : String) (values : Unit → Except Usage (List Value)) :
    Except Usage State := do
  if s.found.has name then throw .argumentConflict
  pure { s with found := s.found ++ [(name, ← values ())] }

/-- Reads the texts of the pending argument. -/
def resolve (s : State) : Except Usage State :=
  let done := { s with pending? := none, awaiting := false }
  match s.pending? with
  | none => .ok done
  | some (.option spec sort texts) =>
    if texts.isEmpty then .error .invalidValue
    else done.setOnce spec.long fun _ => texts.mapM sort.read
  | some (.positional spec texts) => do
    let values ← texts.mapM ValueSort.path.read
    pure { done with found := done.found ++ [(spec.name, values)] }

/-- Takes an option with the text attached to it, if any. -/
def takeOption (s : State) (spec : OptionSpec) (attached? : Option String) : Except Usage State :=
  match spec.action, attached? with
  | .setFlag, none => do (← s.resolve).setOnce spec.long fun _ => pure []
  | .showHelp, none => do
    let _ ← s.resolve
    throw .displayHelp
  | .setFlag, some _ | .showHelp, some _ => throw .tooManyValues
  | .setValue sort, some text => do
    (← s.resolve).setOnce spec.long fun _ => do pure [← sort.read text]
  | .setValue sort, none => do
    pure { (← s.resolve) with pending? := some (.option spec sort []), awaiting := true }

/-- Takes an argument that begins with two dashes, given without them. -/
def takeLong (s : State) (g : Grammar) (text : List Char) : Except Usage State :=
  let name := String.ofList (text.takeWhile (· != '='))
  let attached? := match text.dropWhile (· != '=') with
    | [] => none
    | _ :: value => some (String.ofList value)
  match g.options.find? (·.long == name) with
  | some spec => s.takeOption spec attached?
  | none => .error .unknownArgument

/-- Takes an argument that begins with one dash, given without it: flags, and perhaps an option with
or without its value. -/
def takeShort (s : State) (g : Grammar) : List Char → Except Usage State
  | [] => .ok s
  | c :: rest =>
    match g.options.find? (·.short? == some c) with
    | none => .error .unknownArgument
    | some spec =>
      match spec.action with
      | .setFlag | .showHelp => do (← s.takeOption spec none).takeShort g rest
      | .setValue _ =>
        s.takeOption spec <| match rest with
          | [] => none
          | '=' :: value => some (String.ofList value)
          | value => some (String.ofList value)

/-- Takes a positional argument. -/
def takePositional (s : State) (g : Grammar) (text : String) : Except Usage State :=
  match g.positional? with
  | none => .error .unknownArgument
  | some spec =>
    if s.full then .error .unknownArgument
    else
      match s.pending?, spec.many with
      | some (.positional spec texts), true =>
        .ok { s with pending? := some (.positional spec (texts ++ [text])) }
      | _, many => do
        pure { (← s.resolve) with pending? := some (.positional spec [text]), full := !many }

/-- Takes one argument. -/
def take (s : State) (g : Grammar) (text : String) : Except Usage State :=
  if s.ended then s.takePositional g text
  else
    match text.toList with
    | ['-', '-'] => .ok { s with ended := true }
    | '-' :: '-' :: long => s.takeLong g long
    | '-' :: c :: rest => s.takeShort g (c :: rest)
    | _ =>
      match s.awaiting, s.pending? with
      | true, some (.option spec sort texts) =>
        .ok { s with pending? := some (.option spec sort (texts ++ [text])), awaiting := false }
      | _, _ => s.takePositional g text

/-- Takes the value of an option from its environment variable, unless the option was given. -/
def takeVariable (environment : String → Option String) (s : State) (spec : OptionSpec) :
    Except Usage State :=
  match spec.action, spec.fallbackVariable.bind environment with
  | .setValue sort, some text =>
    if s.found.has spec.long then .ok s else s.setOnce spec.long fun _ => do pure [← sort.read text]
  | _, _ => .ok s

end State

/-- Whether no two of the options found exclude each other. -/
def Grammar.compatible (g : Grammar) (found : Matches) : Bool :=
  g.conflicts.all fun pair => !(found.has pair.1 && found.has pair.2)

/-- The values that a command line gives to the arguments of a command. -/
def Grammar.parse (g : Grammar) (environment : String → Option String) (arguments : List String) :
    Except Usage Matches := do
  let s ← (← arguments.foldlM (fun s text => s.take g text) State.start).resolve
  let s ← g.options.foldlM (State.takeVariable environment) s
  if !g.compatible s.found then throw .argumentConflict
  match g.positional? with
  | some spec => if !s.found.has spec.name then throw .missingRequiredArgument
  | none => pure ()
  pure s.found

end CacheDelay.Cli
