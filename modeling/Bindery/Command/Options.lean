/-!
# `Command.Options` — what the command line asks for

Arguments are read from left to right, and the first one that cannot be right ends the reading. An option is given a
value by the next argument, behind an equals sign, or, by its letter, directly behind that letter; letters of switches
may be joined.

## Contents
- `Options`, `Stop`, `Misuse`.
- `Draft`: what has been read so far.
- `Options.ofArguments`.
-/

namespace Bindery
namespace Command

/-- What a run is to do. -/
structure Options where
  source : String
  destination : Option String
  settings : Option String
  test : Bool
  verbose : Bool
deriving DecidableEq, Repr

/-- What takes a value. -/
inductive Valued where
  | source
  | destination
  | settings
deriving DecidableEq, Repr

/-- What takes none. -/
inductive Switch where
  | test
  | verbose
  | help
  | version
deriving DecidableEq, Repr

/-- What a name on the command line stands for. -/
inductive Flag where
  | valued (option : Valued)
  | switch (switch : Switch)
deriving DecidableEq, Repr

/-- The flag with a long name. -/
def Flag.ofLong? : String → Option Flag
  | "source" => some (.valued .source)
  | "destination" => some (.valued .destination)
  | "output" => some (.valued .destination)
  | "config" => some (.valued .settings)
  | "test" => some (.switch .test)
  | "verbose" => some (.switch .verbose)
  | "help" => some (.switch .help)
  | "version" => some (.switch .version)
  | _ => none

/-- The flag with a letter. -/
def Flag.ofShort? : Char → Option Flag
  | 's' => some (.valued .source)
  | 'd' => some (.valued .destination)
  | 'c' => some (.valued .settings)
  | 't' => some (.switch .test)
  | 'v' => some (.switch .verbose)
  | 'h' => some (.switch .help)
  | 'V' => some (.switch .version)
  | _ => none

/-- The long name of an option. -/
def Valued.name : Valued → String
  | .source => "--source"
  | .destination => "--destination"
  | .settings => "--config"

/-- The long name of a switch. -/
def Switch.name : Switch → String
  | .test => "--test"
  | .verbose => "--verbose"
  | .help => "--help"
  | .version => "--version"

/-- Why arguments cannot be right. -/
inductive Misuse where
  | unexpected (argument : String)
  | repeated (name : String)
  | needsValue (name : String)
  | takesNoValue (name : String)
  | noSource
deriving DecidableEq, Repr

/-- What is wrong with the arguments, in words. -/
def Misuse.message : Misuse → String
  | .unexpected argument => "unexpected argument '" ++ argument ++ "' found"
  | .repeated name => "the argument '" ++ name ++ "' cannot be used multiple times"
  | .needsValue name => "a value is required for '" ++ name ++ "' but none was supplied"
  | .takesNoValue name => "unexpected value for '" ++ name ++ "' found; no more were expected"
  | .noSource => "the argument '--source' was not provided"

/-- Why reading the arguments leads to no run. -/
inductive Stop where
  | help
  | version
  | misuse (fault : Misuse)
deriving DecidableEq, Repr

/-- What has been read so far: the option that waits for its value, and whether `--` has ended the flags. -/
structure Draft where
  source : Option String := none
  destination : Option String := none
  settings : Option String := none
  test : Bool := false
  verbose : Bool := false
  awaiting : Option Valued := none
  ended : Bool := false
deriving DecidableEq, Repr

namespace Draft

/-- The value an option has so far. -/
def value? (draft : Draft) : Valued → Option String
  | .source => draft.source
  | .destination => draft.destination
  | .settings => draft.settings

/-- Give an option its value, which is not empty. An option has one value. -/
def give (draft : Draft) (option : Valued) (value : String) : Except Stop Draft :=
  if value.isEmpty then .error (.misuse (.needsValue option.name))
  else if (draft.value? option).isSome then .error (.misuse (.repeated option.name))
  else
    .ok <| match option with
      | .source => { draft with source := some value, awaiting := none }
      | .destination => { draft with destination := some value, awaiting := none }
      | .settings => { draft with settings := some value, awaiting := none }

/-- Turn on a switch that is still off. -/
def turnOn (draft : Draft) : Switch → Except Stop Draft
  | .test =>
    if draft.test then .error (.misuse (.repeated Switch.test.name))
    else .ok { draft with test := true }
  | .verbose =>
    if draft.verbose then .error (.misuse (.repeated Switch.verbose.name))
    else .ok { draft with verbose := true }
  | .help => .error .help
  | .version => .error .version

/-- Read the letters behind a single dash. What follows the letter of an option is its value. -/
def readLetters (draft : Draft) : List Char → Except Stop Draft
  | [] => .ok draft
  | c :: rest =>
    match Flag.ofShort? c with
    | none => .error (.misuse (.unexpected ("-" ++ c.toString)))
    | some (.switch switch) =>
      match draft.turnOn switch with
      | .error stop => .error stop
      | .ok draft => draft.readLetters rest
    | some (.valued option) =>
      match rest with
      | [] => .ok { draft with awaiting := some option }
      | '=' :: value => draft.give option (String.ofList value)
      | value => draft.give option (String.ofList value)

/-- Read what follows two dashes: a name, and perhaps a value behind an equals sign. -/
def readLong (draft : Draft) (cs : List Char) : Except Stop Draft :=
  match Flag.ofLong? (String.ofList (cs.takeWhile (· ≠ '='))), cs.dropWhile (· ≠ '=') with
  | none, _ => .error (.misuse (.unexpected ("--" ++ String.ofList cs)))
  | some (.switch switch), [] => draft.turnOn switch
  | some (.switch switch), _ => .error (.misuse (.takesNoValue switch.name))
  | some (.valued option), [] => .ok { draft with awaiting := some option }
  | some (.valued option), _ :: value => draft.give option (String.ofList value)

/-- Whether an argument can be the value of the option before it: it does not look like a flag. -/
def isValue (argument : String) : Bool :=
  match argument.toList with
  | '-' :: _ :: _ => false
  | _ => true

/-- Read one more argument. -/
def step (draft : Draft) (argument : String) : Except Stop Draft :=
  if draft.ended then .error (.misuse (.unexpected argument))
  else
    match draft.awaiting with
    | some option =>
      if isValue argument then draft.give option argument
      else .error (.misuse (.needsValue option.name))
    | none =>
      match argument.toList with
      | ['-', '-'] => .ok { draft with ended := true }
      | '-' :: '-' :: long => draft.readLong long
      | '-' :: c :: letters => draft.readLetters (c :: letters)
      | _ => .error (.misuse (.unexpected argument))

/-- The options, when all arguments have been read. There must be a source. -/
def finish (draft : Draft) : Except Stop Options :=
  match draft.awaiting, draft.source with
  | some option, _ => .error (.misuse (.needsValue option.name))
  | none, none => .error (.misuse .noSource)
  | none, some source =>
    .ok ⟨source, draft.destination, draft.settings, draft.test, draft.verbose⟩

end Draft

/-- The options that arguments stand for. -/
def Options.ofArguments (arguments : List String) : Except Stop Options := do
  (← arguments.foldlM Draft.step {}).finish

end Command
end Bindery
