import Bindery.Command.Options
import Bindery.Compile
import Bindery.Failure.Report
import Bindery.Settings.File

/-!
# `Command` — a run of the program

A run reads its settings, compiles its source, and says what became of each document. A failing project still says
which of its documents came through.

## Contents
- `Line`, `Outcome`, `Libraries`.
- `Command.compileOptions`, `Command.conclude`.
- `Command.run`: from arguments to an outcome.
-/

namespace Bindery
namespace Command

/-- A line that a run writes: as its output, or as a notice beside it. -/
inductive Line where
  | output (text : String)
  | notice (text : String)
deriving DecidableEq, Repr

/-- What a run ends with: its exit status, and the lines it has written. -/
structure Outcome where
  status : Nat
  lines : List Line
deriving DecidableEq, Repr

/-- What a run writes as its output. -/
def Outcome.output (outcome : Outcome) : String :=
  String.join (outcome.lines.filterMap fun
    | .output text => some (text ++ "\n")
    | .notice _ => none)

/-- What a run writes beside its output. -/
def Outcome.notices (outcome : Outcome) : String :=
  String.join (outcome.lines.filterMap fun
    | .output _ => none
    | .notice text => some (text ++ "\n"))

/-- What a run leaves to others: to read its arguments and the text of its settings, and to write JSON. -/
structure Libraries where
  arguments : List String → Except Stop Options
  settings : String → Except String Settings
  json : Json → String

/-- What the program goes by. -/
def Libraries.usual : Libraries := ⟨Options.ofArguments, Settings.ofToml, Json.pretty⟩

variable (libraries : Libraries)

/-- Compile what the options ask for. Paths are seen from the working directory. -/
def compileOptions (directory : String) (options : Options) :
    FileM (Except Failure (List Compiled)) := do
  let settings ←
    match options.settings with
    | some path => Settings.load libraries.settings (Path.join directory path)
    | none => Settings.discover libraries.settings directory
  match settings with
  | .error failure => return .error failure
  | .ok settings =>
    compile settings (.resolve options.source directory)
      (options.destination.map (DocumentPath.resolve · directory)) options.test

/-- What is said of a document that came through. -/
def documentLine (source : String) (destination : Option String) (test : Bool) : Line :=
  match destination, test with
  | some path, false => .output (path ++ " compiled.")
  | _, _ => .output (source ++ " valid.")

/-- The warnings about a document, and what is said of it. -/
def compiledLines (test : Bool) (document : Compiled) : List Line :=
  document.warnings.map (fun warning => .notice warning.display)
    ++ [documentLine document.source.text (document.destination.map DocumentPath.text) test]

/-- The documents of a project that came through although it failed. -/
def outputLines (test : Bool) : Failure → List Line
  | .project compiled _ =>
    compiled.map fun output => documentLine output.source (some output.destination) test
  | _ => []

/-- What a compilation amounts to. -/
def conclude (test : Bool) : Except Failure (List Compiled) → Outcome
  | .ok documents => ⟨0, documents.flatMap (compiledLines test)⟩
  | .error failure => ⟨1, outputLines test failure ++ [.notice (libraries.json failure.toJson)]⟩

/-- How the program is used. -/
def usage : String := "Usage: doculisp [OPTIONS] --source <SOURCE>"

/-- What can be asked for. -/
def helpText : String :=
  "A compiler for Markdown annotated with Doculisp\n\n" ++ usage ++ "\n\n" ++
  "Options:\n" ++
  "  -s, --source <SOURCE>            Source file: `.md`, `.dlisp` or `.dlproj`\n" ++
  "  -d, --destination <DESTINATION>  Output file (not allowed for `.dlproj` sources) [aliases: --output]\n" ++
  "  -t, --test                       Validate the source without writing output\n" ++
  "  -c, --config <CONFIG>            Config file (default: ./doculisp.toml when present)\n" ++
  "  -v, --verbose                    Verbose output\n" ++
  "  -h, --help                       Print help\n" ++
  "  -V, --version                    Print version"

/-- What a run amounts to when nothing is compiled. -/
def Stop.outcome : Stop → Outcome
  | .help => ⟨0, [.output helpText]⟩
  | .version => ⟨0, [.output "doculisp 0.0.0"]⟩
  | .misuse fault => ⟨2, [.notice ("error: " ++ fault.message ++ "\n\n" ++ usage)]⟩

/-- Run the program with some arguments in a working directory. -/
def run (directory : String) (arguments : List String) : FileM Outcome :=
  match libraries.arguments arguments with
  | .error stop => return stop.outcome
  | .ok options => return conclude libraries options.test (← compileOptions libraries directory options)

end Command
end Bindery
