import Bindery.Command
import Bindery.Storage.Disk

/-!
# `Main` — the program

Answers the requests of a run with the files of the system, and writes its lines to the standard streams.
-/

namespace Bindery

/-- How the system describes an obstacle. -/
def Refusal.describe (details : String) (code : UInt32) : String :=
  details ++ " (os error " ++ toString code ++ ")"

/-- An obstacle that the system reports. -/
def Refusal.ofError (isThere : Bool) : IO.Error → Refusal
  | .noFileOrDirectory .. => Disk.absent
  | .alreadyExists .. => Disk.inTheWay
  | .inappropriateType _ code _ => if code = 21 then Disk.onlyDirectory else Disk.noDirectory
  | .permissionDenied _ code details => ⟨.permissionDenied, describe details code, isThere⟩
  | .interrupted _ code details => ⟨.interrupted, describe details code, isThere⟩
  | error => ⟨.other, toString error, isThere⟩

/-- An obstacle that the system reports at a path. -/
def Refusal.atPath (path : String) (error : IO.Error) : IO Refusal := do
  return .ofError (← ((← IO.currentDir) / path).pathExists) error

/-- Read a text from a file of the system. -/
def readSystem (path : String) : IO (Except Refusal String) := do
  try
    match String.fromUTF8? (← IO.FS.readBinFile path) with
    | some text => return .ok text
    | none => return .error Disk.noText
  catch error => return .error (← Refusal.atPath path error)

/-- Make one directory of the system, unless it is there. -/
def makeDirectory (path : String) : IO (Except Refusal Unit) := do
  try
    IO.FS.createDir path
    return .ok ()
  catch error =>
    if ← ((← IO.currentDir) / path).isDir then return .ok ()
    return .error (← Refusal.atPath path error)

/-- Make a directory of the system and those that lead to it, at most `steps` of them. -/
def makeDirectories (steps : Nat) (directory : DocumentPath) : IO (Except Refusal Unit) := do
  match steps, ← makeDirectory directory.text with
  | steps + 1, .error ⟨.notFound, _, _⟩ =>
    match ← makeDirectories steps directory.directory with
    | .ok () => makeDirectory directory.text
    | .error refusal => return .error refusal
  | _, result => return result

/-- Write a text to a file of the system, and make its directory if need be. -/
def writeSystem (path text : String) : IO (Except SaveRefusal Unit) := do
  let directory := (DocumentPath.resolve path "/").directory
  match ← makeDirectories directory.parts.length directory with
  | .error refusal => return .error (.directory refusal)
  | .ok () =>
    try
      IO.FS.writeFile path text
      return .ok ()
    catch error => return .error (.file (← Refusal.atPath path error))

/-- Run a computation on the files of the system. -/
def FileM.perform : FileM α → IO α
  | .done value => return value
  | .read path _ next => do (next (← readSystem path)).perform
  | .write path text next => do (next (← writeSystem path text)).perform

/-- Write a line to its stream. -/
def Command.Line.print : Command.Line → IO Unit
  | .output text => IO.println text
  | .notice text => IO.eprintln text

end Bindery

def main (arguments : List String) : IO UInt32 := do
  let directory ← IO.currentDir
  let outcome ← (Bindery.Command.run .usual directory.toString arguments).perform
  outcome.lines.forM Bindery.Command.Line.print
  return outcome.status.toUInt32
