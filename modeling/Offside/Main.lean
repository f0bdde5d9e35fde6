import Offside.CommandLine
import Offside.Editor.Entry
import Offside.Editor.Prompt

set_option autoImplicit false

namespace Offside.Main

-- Some operations negate the number of the failure that they report.
def fileError : IO.Error → Option FileError
  | .noFileOrDirectory _ _ _ => some .missing
  | .inappropriateType _ code _ => some (if code = 21 ∨ code = -21 then .isDirectory else .notDirectory)
  | .invalidArgument _ code _ => if code = 36 ∨ code = -36 then some .nameTooLong else none
  | _ => none

def readFile (path : String) : IO (Except FileError String) := do
  match ← (IO.FS.readBinFile path).toBaseIO with
  | .ok bytes => return (match String.fromUTF8? bytes with | some text => .ok text | none => .error .notUtf8)
  | .error failure =>
      match fileError failure with
      | some cause => return .error cause
      | none => throw failure

partial def readBytes (input : IO.FS.Stream) (wanted : Nat) : IO (List UInt8) := do
  if wanted = 0 then return []
  let bytes := (← input.read (USize.ofNat wanted)).toList
  if bytes.isEmpty then return []
  return bytes ++ (← readBytes input (wanted - bytes.length))

def readCharacter (input : IO.FS.Stream) : IO (List UInt8) := do
  match ← readBytes input 1 with
  | [] => return []
  | lead :: _ => return lead :: (← readBytes input (Device.width lead - 1))

partial def drive (input output : IO.FS.Stream) (machine : Machine) : IO Machine := do
  if machine.exit?.isSome then return machine
  if machine.awaitsInput then
    output.flush
    let bytes ← readCharacter input
    emit ({ machine with world := { machine.world with device := .bytes bytes } } : Machine).step
  else emit machine.step
where
  emit (machine : Machine) : IO Machine := do
    if machine.world.output.isEmpty then drive input output machine
    else
      output.putStr machine.world.output
      drive input output { machine with world := { machine.world with output := "" } }

def runCommands (commands : List Command) (session : Session) : IO (Option Error × Session) := do
  let output ← IO.getStdout
  let machine ← drive (← IO.getStdin) output (.start commands session.globals session.world)
  output.flush
  return (machine.exit?.bind Exit.error?, ⟨machine.scope, machine.world⟩)

def complain (error : Error) : IO UInt32 := do
  IO.eprintln error.message
  return 1

def runFiles (files : List (Except FileError String)) : IO UInt32 := do
  match Task.commands files with
  | .error error => complain error
  | .ok commands =>
      match ← runCommands commands (.start (.bytes [])) with
      | (none, _) => return 0
      | (some error, _) => complain error

def checkFiles (files : List (Except FileError String)) : IO UInt32 := do
  match Task.commands files with
  | .error error => complain error
  | .ok commands =>
      IO.println (Outline.ofProgram commands)
      return 0

partial def readEntry (input output : IO.FS.Stream) (number : Nat) (typed : String) : IO (Option String) := do
  let row ← input.getLine
  if row.isEmpty then return none
  let entry := typed ++ (if row.endsWith "\n" then (row.dropEnd 1).copy else row)
  if Entry.isComplete entry then return some entry
  output.putStr (Prompt.multiline number)
  output.flush
  readEntry input output number (entry ++ "\n")

partial def repl (number : Nat) (session : Session) : IO UInt32 := do
  let output ← IO.getStdout
  output.putStr (Prompt.left number ++ Prompt.indicator)
  output.flush
  match ← readEntry (← IO.getStdin) output number "" with
  | none => return 0
  | some entry =>
      let (failure, after) ←
        match Command.ofSource entry with
        | .ok commands => runCommands commands session
        | .error error => pure (some error, session)
      if let some error := failure then IO.eprintln error.message
      output.putStr "\n"
      repl (number + 1) after

def explain (usage : Usage) : IO UInt32 := do
  let text := "Usage: offside <COMMAND>\n\nCommands:\n  run <FILES>...\n  check <FILES>...\n  repl"
  if usage.exitCode = 0 then IO.println text else IO.eprintln text
  return UInt32.ofNat usage.exitCode

end Offside.Main

def main (arguments : List String) : IO UInt32 := do
  match Offside.CommandLine.parse arguments with
  | .error usage => Offside.Main.explain usage
  | .ok .repl => Offside.Main.repl 1 (.start (.bytes []))
  | .ok (.files task paths) =>
      let files ← paths.mapM Offside.Main.readFile
      match task with
      | .run => Offside.Main.runFiles files
      | .check => Offside.Main.checkFiles files
