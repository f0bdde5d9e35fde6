import Offside.Command.Outline
import Offside.Session
import Offside.Source.Join

set_option autoImplicit false

namespace Offside

inductive Task where
  | run
  | check
deriving DecidableEq, Repr

inductive Request where
  | files (task : Task) (paths : List String)
  | repl
deriving DecidableEq, Repr

inductive Usage where
  | help
  | version
  | missingSubcommand
  | invalidSubcommand
  | unknownArgument
  | tooManyValues
  | invalidValue
  | missingArgument
deriving DecidableEq, Repr

namespace Usage

def exitCode : Usage → Nat
  | .help | .version => 0
  | _ => 2

end Usage

namespace CommandLine

inductive Argument where
  | separator
  | long (name : List Char) (valued : Bool)
  | short (flag : Char)
  | word
deriving DecidableEq, Repr

def classify (argument : String) : Argument :=
  match argument.toList with
  | ['-', '-'] => .separator
  | '-' :: '-' :: rest => .long (rest.takeWhile (· ≠ '=')) (rest.contains '=')
  | '-' :: flag :: _ => .short flag
  | _ => .word

def isHelp : Argument → Bool
  | .long name _ => name = "help".toList
  | .short flag => flag = 'h'
  | _ => false

def isVersion : Argument → Bool
  | .long name _ => name = "version".toList
  | .short flag => flag = 'V'
  | _ => false

def isValued : Argument → Bool
  | .long _ valued => valued
  | _ => false

def isWord : Argument → Bool
  | .word => true
  | _ => false

def ask (argument : Argument) (answer : Usage) : Usage := if isValued argument then .tooManyValues else answer

def named : List String := ["run", "check", "repl", "help"]

def pathsOf (task : Task) (paths : List String) : Except Usage Request :=
  if paths = [] then .error .missingArgument
  else if paths.contains "" then .error .invalidValue
  else .ok (.files task paths)

def parsePaths (task : Task) (paths : List String) : List String → Except Usage Request
  | [] => pathsOf task paths
  | argument :: rest =>
      let kind := classify argument
      if kind = .separator then pathsOf task (paths ++ rest)
      else if isWord kind then parsePaths task (paths ++ [argument]) rest
      else if isHelp kind then
        .error (if paths.contains "" ∧ ¬isValued kind then .invalidValue else ask kind .help)
      else .error .unknownArgument

def parseRepl : List String → Except Usage Request
  | [] => .ok .repl
  | argument :: rest =>
      let kind := classify argument
      if kind = .separator then (if rest = [] then .ok .repl else .error .unknownArgument)
      else if isHelp kind then .error (ask kind .help)
      else .error .unknownArgument

def parseHelp : List String → Usage
  | [] => .help
  | [name] => if named.contains name then .help else .invalidSubcommand
  | _ :: _ :: _ => .invalidSubcommand

-- A separator stands in the way of every subcommand.
def parseSeparated : List String → Usage
  | [] => .missingSubcommand
  | argument :: _ => if named.contains argument then .unknownArgument else .invalidSubcommand

def parse : List String → Except Usage Request
  | [] => .error .missingSubcommand
  | argument :: rest =>
      let kind := classify argument
      if kind = .separator then .error (parseSeparated rest)
      else if isHelp kind then .error (ask kind .help)
      else if isVersion kind then .error (ask kind .version)
      else if !isWord kind then .error .unknownArgument
      else if argument = "run" then parsePaths .run [] rest
      else if argument = "check" then parsePaths .check [] rest
      else if argument = "repl" then parseRepl rest
      else if argument = "help" then .error (parseHelp rest)
      else .error .invalidSubcommand

end CommandLine

structure Report where
  exitCode : Nat
  output : String
  complaint : String
deriving DecidableEq, Repr

namespace Report

def ofOutcome (output : String) : Option Error → Report
  | none => ⟨0, output, ""⟩
  | some error => ⟨1, output, error.message ++ "\n"⟩

end Report

namespace Task

def commands (files : List (Except FileError String)) : Except Error (List Command) :=
  (Source.join files).bind Command.ofSource

def report (steps : Nat) (input : List UInt8) (files : List (Except FileError String)) (task : Task) :
    Option Report :=
  match commands files, task with
  | .error error, _ => some (.ofOutcome "" (some error))
  | .ok parsed, .check => some (.ofOutcome (Outline.ofProgram parsed ++ "\n") none)
  | .ok parsed, .run =>
      ((Session.start (.bytes input)).run steps parsed).map fun (exit, session) =>
        .ofOutcome session.world.output exit.error?

end Task

end Offside
