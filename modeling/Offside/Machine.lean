import Offside.Command
import Offside.Device
import Offside.Evaluation

set_option autoImplicit false

namespace Offside

-- A program as it was defined last. Its body sees its parameters and no other variable.
structure Program where
  params : List String
  body : List Command

structure World where
  memory : Memory
  programs : Table Program
  output : String
  device : Device

namespace World

def start (device : Device) : World := ⟨Memory.blank, .empty, "", device⟩

end World

inductive Exit where
  | fellThrough
  | returned (value : Option Value)
  | failed (error : Error)
deriving DecidableEq, Repr

namespace Exit

def error? : Exit → Option Error
  | .fellThrough | .returned _ => none
  | .failed error => some error

end Exit

inductive Control where
  | run (code : List Command)
  | done (exit : Exit)

inductive Pending where
  | block (rest : List Command)
  | call (line : Nat) (capture : Option String) (caller : Scope) (rest : List Command)

structure Machine where
  control : Control
  scope : Scope
  pending : List Pending
  world : World

namespace Machine

def start (code : List Command) (globals : Scope) (world : World) : Machine := ⟨.run code, globals, [], world⟩

def proceed (machine : Machine) (rest : List Command) : Machine := { machine with control := .run rest }

def finish (machine : Machine) (exit : Exit) : Machine := { machine with control := .done exit }

def fail (machine : Machine) (line : Nat) (fault : Fault) : Machine :=
  machine.finish (.failed (.fault line fault))

def print (machine : Machine) (text : String) : Machine :=
  { machine with world := { machine.world with output := machine.world.output ++ text } }

def write (machine : Machine) (place : Place) (value : Value) : Machine :=
  match place with
  | .var name => { machine with scope := machine.scope.update name value }
  | .cell address =>
      { machine with world := { machine.world with memory := machine.world.memory.store address value } }

def enter (machine : Machine) (body rest : List Command) : Machine :=
  { machine with
    control := .run body
    scope := machine.scope.extend
    pending := .block rest :: machine.pending }

def define (machine : Machine) (name : String) (program : Program) : Machine :=
  { machine with world := { machine.world with programs := Table.put name program machine.world.programs } }

def bindParams (caller : Scope) (memory : Memory) : List String → List Expr → Scope → Except Fault Scope
  | param :: params, argument :: arguments, callee =>
      match argument.evaluate caller memory with
      | .ok value =>
          match callee.declare param value with
          | .ok bound => bindParams caller memory params arguments bound
          | .error fault => .error fault
      | .error fault => .error fault
  | _, _, callee => .ok callee

def call (machine : Machine) (line : Nat) (name : String) (arguments : List Expr) (capture : Option String)
    (rest : List Command) : Machine :=
  match machine.world.programs.find name with
  | none => machine.fail line (.undefinedProgram name)
  | some program =>
      if program.params.length = arguments.length then
        match bindParams machine.scope machine.world.memory program.params arguments .empty with
        | .ok callee =>
            { machine with
              control := .run program.body
              scope := callee.extend
              pending := .call line capture machine.scope rest :: machine.pending }
        | .error fault => machine.fail line fault
      else machine.fail line (.argumentCount name program.params.length arguments.length)

def assign (machine : Machine) (line : Nat) (target : Target) (value : Value) (rest : List Command) : Machine :=
  match target.locate machine.scope machine.world.memory with
  | .ok place => (machine.write place value).proceed rest
  | .error fault => machine.fail line fault

-- The character is used up even if it cannot be stored.
def read (machine : Machine) (line : Nat) (target : Target) (rest : List Command) : Machine :=
  match machine.world.device.read with
  | (answer, device) =>
      let after := { machine with world := { machine.world with device := device } }
      match answer with
      | .ok c => after.assign line target (.text (String.singleton c)) rest
      | .error cause => after.finish (.failed (.input cause))

-- Carries out the first command of the code. A loop whose condition holds stays pending behind its block.
def execute (machine : Machine) (command : Command) (rest : List Command) : Machine :=
  match command.head with
  | .log value =>
      match value.evaluate machine.scope machine.world.memory with
      | .ok result => (machine.print result.shown).proceed rest
      | .error fault => machine.fail command.line fault
  | .read target => machine.read command.line target rest
  | .assign target value =>
      match value.evaluate machine.scope machine.world.memory with
      | .ok result => machine.assign command.line target result rest
      | .error fault => machine.fail command.line fault
  | .declare name value =>
      match value.evaluate machine.scope machine.world.memory with
      | .ok result =>
          match machine.scope.declare name result with
          | .ok scope => { machine with scope := scope }.proceed rest
          | .error fault => machine.fail command.line fault
      | .error fault => machine.fail command.line fault
  | .branch condition =>
      match condition.condition machine.scope machine.world.memory with
      | .ok true => machine.enter command.body rest
      | .ok false => machine.proceed rest
      | .error fault => machine.fail command.line fault
  | .loop condition =>
      match condition.condition machine.scope machine.world.memory with
      | .ok true => machine.enter command.body (command :: rest)
      | .ok false => machine.proceed rest
      | .error fault => machine.fail command.line fault
  | .define name params => (machine.define name ⟨params, command.body⟩).proceed rest
  | .call name arguments capture => machine.call command.line name arguments capture rest
  | .give none => machine.finish (.returned none)
  | .give (some value) =>
      match value.evaluate machine.scope machine.world.memory with
      | .ok result => machine.finish (.returned (some result))
      | .error fault => machine.fail command.line fault

-- Goes on after a block or a body has ended. A block passes everything on but falling through; a call stops a return,
-- whose value it stores in the variable that captures it.
def resume (machine : Machine) (exit : Exit) : Pending → Machine
  | .block rest =>
      let outside := { machine with scope := machine.scope.leave }
      match exit with
      | .fellThrough => outside.proceed rest
      | .returned value => outside.finish (.returned value)
      | .failed error => outside.finish (.failed error)
  | .call line capture caller rest =>
      match exit, capture with
      | .failed error, _ => { machine with scope := caller }.finish (.failed error)
      | .returned (some value), some name =>
          match caller.assign name value with
          | .ok scope => { machine with scope := scope }.proceed rest
          | .error fault => { machine with scope := caller }.fail line fault
      | .fellThrough, _ | .returned _, _ => { machine with scope := caller }.proceed rest

def awaitsInput (machine : Machine) : Bool :=
  match machine.control with
  | .run (⟨_, .read _, _⟩ :: _) => true
  | _ => false

def exit? (machine : Machine) : Option Exit :=
  match machine.control, machine.pending with
  | .done exit, [] => some exit
  | _, _ => none

def step (machine : Machine) : Machine :=
  match machine.control with
  | .run [] => machine.finish .fellThrough
  | .run (command :: rest) => machine.execute command rest
  | .done exit =>
      match machine.pending with
      | [] => machine
      | next :: more => { machine with pending := more }.resume exit next

def run : Nat → Machine → Machine
  | 0, machine => machine
  | steps + 1, machine => if machine.exit?.isSome then machine else run steps machine.step

theorem run_halted (steps : Nat) (machine : Machine) (halted : machine.exit?.isSome) :
    run steps machine = machine := by
  cases steps with
  | zero => rfl
  | succ steps => rw [run, if_pos halted]

theorem run_add (first more : Nat) (machine : Machine) :
    run (first + more) machine = run more (run first machine) := by
  induction first generalizing machine with
  | zero => rw [Nat.zero_add, run]
  | succ first ih =>
      rw [Nat.succ_add, run, run]
      split
      · next halted => exact (run_halted more machine halted).symm
      · exact ih machine.step

end Machine

end Offside
