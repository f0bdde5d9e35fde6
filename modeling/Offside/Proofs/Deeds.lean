import Offside.Session

set_option autoImplicit false

namespace Offside

-- What a command comes to once its operands are evaluated, and before anything is changed but the input.
inductive Deed where
  | print (text : String)
  | write (place : Place) (value : Value)
  | declare (name : String) (value : Value)
  | skip
  | enter (again : Bool)
  | define (name : String) (params : List String)
  | call (program : Program) (callee : Scope) (capture : Option String)
  | give (value : Option Value)
  | fail (fault : Fault)
  | starve (cause : InputError)

namespace Deed

def ofResult {Result : Type} (deed : Result → Deed) : Except Fault Result → Deed
  | .ok result => deed result
  | .error fault => .fail fault

def ofCall (scope : Scope) (memory : Memory) (name : String) (arguments : List Expr) (capture : Option String) :
    Option Program → Deed
  | none => .fail (.undefinedProgram name)
  | some program =>
      if program.params.length = arguments.length then
        ofResult (fun callee => .call program callee capture)
          (Machine.bindParams scope memory program.params arguments .empty)
      else .fail (.argumentCount name program.params.length arguments.length)

def ofDeclaration (scope : Scope) (name : String) (value : Value) : Deed :=
  if (scope.find name).isSome then .fail (.alreadyDeclared name) else .declare name value

def ofRead (scope : Scope) (memory : Memory) (target : Target) : Except InputError Char → Deed
  | .ok c => ofResult (fun place => .write place (.text (String.singleton c))) (target.locate scope memory)
  | .error cause => .starve cause

def ofCondition (again : Bool) : Bool → Deed
  | true => .enter again
  | false => .skip

def ofHead (scope : Scope) (world : World) : Head → Deed
  | .log value => ofResult (fun result => .print result.shown) (value.evaluate scope world.memory)
  | .read target => ofRead scope world.memory target world.device.read.1
  | .assign target value =>
      ofResult (fun result => ofResult (fun place => .write place result) (target.locate scope world.memory))
        (value.evaluate scope world.memory)
  | .declare name value => ofResult (ofDeclaration scope name) (value.evaluate scope world.memory)
  | .branch condition => ofResult (ofCondition false) (condition.condition scope world.memory)
  | .loop condition => ofResult (ofCondition true) (condition.condition scope world.memory)
  | .define name params => .define name params
  | .call name arguments capture => ofCall scope world.memory name arguments capture (world.programs.find name)
  | .give none => .give none
  | .give (some value) => ofResult (fun result => .give (some result)) (value.evaluate scope world.memory)

end Deed

namespace Machine

def receive (machine : Machine) (device : Device) : Machine :=
  { machine with world := { machine.world with device := device } }

def consume (machine : Machine) : Head → Machine
  | .read _ => machine.receive machine.world.device.read.2
  | _ => machine

def declare (machine : Machine) (name : String) (value : Value) : Machine :=
  { machine with scope := machine.scope.insert name value }

def invoke (machine : Machine) (line : Nat) (program : Program) (callee : Scope) (capture : Option String)
    (rest : List Command) : Machine :=
  { machine with
    control := .run program.body
    scope := callee.extend
    pending := .call line capture machine.scope rest :: machine.pending }

def perform (machine : Machine) (command : Command) (rest : List Command) : Deed → Machine
  | .print text => (machine.print text).proceed rest
  | .write place value => (machine.write place value).proceed rest
  | .declare name value => (machine.declare name value).proceed rest
  | .skip => machine.proceed rest
  | .enter again => machine.enter command.body (if again then command :: rest else rest)
  | .define name params => (machine.define name ⟨params, command.body⟩).proceed rest
  | .call program callee capture => machine.invoke command.line program callee capture rest
  | .give value => machine.finish (.returned value)
  | .fail fault => machine.fail command.line fault
  | .starve cause => machine.finish (.failed (.input cause))

-- Every command is carried out by deciding on one deed and doing it.
theorem execute_perform (machine : Machine) (command : Command) (rest : List Command) :
    machine.execute command rest =
      (machine.consume command.head).perform command rest (Deed.ofHead machine.scope machine.world command.head) := by
  obtain ⟨line, head, body⟩ := command
  cases head with
  | log value =>
      dsimp only [execute, Deed.ofHead]
      cases value.evaluate machine.scope machine.world.memory <;> rfl
  | read target =>
      dsimp only [execute, read, Deed.ofHead, consume]
      cases machine.world.device.read with
      | mk answer device =>
          cases answer with
          | error cause => rfl
          | ok c =>
              dsimp only [assign, Deed.ofRead]
              cases target.locate machine.scope machine.world.memory <;> rfl
  | assign target value =>
      dsimp only [execute, Deed.ofHead]
      cases value.evaluate machine.scope machine.world.memory with
      | error fault => rfl
      | ok result =>
          dsimp only [assign, Deed.ofResult]
          cases target.locate machine.scope machine.world.memory <;> rfl
  | declare name value =>
      dsimp only [execute, Deed.ofHead]
      cases value.evaluate machine.scope machine.world.memory with
      | error fault => rfl
      | ok result =>
          dsimp only [Scope.declare_insert, Deed.ofResult, Deed.ofDeclaration]
          cases (machine.scope.find name).isSome <;> rfl
  | branch condition =>
      dsimp only [execute, Deed.ofHead]
      cases condition.condition machine.scope machine.world.memory with
      | error fault => rfl
      | ok holds => cases holds <;> rfl
  | loop condition =>
      dsimp only [execute, Deed.ofHead]
      cases condition.condition machine.scope machine.world.memory with
      | error fault => rfl
      | ok holds => cases holds <;> rfl
  | define name params => rfl
  | call name arguments capture =>
      dsimp only [execute, call, Deed.ofHead]
      cases machine.world.programs.find name with
      | none => rfl
      | some program =>
          dsimp only [Deed.ofCall]
          split
          · cases bindParams machine.scope machine.world.memory program.params arguments .empty <;> rfl
          · rfl
  | give value =>
      cases value with
      | none => rfl
      | some value =>
          dsimp only [execute, Deed.ofHead]
          cases value.evaluate machine.scope machine.world.memory <;> rfl

theorem step_running (command : Command) (rest : List Command) (scope : Scope) (pending : List Pending) (world : World) :
    (Machine.mk (.run (command :: rest)) scope pending world).step =
      ((Machine.mk (.run (command :: rest)) scope pending world).consume command.head).perform command rest
        (Deed.ofHead scope world command.head) :=
  execute_perform ⟨.run (command :: rest), scope, pending, world⟩ command rest

end Machine

end Offside
