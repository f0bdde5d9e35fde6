import Offside.Proofs.Deeds
import Offside.Proofs.Numbering

set_option autoImplicit false

namespace Offside

def Exit.renumber (number : Nat → Nat) : Exit → Exit
  | .fellThrough => .fellThrough
  | .returned value => .returned value
  | .failed error => .failed (error.renumber number)

def Program.renumber (number : Nat → Nat) (program : Program) : Program :=
  { program with body := Command.renumberAll number program.body }

theorem Program.renumber_renumber (outer inner : Nat → Nat) (program : Program) :
    (program.renumber inner).renumber outer = program.renumber fun line => outer (inner line) := by
  simp only [Program.renumber, Command.renumber_all_renumber_all]

def World.renumber (number : Nat → Nat) (world : World) : World :=
  { world with programs := world.programs.mapEntries (Program.renumber number) }

def Control.renumber (number : Nat → Nat) : Control → Control
  | .run code => .run (Command.renumberAll number code)
  | .done exit => .done (exit.renumber number)

def Pending.renumber (number : Nat → Nat) : Pending → Pending
  | .block rest => .block (Command.renumberAll number rest)
  | .call line capture caller rest => .call (number line) capture caller (Command.renumberAll number rest)

def Session.renumber (number : Nat → Nat) (session : Session) : Session :=
  { session with world := session.world.renumber number }

def Deed.renumber (number : Nat → Nat) : Deed → Deed
  | .call program callee capture => .call (program.renumber number) callee capture
  | deed => deed

namespace Deed

theorem of_head_renumber (number : Nat → Nat) (scope : Scope) (world : World) (head : Head) :
    ofHead scope (world.renumber number) head = (ofHead scope world head).renumber number := by
  cases head with
  | log value =>
      dsimp only [ofHead, World.renumber]
      cases value.evaluate scope world.memory <;> rfl
  | read target =>
      dsimp only [ofHead, World.renumber]
      cases world.device.read.1 with
      | error cause => rfl
      | ok c =>
          dsimp only [ofRead]
          cases target.locate scope world.memory <;> rfl
  | assign target value =>
      dsimp only [ofHead, World.renumber]
      cases value.evaluate scope world.memory with
      | error fault => rfl
      | ok result =>
          dsimp only [ofResult]
          cases target.locate scope world.memory <;> rfl
  | declare name value =>
      dsimp only [ofHead, World.renumber]
      cases value.evaluate scope world.memory with
      | error fault => rfl
      | ok result =>
          dsimp only [ofResult, ofDeclaration]
          cases (scope.find name).isSome <;> rfl
  | branch condition =>
      dsimp only [ofHead, World.renumber]
      cases condition.condition scope world.memory with
      | error fault => rfl
      | ok holds => cases holds <;> rfl
  | loop condition =>
      dsimp only [ofHead, World.renumber]
      cases condition.condition scope world.memory with
      | error fault => rfl
      | ok holds => cases holds <;> rfl
  | define name params => rfl
  | call name arguments capture =>
      dsimp only [ofHead, World.renumber]
      rw [Table.find_map_entries (Program.renumber number) name world.programs]
      cases world.programs.find name with
      | none => rfl
      | some program =>
          dsimp only [Option.map_some, ofCall, Program.renumber]
          split
          · cases Machine.bindParams scope world.memory program.params arguments .empty <;> rfl
          · rfl
  | give value =>
      cases value with
      | none => rfl
      | some value =>
          dsimp only [ofHead, World.renumber]
          cases value.evaluate scope world.memory <;> rfl

end Deed

namespace Machine

def renumber (number : Nat → Nat) (machine : Machine) : Machine :=
  ⟨machine.control.renumber number, machine.scope, machine.pending.map (Pending.renumber number),
    machine.world.renumber number⟩

theorem perform_renumber (number : Nat → Nat) (machine : Machine) (command : Command) (rest : List Command)
    (deed : Deed) :
    (machine.renumber number).perform (command.renumber number) (Command.renumberAll number rest)
        (deed.renumber number) = (machine.perform command rest deed).renumber number := by
  obtain ⟨line, head, body⟩ := command
  cases deed with
  | write place value => cases place <;> rfl
  | enter again => cases again <;> rfl
  | define name params =>
      have put := Table.put_map_entries (Program.renumber number) name ⟨params, body⟩ machine.world.programs
      exact congrArg (fun programs =>
        (Machine.mk (.run (Command.renumberAll number rest)) machine.scope (machine.pending.map (Pending.renumber number))
          { machine.world with programs := programs })) put
  | _ => rfl

theorem execute_renumber (number : Nat → Nat) (machine : Machine) (command : Command) (rest : List Command) :
    (machine.renumber number).execute (command.renumber number) (Command.renumberAll number rest) =
      (machine.execute command rest).renumber number := by
  obtain ⟨line, head, body⟩ := command
  have consumed : (machine.renumber number).consume head = (machine.consume head).renumber number := by
    cases head <;> rfl
  have decided := Deed.of_head_renumber number machine.scope machine.world head
  rw [execute_perform, execute_perform, ← perform_renumber, ← decided, ← consumed]
  rfl

theorem resume_renumber (number : Nat → Nat) (machine : Machine) (exit : Exit) (next : Pending) :
    (machine.renumber number).resume (exit.renumber number) (next.renumber number) =
      (machine.resume exit next).renumber number := by
  cases next with
  | block rest => cases exit <;> rfl
  | call line capture caller rest =>
      cases exit with
      | fellThrough => rfl
      | failed error => rfl
      | returned value =>
          cases value with
          | none => rfl
          | some value =>
              cases capture with
              | none => rfl
              | some name =>
                  simp only [resume, Exit.renumber, Pending.renumber]
                  cases caller.assign name value <;> rfl

theorem step_renumber (number : Nat → Nat) (machine : Machine) :
    (machine.renumber number).step = machine.step.renumber number := by
  obtain ⟨control, scope, pending, world⟩ := machine
  cases control with
  | run code =>
      cases code with
      | nil => rfl
      | cons command rest => exact execute_renumber number ⟨.run (command :: rest), scope, pending, world⟩ command rest
  | done exit =>
      cases pending with
      | nil => rfl
      | cons next more => exact resume_renumber number ⟨.done exit, scope, more, world⟩ exit next

theorem exit_renumber (number : Nat → Nat) (machine : Machine) :
    (machine.renumber number).exit? = machine.exit?.map (Exit.renumber number) := by
  obtain ⟨control, scope, pending, world⟩ := machine
  cases control with
  | run code => rfl
  | done exit => cases pending <;> rfl

theorem run_renumber (number : Nat → Nat) (steps : Nat) (machine : Machine) :
    (machine.renumber number).run steps = (machine.run steps).renumber number := by
  induction steps generalizing machine with
  | zero => rfl
  | succ steps ih =>
      rw [run, run, exit_renumber, Option.isSome_map]
      split
      · rfl
      · rw [step_renumber, ih]

end Machine

-- Numbers of lines are passed on to errors and definitions and matter nowhere else.
theorem Session.run_renumber (number : Nat → Nat) (steps : Nat) (commands : List Command) (session : Session) :
    (session.renumber number).run steps (Command.renumberAll number commands) =
      (session.run steps commands).map fun (exit, after) => (exit.renumber number, after.renumber number) := by
  have same : Machine.start (Command.renumberAll number commands) (session.renumber number).globals
      (session.renumber number).world = (Machine.start commands session.globals session.world).renumber number := rfl
  rw [Session.run, Session.run, same, Machine.run_renumber]
  simp only [Machine.exit_renumber, Option.map_map]
  rfl

end Offside
