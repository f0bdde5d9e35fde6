import Offside.Proofs.Deeds

set_option autoImplicit false

namespace Offside.Machine

theorem run_ongoing (steps : Nat) (machine : Machine) (ongoing : machine.exit? = none) :
    machine.run (steps + 1) = machine.step.run steps := by
  rw [run, ongoing, Option.isSome_none, if_neg Bool.false_ne_true]

theorem run_keeps (kept : Machine → Prop) (step : ∀ machine, kept machine → kept machine.step) (steps : Nat)
    (machine : Machine) (initial : kept machine) : kept (machine.run steps) := by
  induction steps generalizing machine with
  | zero => exact initial
  | succ steps ih =>
      rw [run]
      split
      · exact initial
      · exact ih machine.step (step machine initial)

def Prints (output : String) (machine : Machine) : Prop := ∃ more, machine.world.output = output ++ more

theorem perform_output (machine : Machine) (command : Command) (rest : List Command) (deed : Deed) :
    Prints machine.world.output (machine.perform command rest deed) := by
  cases deed with
  | print text => exact ⟨text, rfl⟩
  | write place value => cases place <;> exact ⟨"", (String.append_empty).symm⟩
  | _ => exact ⟨"", (String.append_empty).symm⟩

theorem resume_world (machine : Machine) (exit : Exit) (next : Pending) :
    (machine.resume exit next).world = machine.world := by
  cases next with
  | block rest => cases exit <;> rfl
  | call line capture caller rest =>
      simp only [resume]
      split
      · rfl
      · split <;> rfl
      · rfl
      · rfl

theorem step_output (machine : Machine) : Prints machine.world.output machine.step := by
  obtain ⟨control, scope, pending, world⟩ := machine
  cases control with
  | run code =>
      cases code with
      | nil => exact ⟨"", (String.append_empty).symm⟩
      | cons command rest =>
          rw [step_running]
          have kept : ((Machine.mk (.run (command :: rest)) scope pending world).consume command.head).world.output =
              world.output := by cases command.head <;> rfl
          have printed := perform_output ((Machine.mk (.run (command :: rest)) scope pending world).consume command.head)
            command rest (Deed.ofHead scope world command.head)
          rwa [kept] at printed
  | done exit =>
      cases pending with
      | nil => exact ⟨"", (String.append_empty).symm⟩
      | cons next more =>
          have same := resume_world ⟨.done exit, scope, more, world⟩ exit next
          exact ⟨"", by rw [String.append_empty]; exact congrArg World.output same⟩

theorem run_output (steps : Nat) (machine : Machine) : Prints machine.world.output (machine.run steps) := by
  refine run_keeps (Prints machine.world.output) ?_ steps machine ⟨"", (String.append_empty).symm⟩
  rintro reached ⟨first, before⟩
  obtain ⟨second, printed⟩ := step_output reached
  exact ⟨first ++ second, by rw [printed, before, String.append_assoc]⟩

theorem exit_done (machine : Machine) (exit : Exit) (halted : machine.exit? = some exit) :
    machine.control = .done exit ∧ machine.pending = [] := by
  rw [exit?] at halted
  split at halted
  · next control pending =>
      cases halted
      exact ⟨control, pending⟩
  · cases halted

end Offside.Machine

theorem Offside.Session.run_done (session : Session) (commands : List Command) (steps : Nat) (exit : Exit) (after : Session)
    (ended : session.run steps commands = some (exit, after)) :
    ((Machine.start commands session.globals session.world).run steps) = ⟨.done exit, after.globals, [], after.world⟩ := by
  obtain ⟨found, halted, result⟩ := Option.map_eq_some_iff.mp ended
  obtain ⟨control, pending⟩ := Machine.exit_done _ found halted
  cases result
  rw [← control, ← pending]
