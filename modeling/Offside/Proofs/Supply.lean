import Offside.Proofs.Decisions
import Offside.Proofs.Runs

set_option autoImplicit false

namespace Offside

def Exit.recast (blame : InputError → InputError) : Exit → Exit
  | .failed (.input cause) => .failed (.input (blame cause))
  | exit => exit

def Control.recast (blame : InputError → InputError) : Control → Control
  | .run code => .run code
  | .done exit => .done (exit.recast blame)

def Deed.recast (blame : InputError → InputError) : Deed → Deed
  | .starve cause => .starve (blame cause)
  | deed => deed

-- A device with its input changed reads the same character, or fails as the causes of failure are changed.
def Device.Answers (change : Device → Device) (blame : InputError → InputError) (device : Device) : Prop :=
  (change device).read = (device.read.1.mapError blame, change device.read.2)

namespace Machine

variable (change : Device → Device) (blame : InputError → InputError)

def supply (machine : Machine) : Machine :=
  ⟨machine.control.recast blame, machine.scope, machine.pending,
    { machine.world with device := change machine.world.device }⟩

theorem of_head_idle (scope : Scope) (world : World) (device : Device) (head : Head) (idle : ∀ target, head ≠ .read target) :
    Deed.ofHead scope { world with device := device } head = (Deed.ofHead scope world head).recast blame := by
  have decided := Deed.decides scope world head
  have same : Deed.ofHead scope { world with device := device } head = Deed.ofHead scope world head := by
    cases head with
    | read target => exact absurd rfl (idle target)
    | give value => cases value <;> rfl
    | _ => rfl
  rw [same]
  generalize Deed.ofHead scope world head = deed at decided ⊢
  cases decided with
  | starve target cause => exact absurd rfl (idle target)
  | _ => rfl

theorem of_read_recast (scope : Scope) (memory : Memory) (target : Target) (answer : Except InputError Char) :
    Deed.ofRead scope memory target (answer.mapError blame) = (Deed.ofRead scope memory target answer).recast blame := by
  cases answer with
  | error cause => rfl
  | ok c =>
      dsimp only [Except.mapError, Deed.ofRead]
      cases target.locate scope memory <;> rfl

theorem perform_supply (machine : Machine) (command : Command) (rest : List Command) (deed : Deed) :
    (machine.supply change blame).perform command rest (deed.recast blame) =
      (machine.perform command rest deed).supply change blame := by
  cases deed with
  | write place value => cases place <;> rfl
  | enter again => cases again <;> rfl
  | _ => rfl

theorem execute_supply (command : Command) (rest : List Command) (scope : Scope) (pending : List Pending) (world : World)
    (served : ∀ target, command.head = .read target → world.device.Answers change blame) :
    ((Machine.mk (.run (command :: rest)) scope pending world).supply change blame).step =
      (Machine.mk (.run (command :: rest)) scope pending world).step.supply change blame := by
  change (Machine.mk (.run (command :: rest)) scope pending { world with device := change world.device }).step = _
  rw [step_running, step_running, ← perform_supply]
  cases head : command.head with
  | read target =>
      have answers : (change world.device).read = _ := served target head
      simp only [consume, receive, Deed.ofHead, answers, of_read_recast]
      rfl
  | _ =>
      rw [of_head_idle blame scope world _ _ (by simp)]
      rfl

theorem resume_supply (machine : Machine) (exit : Exit) (next : Pending) :
    (machine.supply change blame).resume (exit.recast blame) next = (machine.resume exit next).supply change blame := by
  cases next with
  | block rest =>
      cases exit with
      | failed error => cases error <;> rfl
      | _ => rfl
  | call line capture caller rest =>
      cases exit with
      | fellThrough => rfl
      | failed error => cases error <;> rfl
      | returned value =>
          cases value with
          | none => rfl
          | some value =>
              cases capture with
              | none => rfl
              | some name =>
                  simp only [resume, Exit.recast]
                  cases caller.assign name value <;> rfl

theorem step_supply (machine : Machine) (served : machine.awaitsInput = true → machine.world.device.Answers change blame) :
    (machine.supply change blame).step = machine.step.supply change blame := by
  obtain ⟨control, scope, pending, world⟩ := machine
  cases control with
  | run code =>
      cases code with
      | nil => rfl
      | cons command rest =>
          refine execute_supply change blame command rest scope pending world fun target head => served ?_
          obtain ⟨line, head', body⟩ := command
          cases head
          rfl
  | done exit =>
      cases pending with
      | nil => rfl
      | cons next more => exact resume_supply change blame ⟨.done exit, scope, more, world⟩ exit next

theorem exit_supply (machine : Machine) : (machine.supply change blame).exit? = machine.exit?.map (Exit.recast blame) := by
  obtain ⟨control, scope, pending, world⟩ := machine
  cases control with
  | run code => rfl
  | done exit => cases pending <;> rfl

theorem supply_awaiting (machine : Machine) (awaits : machine.awaitsInput = true) :
    machine.supply change blame = machine.receive (change machine.world.device) := by
  obtain ⟨control, scope, pending, world⟩ := machine
  cases control with
  | run code => rfl
  | done exit => cases awaits

-- A run with changed input goes the same way, as long as each read that it comes to is answered alike.
theorem run_supply (steps : Nat) (machine : Machine)
    (served : ∀ earlier < steps, (machine.run earlier).awaitsInput = true →
      (machine.run earlier).world.device.Answers change blame) :
    (machine.supply change blame).run steps = (machine.run steps).supply change blame := by
  induction steps generalizing machine with
  | zero => rfl
  | succ steps ih =>
      rw [run, run, exit_supply, Option.isSome_map]
      by_cases halted : machine.exit?.isSome
      · rw [if_pos halted, if_pos halted]
      · rw [if_neg halted, if_neg halted, step_supply change blame machine (served 0 (Nat.succ_pos steps))]
        refine ih machine.step fun earlier before => ?_
        have later := served (earlier + 1) (Nat.succ_lt_succ before)
        rwa [run_ongoing earlier machine (Option.not_isSome_iff_eq_none.mp halted)] at later

theorem step_starved (machine : Machine) (cause : InputError) (awaits : machine.awaitsInput = true)
    (starved : machine.world.device.read.1 = .error cause) :
    machine.step = (machine.receive machine.world.device.read.2).finish (.failed (.input cause)) := by
  obtain ⟨control, scope, pending, world⟩ := machine
  unfold awaitsInput at awaits
  split at awaits
  · next line target body rest running =>
      cases running
      rw [step_running]
      change perform _ _ _ (Deed.ofRead scope world.memory target world.device.read.1) = _
      rw [starved]
      rfl
  · cases awaits

theorem step_drained (machine : Machine) (cause : InputError) (awaits : machine.awaitsInput = true)
    (drained : machine.world.device.read = (.error cause, machine.world.device)) :
    machine.step = machine.finish (.failed (.input cause)) := by
  rw [machine.step_starved cause awaits (congrArg Prod.fst drained), drained]
  rfl

theorem perform_input (machine : Machine) (command : Command) (rest : List Command) (deed : Deed) (cause : InputError)
    (ended : (machine.perform command rest deed).control = .done (.failed (.input cause))) : deed = .starve cause := by
  cases deed with
  | starve other =>
      cases ended
      rfl
  | _ => cases ended

theorem of_read_starve (scope : Scope) (memory : Memory) (target : Target) (answer : Except InputError Char)
    (cause : InputError) (starved : Deed.ofRead scope memory target answer = .starve cause) : answer = .error cause := by
  cases answer with
  | error other =>
      cases starved
      rfl
  | ok c =>
      rw [Deed.ofRead] at starved
      cases located : target.locate scope memory with
      | ok place =>
          rw [located] at starved
          cases starved
      | error fault =>
          rw [located] at starved
          cases starved

theorem of_head_starve (scope : Scope) (world : World) (head : Head) (cause : InputError)
    (starved : Deed.ofHead scope world head = .starve cause) :
    ∃ target, head = .read target ∧ world.device.read.1 = .error cause := by
  have decided := Deed.decides scope world head
  rw [starved] at decided
  cases decided with
  | starve target => exact ⟨target, rfl, of_read_starve scope world.memory target _ cause starved⟩

theorem resume_input (machine : Machine) (exit : Exit) (next : Pending) (cause : InputError)
    (ended : (machine.resume exit next).control = .done (.failed (.input cause))) : exit = .failed (.input cause) := by
  cases next with
  | block rest =>
      cases exit with
      | fellThrough => cases ended
      | returned value => cases ended
      | failed error =>
          cases ended
          rfl
  | call line capture caller rest =>
      simp only [resume] at ended
      split at ended
      · cases ended
        rfl
      · split at ended <;> cases ended
      · cases ended
      · cases ended

theorem step_starves (machine : Machine) (cause : InputError)
    (running : machine.control ≠ .done (.failed (.input cause)))
    (ended : machine.step.control = .done (.failed (.input cause))) :
    machine.awaitsInput = true ∧ machine.world.device.read.1 = .error cause := by
  obtain ⟨control, scope, pending, world⟩ := machine
  cases control with
  | run code =>
      cases code with
      | nil => cases ended
      | cons command rest =>
          rw [step_running] at ended
          obtain ⟨line, head, body⟩ := command
          obtain ⟨target, rfl, starved⟩ := of_head_starve scope world head cause (perform_input _ _ rest _ cause ended)
          exact ⟨rfl, starved⟩
  | done exit =>
      cases pending with
      | nil => exact absurd ended running
      | cons next more =>
          exact absurd (congrArg Control.done (resume_input ⟨.done exit, scope, more, world⟩ exit next cause ended)) running

theorem run_starves (steps : Nat) (machine : Machine) (cause : InputError)
    (running : machine.control ≠ .done (.failed (.input cause)))
    (ended : (machine.run steps).control = .done (.failed (.input cause))) :
    ∃ earlier < steps, (machine.run earlier).awaitsInput = true ∧
      (machine.run earlier).world.device.read.1 = .error cause := by
  induction steps generalizing machine with
  | zero => exact absurd ended running
  | succ steps ih =>
      rw [run] at ended
      split at ended
      · exact absurd ended running
      · next ongoing =>
          by_cases now : machine.step.control = .done (.failed (.input cause))
          · exact ⟨0, Nat.succ_pos steps, step_starves machine cause running now⟩
          · obtain ⟨earlier, before, awaits, starved⟩ := ih machine.step now ended
            refine ⟨earlier + 1, Nat.succ_lt_succ before, ?_⟩
            rw [run_ongoing earlier machine (Option.not_isSome_iff_eq_none.mp ongoing)]
            exact ⟨awaits, starved⟩

end Machine

end Offside
