import Offside.Proofs.Runs

set_option autoImplicit false

namespace Offside

def Control.append (tail : List Command) : Control → Control
  | .run code => .run (code ++ tail)
  | .done exit => .done exit

namespace Pending

def append (tail : List Command) : Pending → Pending
  | .block rest => .block (rest ++ tail)
  | .call line capture caller rest => .call line capture caller (rest ++ tail)

def appendLast (tail : List Command) : List Pending → List Pending
  | [] => []
  | [next] => [next.append tail]
  | next :: another :: more => next :: appendLast tail (another :: more)

def continueLast (tail : List Command) (next : Pending) : List Pending → Pending
  | [] => next.append tail
  | _ :: _ => next

def sequel (tail code : List Command) : List Pending → List Command
  | [] => code ++ tail
  | _ :: _ => code

end Pending

namespace Machine

def append (tail : List Command) (machine : Machine) : Machine :=
  match machine.pending with
  | [] => { machine with control := machine.control.append tail }
  | _ :: _ => { machine with pending := Pending.appendLast tail machine.pending }

theorem perform_append (tail : List Command) (machine : Machine) (command : Command) (rest : List Command)
    (deed : Deed) :
    (machine.append tail).perform command (Pending.sequel tail rest machine.pending) deed =
      (machine.perform command rest deed).append tail := by
  obtain ⟨control, scope, pending, world⟩ := machine
  cases deed with
  | write place value => cases place <;> cases pending <;> rfl
  | enter again => cases again <;> cases pending <;> rfl
  | _ => cases pending <;> rfl

theorem execute_append (tail : List Command) (machine : Machine) (command : Command) (rest : List Command) :
    (machine.append tail).execute command (Pending.sequel tail rest machine.pending) =
      (machine.execute command rest).append tail := by
  have consumed : (machine.append tail).consume command.head = (machine.consume command.head).append tail := by
    obtain ⟨control, scope, pending, world⟩ := machine
    cases command.head <;> cases pending <;> rfl
  have kept : (machine.consume command.head).pending = machine.pending := by cases command.head <;> rfl
  have decided : Deed.ofHead (machine.append tail).scope (machine.append tail).world command.head =
      Deed.ofHead machine.scope machine.world command.head := by
    obtain ⟨control, scope, pending, world⟩ := machine
    cases pending <;> rfl
  rw [execute_perform, execute_perform, consumed, decided, ← perform_append, kept]

theorem resume_append (tail : List Command) (machine : Machine) (exit : Exit) (next : Pending) :
    (machine.append tail).resume exit (Pending.continueLast tail next machine.pending) =
      (machine.resume exit next).append tail := by
  obtain ⟨control, scope, pending, world⟩ := machine
  cases next with
  | block rest => cases exit <;> cases pending <;> rfl
  | call line capture caller rest =>
      cases exit with
      | fellThrough => cases pending <;> rfl
      | failed error => cases pending <;> rfl
      | returned value =>
          cases value with
          | none => cases pending <;> rfl
          | some value =>
              cases capture with
              | none => cases pending <;> rfl
              | some name =>
                  cases pending <;> dsimp only [resume, Pending.continueLast, Pending.append] <;>
                    cases caller.assign name value <;> rfl

theorem exit_append (tail : List Command) (machine : Machine) : (machine.append tail).exit? = machine.exit? := by
  obtain ⟨control, scope, pending, world⟩ := machine
  cases pending with
  | nil => cases control <;> rfl
  | cons next more => cases more <;> cases control <;> rfl

-- The two machines part only where the shorter code has been carried out to its end.
theorem step_append (tail : List Command) (machine : Machine)
    (ongoing : ¬(machine.control = .run [] ∧ machine.pending = [])) :
    (machine.append tail).step = machine.step.append tail := by
  obtain ⟨control, scope, pending, world⟩ := machine
  cases control with
  | run code =>
      cases code with
      | nil =>
          cases pending with
          | nil => exact absurd ⟨rfl, rfl⟩ ongoing
          | cons next more => rfl
      | cons command rest =>
          have executed := execute_append tail ⟨.run (command :: rest), scope, pending, world⟩ command rest
          cases pending <;> exact executed
  | done exit =>
      cases pending with
      | nil => rfl
      | cons next more =>
          have resumed := resume_append tail ⟨.done exit, scope, more, world⟩ exit next
          cases more <;> exact resumed

theorem perform_goes_on (machine : Machine) (command : Command) (rest : List Command) (deed : Deed) :
    (machine.perform command rest deed).control ≠ .done .fellThrough := by
  cases deed <;> simp [perform, proceed, finish, fail, enter, invoke]

theorem resume_goes_on (machine : Machine) (exit : Exit) (next : Pending) :
    (machine.resume exit next).control ≠ .done .fellThrough := by
  cases next with
  | block rest => cases exit <;> simp [resume, proceed, finish]
  | call line capture caller rest =>
      simp only [resume]
      split
      · simp [finish]
      · split <;> simp [proceed, fail, finish]
      · simp [proceed]
      · simp [proceed]

theorem step_fell_through (machine : Machine) (ongoing : machine.exit? = none)
    (fell : machine.step.exit? = some .fellThrough) : machine.control = .run [] ∧ machine.pending = [] := by
  have ended : machine.step.control = .done .fellThrough ∧ machine.step.pending = [] := by
    unfold exit? at fell
    split at fell
    · next control pending =>
        cases fell
        exact ⟨control, pending⟩
    · cases fell
  obtain ⟨control, scope, pending, world⟩ := machine
  cases control with
  | run code =>
      cases code with
      | nil => exact ⟨rfl, ended.2⟩
      | cons command rest =>
          rw [step_running] at ended
          exact absurd ended.1 (perform_goes_on _ command rest _)
  | done exit =>
      cases pending with
      | nil => cases ongoing
      | cons next more => exact absurd ended.1 (resume_goes_on ⟨.done exit, scope, more, world⟩ exit next)

theorem run_append (tail : List Command) (steps : Nat) (machine : Machine) (ongoing : machine.exit? = none)
    (fell : (machine.run steps).exit? = some .fellThrough) :
    ∃ fewer, (machine.append tail).run fewer = ⟨.run tail, (machine.run steps).scope, [], (machine.run steps).world⟩ := by
  induction steps generalizing machine with
  | zero =>
      rw [run, ongoing] at fell
      cases fell
  | succ steps ih =>
      rw [run_ongoing steps machine ongoing] at fell ⊢
      by_cases last : machine.control = .run [] ∧ machine.pending = []
      · obtain ⟨control, scope, pending, world⟩ := machine
        obtain ⟨rfl, rfl⟩ := last
        refine ⟨0, ?_⟩
        rw [run_halted steps _ rfl]
        rfl
      · cases next : machine.step.exit? with
        | some exit =>
            rw [run_halted steps _ (by rw [next]; rfl), next] at fell
            cases fell
            exact absurd (step_fell_through machine ongoing next) last
        | none =>
            obtain ⟨fewer, reached⟩ := ih machine.step next fell
            refine ⟨fewer + 1, ?_⟩
            rw [run_ongoing fewer _ ((exit_append tail machine).trans ongoing), step_append tail machine last]
            exact reached

end Machine

end Offside
