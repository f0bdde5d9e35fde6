import Offside.Proofs.Decisions
import Offside.Proofs.Frames
import Offside.Proofs.Runs

set_option autoImplicit false

namespace Offside

namespace Command

mutual

def isScoped (visible : List String) : Command → Bool
  | ⟨_, head, body⟩ =>
      head.vars.all (fun name => decide (name ∈ visible)) &&
        match head with
        | .declare name _ => decide (name ∉ visible)
        | .branch _ | .loop _ => areScoped visible body
        | .define _ params => decide params.Nodup && areScoped params body
        | .log _ | .read _ | .assign _ _ | .call _ _ _ | .give _ => true

def areScoped (visible : List String) : List Command → Bool
  | [] => true
  | command :: more =>
      command.isScoped visible &&
        match command.head with
        | .declare name _ => areScoped (name :: visible) more
        | _ => areScoped visible more

end

end Command

def Program.isScoped (program : Program) : Bool :=
  decide program.params.Nodup && Command.areScoped program.params program.body

def Fitting (names : List (List String)) (code : List Command) : Prop :=
  ∃ visible, (∀ name, name ∈ visible ↔ name ∈ names.flatten) ∧ Command.areScoped visible code = true

def Control.Scoped (names : List (List String)) : Control → Prop
  | .run code => Fitting names code
  | .done exit => ∀ line name, exit ≠ .failed (.fault line (.notDeclared name)) ∧
      exit ≠ .failed (.fault line (.alreadyDeclared name))

-- Each part of the pending work fits the frames that will be there when its turn comes.
def Pending.Scoped : List (List String) → List Pending → Prop
  | _, [] => True
  | names, .block rest :: more => names.tail ≠ [] ∧ Fitting names.tail rest ∧ Scoped names.tail more
  | _, .call _ capture caller rest :: more =>
      (∀ name ∈ capture, (caller.find name).isSome) ∧ Fitting caller.names rest ∧ Scoped caller.names more

def World.Scoped (world : World) : Prop :=
  ∀ name program, world.programs.find name = some program → program.isScoped = true

namespace Machine

structure Scoped (machine : Machine) : Prop where
  control : machine.control.Scoped machine.scope.names
  pending : Pending.Scoped machine.scope.names machine.pending
  world : machine.world.Scoped

theorem fitting_fail (line : Nat) (names : List (List String)) (fault : Fault) (blameless : fault.blamed = none) :
    (Control.done (.failed (.fault line fault))).Scoped names := by
  intro blamed name
  refine ⟨?_, ?_⟩
  · intro same
    cases same
    cases blameless
  · intro same
    cases same
    cases blameless

theorem blame_scoped (scope : Scope) (world : World) (line : Nat) (head : Head) (body : List Command) (visible : List String)
    (fault : Fault) (same : ∀ name, name ∈ visible ↔ name ∈ scope.names.flatten) (sound : world.Scoped)
    (checked : Command.isScoped visible ⟨line, head, body⟩ = true) (blame : Blame scope world head fault) :
    fault.blamed = none := by
  rw [Command.isScoped.eq_def] at checked
  obtain ⟨all, special⟩ := Bool.and_eq_true_iff.mp checked
  have vars := List.all_eq_true.mp all
  cases blame with
  | other _ _ blameless => exact blameless
  | unknown _ name member missing =>
      have present := of_decide_eq_true (vars name member)
      rw [same, ← Scope.find_names, missing] at present
      cases present
  | known name value held =>
      have absent := of_decide_eq_true special
      rw [same, ← Scope.find_names] at absent
      exact absurd held absent
  | duplicate called name arguments capture program found twice =>
      obtain ⟨distinct, _⟩ := Bool.and_eq_true_iff.mp (sound called program found)
      exact absurd (of_decide_eq_true distinct) twice.not_nodup

theorem pending_scoped_tail (first second : List (List String)) (pending : List Pending) (same : first.tail = second.tail)
    (fits : Pending.Scoped first pending) : Pending.Scoped second pending := by
  cases pending with
  | nil => trivial
  | cons next more =>
      cases next with
      | block rest =>
          rw [Pending.Scoped, ← same]
          exact fits
      | call line capture caller rest => exact fits

theorem write_scoped (machine : Machine) (place : Place) (value : Value) (rest : List Command)
    (fitting : Fitting machine.scope.names rest) (pending : Pending.Scoped machine.scope.names machine.pending)
    (sound : machine.world.Scoped) : ((machine.write place value).proceed rest).Scoped := by
  cases place with
  | cell address => exact ⟨fitting, pending, sound⟩
  | var name =>
      have names := machine.scope.names_update name value
      refine ⟨?_, ?_, sound⟩
      · change Fitting (machine.scope.update name value).names rest
        rwa [names]
      · change Pending.Scoped (machine.scope.update name value).names machine.pending
        rwa [names]

theorem define_scoped (world : World) (name : String) (program : Program) (sound : world.Scoped)
    (checked : program.isScoped = true) :
    World.Scoped { world with programs := Table.put name program world.programs } := by
  intro called found present
  rw [Table.find_put] at present
  split at present
  · cases present
    exact checked
  · exact sound called found present

theorem perform_scoped (machine : Machine) (world : World) (command : Command) (rest : List Command) (deed : Deed)
    (decided : Decides machine.scope world command.head deed) (known : world.Scoped)
    (fitting : Fitting machine.scope.names (command :: rest)) (pending : Pending.Scoped machine.scope.names machine.pending)
    (sound : machine.world.Scoped) : (machine.perform command rest deed).Scoped := by
  have whole := fitting
  obtain ⟨visible, same, checked⟩ := fitting
  rw [Command.areScoped, Bool.and_eq_true] at checked
  obtain ⟨first, others⟩ := checked
  obtain ⟨line, head, body⟩ := command
  have inside : ∀ code, Command.areScoped visible code = true → Fitting ([] :: machine.scope.names) code := by
    intro code fits
    exact ⟨visible, same, fits⟩
  cases decided with
  | print value text => exact ⟨⟨visible, same, others⟩, pending, sound⟩
  | read target place value _ => exact write_scoped machine place value rest ⟨visible, same, others⟩ pending sound
  | assign target value place result _ => exact write_scoped machine place result rest ⟨visible, same, others⟩ pending sound
  | declare name value result _ =>
      refine ⟨⟨name :: visible, ?_, others⟩, pending_scoped_tail machine.scope.names _ _ rfl pending, sound⟩
      intro query
      rw [List.mem_cons, same]
      exact (machine.scope.names_insert name query result).symm
  | skipBranch condition => exact ⟨⟨visible, same, others⟩, pending, sound⟩
  | skipLoop condition => exact ⟨⟨visible, same, others⟩, pending, sound⟩
  | enterBranch condition =>
      rw [Command.isScoped, Bool.and_eq_true] at first
      exact ⟨inside body first.2, ⟨List.cons_ne_nil _ _, ⟨visible, same, others⟩, pending⟩, sound⟩
  | enterLoop condition =>
      rw [Command.isScoped, Bool.and_eq_true] at first
      exact ⟨inside body first.2, ⟨List.cons_ne_nil _ _, whole, pending⟩, sound⟩
  | define name params =>
      rw [Command.isScoped, Bool.and_eq_true] at first
      exact ⟨⟨visible, same, others⟩, pending, define_scoped machine.world name ⟨params, body⟩ sound first.2⟩
  | call name arguments capture program callee found count bound =>
      obtain ⟨_, bodyFits⟩ := Bool.and_eq_true_iff.mp (known name program found)
      rw [Command.isScoped, Bool.and_eq_true, List.all_eq_true] at first
      refine ⟨⟨program.params, ?_, bodyFits⟩, ⟨?_, ⟨visible, same, others⟩, pending⟩, sound⟩
      · intro param
        have shown := bind_params_find _ _ _ _ _ _ count bound param
        rw [Scope.find_names] at shown
        change param ∈ program.params ↔ param ∈ callee.names.flatten
        rw [shown]
        exact ⟨.inr, fun either => either.resolve_left Bool.false_ne_true⟩
      · intro target captured
        have member : target ∈ (Head.call name arguments capture).vars :=
          List.mem_append_right _ (Option.mem_toList.mpr captured)
        rw [Scope.find_names, ← same]
        exact of_decide_eq_true (first.1 target member)
  | give value result =>
      refine ⟨?_, pending, sound⟩
      intro blamed name
      exact ⟨nofun, nofun⟩
  | fail _ fault blame =>
      have blameless := blame_scoped machine.scope world line head body visible fault same known first blame
      exact ⟨fitting_fail line _ fault blameless, pending, sound⟩
  | starve target cause =>
      refine ⟨?_, pending, sound⟩
      intro blamed name
      exact ⟨nofun, nofun⟩

theorem resume_scoped (machine : Machine) (exit : Exit) (next : Pending) (more : List Pending)
    (ended : (Control.done exit).Scoped machine.scope.names)
    (pending : Pending.Scoped machine.scope.names (next :: more)) (sound : machine.world.Scoped) :
    ({ machine with pending := more }.resume exit next).Scoped := by
  cases next with
  | block rest =>
      obtain ⟨nested, fitting, further⟩ := pending
      rw [← machine.scope.names_leave nested] at fitting further
      cases exit with
      | fellThrough => exact ⟨fitting, further, sound⟩
      | returned value => exact ⟨ended, further, sound⟩
      | failed error => exact ⟨ended, further, sound⟩
  | call line capture caller rest =>
      obtain ⟨declared, fitting, further⟩ := pending
      have goesOn : (Machine.mk (.run rest) caller more machine.world).Scoped := ⟨fitting, further, sound⟩
      cases exit with
      | fellThrough => exact goesOn
      | failed error => exact ⟨ended, further, sound⟩
      | returned value =>
          cases value with
          | none => exact goesOn
          | some value =>
              cases capture with
              | none => exact goesOn
              | some name =>
                  have held := declared name rfl
                  have names := caller.names_update name value
                  simp only [resume, Scope.assign_update, if_pos held]
                  refine ⟨?_, ?_, sound⟩
                  · change Fitting (caller.update name value).names rest
                    rwa [names]
                  · change Pending.Scoped (caller.update name value).names more
                    rwa [names]

theorem step_scoped (machine : Machine) (invariant : machine.Scoped) : machine.step.Scoped := by
  obtain ⟨control, scope, pending, world⟩ := machine
  obtain ⟨fitting, further, sound⟩ := invariant
  cases control with
  | run code =>
      cases code with
      | nil =>
          refine ⟨?_, further, sound⟩
          intro line name
          exact ⟨nofun, nofun⟩
      | cons command rest =>
          obtain ⟨device, deed, decided, step⟩ := step_decided command rest scope pending world
          rw [step]
          exact perform_scoped ⟨_, scope, pending, { world with device := device }⟩ world command rest deed decided sound
            fitting further sound
  | done exit =>
      cases pending with
      | nil => exact ⟨fitting, further, sound⟩
      | cons next more => exact resume_scoped ⟨.done exit, scope, next :: more, world⟩ exit next more fitting further sound

end Machine

namespace Session

/-- Checked commands never meet a name that is not declared, or declared already, whatever programs they call. -/
theorem run_scoped (visible : List String) (session : Session) (commands : List Command) (steps : Nat) (exit : Exit)
    (after : Session) (shown : ∀ name, name ∈ visible ↔ (session.globals.find name).isSome)
    (programs : ∀ name program, session.program name = some program → program.isScoped = true)
    (checked : Command.areScoped visible commands = true) (ended : session.run steps commands = some (exit, after)) :
    ∀ line name, exit ≠ .failed (.fault line (.notDeclared name)) ∧ exit ≠ .failed (.fault line (.alreadyDeclared name)) := by
  have same : ∀ name, name ∈ visible ↔ name ∈ session.globals.names.flatten := by
    intro name
    rw [shown, Scope.find_names]
  have initial : (Machine.start commands session.globals session.world).Scoped :=
    ⟨⟨visible, same, checked⟩, trivial, programs⟩
  have final := Machine.run_keeps Machine.Scoped Machine.step_scoped steps _ initial
  rw [session.run_done commands steps exit after ended] at final
  exact final.control

theorem run_scoped_nested :
    let countdown : Program := ⟨["x"], [
      ⟨2, .branch (.binary (.integer 0) .less (.var "x")), [
        ⟨3, .declare "y" (.binary (.var "x") .minus (.integer 1)), []⟩,
        ⟨4, .call "countdown" [.var "y"] (some "y"), []⟩,
        ⟨5, .give (some (.var "y")), []⟩]⟩,
      ⟨6, .give (some (.var "x")), []⟩]⟩
    let session : Session :=
      ⟨Scope.empty.insert "x" (.integer 1), { World.start (.script []) with programs := .put "countdown" countdown .empty }⟩
    let commands : List Command := [
      ⟨1, .loop (.binary (.var "x") .less (.integer 3)), [
        ⟨2, .declare "y" (.var "x"), []⟩,
        ⟨3, .call "countdown" [.var "y"] (some "y"), []⟩,
        ⟨4, .assign (.var "x") (.binary (.binary (.var "x") .plus (.integer 1)) .plus (.var "y")), []⟩]⟩,
      ⟨5, .declare "y" (.integer 7), []⟩,
      ⟨6, .log (.binary (.var "x") .plus (.var "y")), []⟩]
    ∃ exit after, session.run 100 commands = some (exit, after) ∧ after.world.output = "10" ∧
      ∀ line name, exit ≠ .failed (.fault line (.notDeclared name)) ∧
        exit ≠ .failed (.fault line (.alreadyDeclared name)) := by
  intro countdown session commands
  have shown : ∀ name, name ∈ ["x"] ↔ (session.globals.find name).isSome := by
    intro name
    rw [Scope.find_names]
    rfl
  have programs : ∀ name program, session.program name = some program → program.isScoped = true := by
    intro name program found
    have member : program = countdown := by
      change (if "countdown" = name then some countdown else none) = some program at found
      split at found
      · exact (Option.some.inj found).symm
      · cases found
    rw [member]
    rfl
  have checked : Command.areScoped ["x"] commands = true := by rfl
  have printed : (session.run 100 commands).map (fun result => result.2.world.output) = some "10" := by decide +kernel
  obtain ⟨⟨exit, after⟩, ended, output⟩ := Option.map_eq_some_iff.mp printed
  exact ⟨exit, after, ended, output, run_scoped ["x"] session commands 100 exit after shown programs checked ended⟩

end Session

end Offside
