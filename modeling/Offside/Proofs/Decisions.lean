import Offside.Proofs.Blame
import Offside.Proofs.Deeds

set_option autoImplicit false

namespace Offside

inductive Blame (scope : Scope) (world : World) : Head → Fault → Prop where
  | other (head : Head) (fault : Fault) : fault.blamed = none → Blame scope world head fault
  | unknown (head : Head) (name : String) : name ∈ head.vars → scope.find name = none →
      Blame scope world head (.notDeclared name)
  | known (name : String) (value : Expr) : (scope.find name).isSome → Blame scope world (.declare name value) (.alreadyDeclared name)
  | duplicate (called name : String) (arguments : List Expr) (capture : Option String) (program : Program) :
      world.programs.find called = some program → List.Duplicate name program.params →
      Blame scope world (.call called arguments capture) (.alreadyDeclared name)

-- The deeds that a command may come to, with what is known when it does.
inductive Decides (scope : Scope) (world : World) : Head → Deed → Prop where
  | print (value : Expr) (text : String) : Decides scope world (.log value) (.print text)
  | read (target : Target) (place : Place) (value : Value) : target.locate scope world.memory = .ok place →
      Decides scope world (.read target) (.write place value)
  | assign (target : Target) (value : Expr) (place : Place) (result : Value) : target.locate scope world.memory = .ok place →
      Decides scope world (.assign target value) (.write place result)
  | declare (name : String) (value : Expr) (result : Value) : scope.find name = none →
      Decides scope world (.declare name value) (.declare name result)
  | skipBranch (condition : Expr) : Decides scope world (.branch condition) .skip
  | skipLoop (condition : Expr) : Decides scope world (.loop condition) .skip
  | enterBranch (condition : Expr) : Decides scope world (.branch condition) (.enter false)
  | enterLoop (condition : Expr) : Decides scope world (.loop condition) (.enter true)
  | define (name : String) (params : List String) : Decides scope world (.define name params) (.define name params)
  | call (name : String) (arguments : List Expr) (capture : Option String) (program : Program) (callee : Scope) :
      world.programs.find name = some program → program.params.length = arguments.length →
      Machine.bindParams scope world.memory program.params arguments .empty = .ok callee →
      Decides scope world (.call name arguments capture) (.call program callee capture)
  | give (value : Option Expr) (result : Option Value) : Decides scope world (.give value) (.give result)
  | fail (head : Head) (fault : Fault) : Blame scope world head fault → Decides scope world head (.fail fault)
  | starve (target : Target) (cause : InputError) : Decides scope world (.read target) (.starve cause)

namespace Deed

variable (scope : Scope) (world : World)

theorem decides_unknown (head : Head) (vars : List String) (fault : Fault) (within : vars ⊆ head.vars)
    (unknown : Unknown scope vars fault) : Decides scope world head (.fail fault) := by
  refine .fail head fault ?_
  rcases unknown with blameless | ⟨name, member, rfl, missing⟩
  · exact .other head fault blameless
  · exact .unknown head name (within member) missing

theorem decides_read (target : Target) (answer : Except InputError Char) :
    Decides scope world (.read target) (ofRead scope world.memory target answer) := by
  cases answer with
  | error cause => exact .starve target cause
  | ok c =>
      rw [ofRead]
      cases found : target.locate scope world.memory with
      | ok place => exact .read target place _ found
      | error fault =>
          exact decides_unknown scope world _ _ fault (List.Subset.refl _)
            (Target.locate_unknown scope world.memory target fault found)

theorem decides_assign (target : Target) (value : Expr) :
    Decides scope world (.assign target value) (ofHead scope world (.assign target value)) := by
  rw [ofHead]
  cases evaluated : value.evaluate scope world.memory with
  | error fault =>
      exact decides_unknown scope world _ _ fault (List.subset_append_right _ _)
        (value.evaluate_unknown scope world.memory fault evaluated)
  | ok result =>
      rw [ofResult]
      cases found : target.locate scope world.memory with
      | ok place => exact .assign target value place result found
      | error fault =>
          exact decides_unknown scope world _ _ fault (List.subset_append_left _ _)
            (target.locate_unknown scope world.memory fault found)

theorem decides_declare (name : String) (value : Expr) :
    Decides scope world (.declare name value) (ofHead scope world (.declare name value)) := by
  rw [ofHead]
  cases evaluated : value.evaluate scope world.memory with
  | error fault =>
      exact decides_unknown scope world _ _ fault (List.Subset.refl _)
        (value.evaluate_unknown scope world.memory fault evaluated)
  | ok result =>
      rw [ofResult, ofDeclaration]
      by_cases held : (scope.find name).isSome
      · rw [if_pos held]
        exact .fail _ _ (.known name value held)
      · rw [if_neg held]
        exact .declare name value result (Option.not_isSome_iff_eq_none.mp held)

theorem decides_call (name : String) (arguments : List Expr) (capture : Option String) :
    Decides scope world (.call name arguments capture) (ofHead scope world (.call name arguments capture)) := by
  rw [ofHead]
  cases found : world.programs.find name with
  | none => exact .fail _ _ (.other _ _ rfl)
  | some program =>
      rw [ofCall]
      by_cases count : program.params.length = arguments.length
      · rw [if_pos count]
        cases bound : Machine.bindParams scope world.memory program.params arguments .empty with
        | ok callee => exact .call name arguments capture program callee found count bound
        | error fault =>
            rcases Machine.bind_params_failed _ _ _ _ _ _ bound with unknown | ⟨param, rfl, twice⟩
            · exact decides_unknown scope world _ _ fault (List.subset_append_left _ _) unknown
            · rcases twice with ⟨held, _⟩ | twice
              · cases held
              · exact .fail _ _ (.duplicate name param arguments capture program found twice)
      · rw [if_neg count]
        exact .fail _ _ (.other _ _ rfl)

theorem decides (head : Head) : Decides scope world head (ofHead scope world head) := by
  cases head with
  | log value =>
      rw [ofHead]
      cases evaluated : value.evaluate scope world.memory with
      | ok result => exact .print value result.shown
      | error fault =>
          exact decides_unknown scope world _ _ fault (List.Subset.refl _)
            (value.evaluate_unknown scope world.memory fault evaluated)
  | read target => exact decides_read scope world target world.device.read.1
  | assign target value => exact decides_assign scope world target value
  | declare name value => exact decides_declare scope world name value
  | branch condition =>
      rw [ofHead]
      cases evaluated : condition.condition scope world.memory with
      | ok holds =>
          cases holds with
          | true => exact .enterBranch condition
          | false => exact .skipBranch condition
      | error fault =>
          exact decides_unknown scope world _ _ fault (List.Subset.refl _)
            (condition.condition_unknown scope world.memory fault evaluated)
  | loop condition =>
      rw [ofHead]
      cases evaluated : condition.condition scope world.memory with
      | ok holds =>
          cases holds with
          | true => exact .enterLoop condition
          | false => exact .skipLoop condition
      | error fault =>
          exact decides_unknown scope world _ _ fault (List.Subset.refl _)
            (condition.condition_unknown scope world.memory fault evaluated)
  | define name params => exact .define name params
  | call name arguments capture => exact decides_call scope world name arguments capture
  | give value =>
      cases value with
      | none => exact .give none none
      | some value =>
          rw [ofHead]
          cases evaluated : value.evaluate scope world.memory with
          | ok result => exact .give (some value) (some result)
          | error fault =>
              have within : value.vars ⊆ (Head.give (some value)).vars := by simp [Head.vars]
              exact decides_unknown scope world _ _ fault within
                (value.evaluate_unknown scope world.memory fault evaluated)

end Deed

theorem Machine.step_decided (command : Command) (rest : List Command) (scope : Scope) (pending : List Pending) (world : World) :
    ∃ device deed, Decides scope world command.head deed ∧
      (Machine.mk (.run (command :: rest)) scope pending world).step =
        (Machine.mk (.run (command :: rest)) scope pending { world with device := device }).perform command rest deed := by
  rw [step_running]
  have decided := Deed.decides scope world command.head
  cases head : command.head with
  | read target =>
      rw [head] at decided
      exact ⟨world.device.read.2, _, decided, rfl⟩
  | _ =>
      rw [head] at decided
      exact ⟨world.device, _, decided, rfl⟩

end Offside
