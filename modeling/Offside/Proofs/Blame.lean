import Mathlib.Data.List.Duplicate
import Offside.Machine

set_option autoImplicit false

namespace Offside

namespace Fault

def blamed : Fault → Option String
  | .notDeclared name | .alreadyDeclared name => some name
  | .conditionNotBoolean | .unsupported _ _ _ | .indexNotInteger | .indexOutOfRange _ | .undefinedProgram _
  | .argumentCount _ _ _ | .divisionByZero | .characterOutOfRange _ _ => none

end Fault

namespace Expr

def vars : Expr → List String
  | .text _ | .integer _ | .boolean _ => []
  | .var name => [name]
  | .cell index => index.vars
  | .binary left _ right => left.vars ++ right.vars

end Expr

namespace Target

def vars : Target → List String
  | .var name => [name]
  | .cell index => index.vars

end Target

namespace Head

def vars : Head → List String
  | .log value => value.vars
  | .read target => target.vars
  | .assign target value => target.vars ++ value.vars
  | .declare _ value => value.vars
  | .branch condition => condition.vars
  | .loop condition => condition.vars
  | .define _ _ => []
  | .call _ arguments capture => arguments.flatMap Expr.vars ++ capture.toList
  | .give value => value.toList.flatMap Expr.vars

end Head

namespace Memory

theorem address_blameless (index : Value) (fault : Fault) (failed : address index = .error fault) :
    fault.blamed = none := by
  cases index with
  | text value =>
      cases failed
      rfl
  | boolean value =>
      cases failed
      rfl
  | integer value =>
      rw [address] at failed
      split at failed
      · cases failed
      · cases failed
        rfl

theorem read_blameless (memory : Memory) (index : Value) (fault : Fault) (failed : memory.read index = .error fault) :
    fault.blamed = none := by
  rw [read] at failed
  cases found : address index with
  | ok cell =>
      rw [found] at failed
      cases failed
  | error inner =>
      rw [found] at failed
      cases failed
      exact address_blameless index fault found

end Memory

namespace Value

theorem operate_blameless (left : Value) (operator : Operator) (right : Value) (fault : Fault)
    (failed : left.operate operator right = .error fault) : fault.blamed = none := by
  unfold operate at failed
  split at failed
  case h_5 text index =>
    rw [characterAt] at failed
    split at failed
    · cases failed
    · cases failed
      rfl
  case h_9 =>
    split at failed
    · cases failed
      rfl
    · cases failed
  case h_10 =>
    split at failed
    · cases failed
      rfl
    · cases failed
  all_goals first | (cases failed; rfl) | cases failed

end Value

def Unknown (scope : Scope) (vars : List String) (fault : Fault) : Prop :=
  fault.blamed = none ∨ ∃ name ∈ vars, fault = .notDeclared name ∧ scope.find name = none

theorem unknown_of_subset (scope : Scope) (vars more : List String) (fault : Fault) (within : vars ⊆ more)
    (unknown : Unknown scope vars fault) : Unknown scope more fault := by
  rcases unknown with blameless | ⟨name, member, rest⟩
  · exact .inl blameless
  · exact .inr ⟨name, within member, rest⟩

namespace Expr

theorem evaluate_unknown (scope : Scope) (memory : Memory) (expr : Expr) (fault : Fault)
    (failed : expr.evaluate scope memory = .error fault) : Unknown scope expr.vars fault := by
  induction expr generalizing fault with
  | text value => cases failed
  | integer value => cases failed
  | boolean value => cases failed
  | var name =>
      rw [evaluate, Scope.lookup_find] at failed
      split at failed
      · cases failed
      · next missing =>
          cases failed
          exact .inr ⟨name, List.mem_singleton_self name, rfl, missing⟩
  | cell index ih =>
      rw [evaluate] at failed
      split at failed
      · next address _ => exact .inl (Memory.read_blameless memory address fault failed)
      · next inner missed =>
          cases failed
          exact ih fault missed
  | binary left operator right before after =>
      rw [evaluate] at failed
      split at failed
      · next first _ =>
          split at failed
          · next second _ => exact .inl (Value.operate_blameless first operator second fault failed)
          · next inner missed =>
              cases failed
              exact unknown_of_subset _ _ _ _ (List.subset_append_right _ _) (after fault missed)
      · next inner missed =>
          cases failed
          exact unknown_of_subset _ _ _ _ (List.subset_append_left _ _) (before fault missed)

theorem condition_unknown (scope : Scope) (memory : Memory) (expr : Expr) (fault : Fault)
    (failed : expr.condition scope memory = .error fault) : Unknown scope expr.vars fault := by
  rw [condition] at failed
  split at failed
  · cases failed
  · cases failed
    exact .inl rfl
  · next inner missed =>
      cases failed
      exact evaluate_unknown scope memory expr fault missed

end Expr

namespace Target

theorem locate_unknown (scope : Scope) (memory : Memory) (target : Target) (fault : Fault)
    (failed : target.locate scope memory = .error fault) : Unknown scope target.vars fault := by
  cases target with
  | var name =>
      rw [locate] at failed
      split at failed
      · cases failed
      · next missing =>
          cases failed
          exact .inr ⟨name, List.mem_singleton_self name, rfl, Option.not_isSome_iff_eq_none.mp missing⟩
  | cell index =>
      rw [locate] at failed
      split at failed
      · next value _ =>
          cases found : Memory.address value with
          | ok cell =>
              rw [found] at failed
              cases failed
          | error inner =>
              rw [found] at failed
              cases failed
              exact .inl (Memory.address_blameless value fault found)
      · next inner missed =>
          cases failed
          exact Expr.evaluate_unknown scope memory index fault missed

end Target

namespace Scope

theorem find_declare (scope bound : Scope) (name query : String) (value : Value)
    (declared : scope.declare name value = .ok bound) :
    (bound.find query).isSome ↔ (scope.find query).isSome ∨ query = name := by
  rw [declare_insert] at declared
  split at declared
  · cases declared
  · cases declared
    rw [find_insert]
    by_cases same : name = query
    · simp [same]
    · simp [same, Ne.symm same]

end Scope

namespace Machine

theorem bind_params_failed (caller : Scope) (memory : Memory) (params : List String) (arguments : List Expr)
    (callee : Scope) (fault : Fault) (failed : bindParams caller memory params arguments callee = .error fault) :
    Unknown caller (arguments.flatMap Expr.vars) fault ∨
      ∃ name, fault = .alreadyDeclared name ∧
        ((callee.find name).isSome ∧ name ∈ params ∨ List.Duplicate name params) := by
  induction params generalizing arguments callee with
  | nil => cases failed
  | cons param params ih =>
      cases arguments with
      | nil => cases failed
      | cons argument arguments =>
          rw [bindParams] at failed
          split at failed
          · next value _ =>
              split at failed
              · next bound declared =>
                  rcases ih arguments bound failed with unknown | ⟨name, rfl, twice⟩
                  · exact .inl (unknown_of_subset _ _ _ _ (List.subset_append_right _ _) unknown)
                  · refine .inr ⟨name, rfl, ?_⟩
                    rcases twice with ⟨held, later⟩ | later
                    · rcases (Scope.find_declare callee bound param name value declared).mp held with before | same
                      · exact .inl ⟨before, List.mem_cons_of_mem param later⟩
                      · subst same
                        exact .inr (List.Mem.duplicate_cons_self later)
                    · exact .inr (later.duplicate_cons param)
              · next inner declared =>
                  cases failed
                  rw [Scope.declare_insert] at declared
                  split at declared
                  · next held =>
                      cases declared
                      exact .inr ⟨param, rfl, .inl ⟨held, List.mem_cons_self⟩⟩
                  · cases declared
          · next inner missed =>
              cases failed
              have unknown := Expr.evaluate_unknown caller memory argument fault missed
              exact .inl (unknown_of_subset _ _ _ _ (List.subset_append_left _ _) unknown)

theorem bind_params_find (caller : Scope) (memory : Memory) (params : List String) (arguments : List Expr)
    (callee bound : Scope) (count : params.length = arguments.length)
    (succeeded : bindParams caller memory params arguments callee = .ok bound) (name : String) :
    (bound.find name).isSome ↔ (callee.find name).isSome ∨ name ∈ params := by
  induction params generalizing arguments callee with
  | nil =>
      cases succeeded
      simp
  | cons param params ih =>
      cases arguments with
      | nil => cases count
      | cons argument arguments =>
          rw [bindParams] at succeeded
          split at succeeded
          · next value _ =>
              split at succeeded
              · next between declared =>
                  rw [ih arguments between (Nat.succ.inj count) succeeded,
                    Scope.find_declare callee between param name value declared, List.mem_cons, or_assoc]
              · cases succeeded
          · cases succeeded

end Machine

end Offside
