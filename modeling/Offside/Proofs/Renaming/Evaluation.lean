import Offside.Proofs.Decisions
import Offside.Proofs.Frames
import Offside.Proofs.Renaming.Syntax
import Offside.Proofs.Renaming.Tables
import Offside.Proofs.Runs

set_option autoImplicit false

namespace Offside

def Fault.relabel (map : String → String) : Fault → Fault
  | .notDeclared name => .notDeclared (map name)
  | .alreadyDeclared name => .alreadyDeclared (map name)
  | fault => fault

theorem Fault.relabel_blameless {Result : Type} (map : String → String) (result : Except Fault Result)
    (blameless : ∀ fault, result = .error fault → fault.blamed = none) :
    result.mapError (Fault.relabel map) = result := by
  cases result with
  | ok value => rfl
  | error fault =>
      have none := blameless fault rfl
      cases fault with
      | notDeclared name => cases none
      | alreadyDeclared name => cases none
      | _ => rfl

namespace Scope

def relabel (map : String → String) (scope : Scope) : Scope :=
  ⟨Table.rekey map scope.innermost, scope.outer.map (Table.rekey map)⟩

def Apart (map : String → String) (scope : Scope) (name : String) : Prop :=
  ∀ key ∈ scope.names.flatten, map key = map name → key = name

theorem find_in_rekey (map : String → String) (name : String) (frames : List Frame)
    (apart : ∀ frame ∈ frames, ∀ key ∈ Table.names frame, map key = map name → key = name) :
    findIn (map name) (frames.map (Table.rekey map)) = findIn name frames := by
  induction frames with
  | nil => rfl
  | cons frame rest ih =>
      obtain ⟨first, others⟩ := List.forall_mem_cons.mp apart
      have inner := ih others
      simp only [findIn, List.map_cons, List.findSome?_cons] at inner ⊢
      rw [Table.find_rekey map name frame first, inner]

theorem update_in_rekey (map : String → String) (name : String) (value : Value) (frames : List Frame)
    (apart : ∀ frame ∈ frames, ∀ key ∈ Table.names frame, map key = map name → key = name) :
    updateIn (map name) value (frames.map (Table.rekey map)) = (updateIn name value frames).map (Table.rekey map) := by
  induction frames with
  | nil => rfl
  | cons frame rest ih =>
      obtain ⟨first, others⟩ := List.forall_mem_cons.mp apart
      rw [List.map_cons, updateIn, updateIn, Table.find_rekey map name frame first]
      split
      · rw [Table.put_rekey map name value frame first, List.map_cons]
      · rw [ih others, List.map_cons]

theorem apart_frames (map : String → String) (scope : Scope) (name : String) (apart : scope.Apart map name) :
    ∀ frame ∈ scope.frames, ∀ key ∈ Table.names frame, map key = map name → key = name := by
  intro frame member key present
  exact apart key (List.mem_flatten.mpr ⟨_, List.mem_map_of_mem member, present⟩)

variable (map : String → String) (scope : Scope) (name : String)

theorem find_relabel (apart : scope.Apart map name) : (scope.relabel map).find (map name) = scope.find name :=
  find_in_rekey map name scope.frames (scope.apart_frames map name apart)

theorem insert_relabel (value : Value) (apart : scope.Apart map name) :
    (scope.relabel map).insert (map name) value = (scope.insert name value).relabel map := by
  obtain ⟨first, _⟩ := List.forall_mem_cons.mp (scope.apart_frames map name apart)
  rw [insert, insert, relabel, relabel, Table.put_rekey map name value scope.innermost first]

theorem update_relabel (value : Value) (apart : scope.Apart map name) :
    (scope.relabel map).update (map name) value = (scope.update name value).relabel map := by
  obtain ⟨first, others⟩ := List.forall_mem_cons.mp (scope.apart_frames map name apart)
  have held : (Table.find (map name) (scope.relabel map).innermost) = Table.find name scope.innermost :=
    Table.find_rekey map name scope.innermost first
  rw [update, update, held]
  split
  · exact insert_relabel map scope name value apart
  · rw [relabel, relabel, update_in_rekey map name value scope.outer others]

theorem declare_relabel (value : Value) (apart : scope.Apart map name) :
    (scope.relabel map).declare (map name) value =
      ((scope.declare name value).map (relabel map)).mapError (Fault.relabel map) := by
  rw [declare_insert, declare_insert, find_relabel map scope name apart]
  split
  · rfl
  · rw [insert_relabel map scope name value apart]
    rfl

theorem assign_relabel (value : Value) (apart : scope.Apart map name) :
    (scope.relabel map).assign (map name) value =
      ((scope.assign name value).map (relabel map)).mapError (Fault.relabel map) := by
  rw [assign_update, assign_update, find_relabel map scope name apart]
  split
  · rw [update_relabel map scope name value apart]
    rfl
  · rfl

theorem leave_relabel : (scope.relabel map).leave = scope.leave.relabel map := by
  obtain ⟨innermost, outer⟩ := scope
  cases outer <;> rfl

end Scope

namespace Expr

variable (map : String → String) (scope : Scope) (memory : Memory)

theorem evaluate_relabel (expr : Expr) (apart : ∀ name ∈ expr.vars, scope.Apart map name) :
    (expr.rename map).evaluate (scope.relabel map) memory = (expr.evaluate scope memory).mapError (Fault.relabel map) := by
  induction expr with
  | text value => rfl
  | integer value => rfl
  | boolean value => rfl
  | var name =>
      rw [rename, evaluate, evaluate, Scope.lookup_find, Scope.lookup_find,
        scope.find_relabel map name (apart name (List.mem_singleton_self name))]
      cases scope.find name <;> rfl
  | cell index ih =>
      rw [rename, evaluate, evaluate, ih apart]
      cases index.evaluate scope memory with
      | error fault => rfl
      | ok address => exact (Fault.relabel_blameless map (memory.read address) (memory.read_blameless address)).symm
  | binary left operator right before after =>
      obtain ⟨inLeft, inRight⟩ := List.forall_mem_append.mp apart
      rw [rename, evaluate, evaluate, before inLeft, after inRight]
      cases left.evaluate scope memory with
      | error fault => rfl
      | ok first =>
          cases right.evaluate scope memory with
          | error fault => rfl
          | ok second =>
              exact (Fault.relabel_blameless map (first.operate operator second) (first.operate_blameless operator second)).symm

theorem condition_relabel (expr : Expr) (apart : ∀ name ∈ expr.vars, scope.Apart map name) :
    (expr.rename map).condition (scope.relabel map) memory = (expr.condition scope memory).mapError (Fault.relabel map) := by
  rw [condition, condition, evaluate_relabel map scope memory expr apart]
  cases expr.evaluate scope memory with
  | error fault => rfl
  | ok value => cases value <;> rfl

end Expr

def Place.relabel (map : String → String) : Place → Place
  | .var name => .var (map name)
  | .cell address => .cell address

namespace Target

theorem locate_relabel (map : String → String) (scope : Scope) (memory : Memory) (target : Target)
    (apart : ∀ name ∈ target.vars, scope.Apart map name) :
    (target.rename map).locate (scope.relabel map) memory =
      ((target.locate scope memory).map (Place.relabel map)).mapError (Fault.relabel map) := by
  cases target with
  | var name =>
      rw [rename, locate, locate, scope.find_relabel map name (apart name (List.mem_singleton_self name))]
      cases (scope.find name).isSome <;> rfl
  | cell index =>
      rw [rename, locate, locate, index.evaluate_relabel map scope memory apart]
      cases index.evaluate scope memory with
      | error fault => rfl
      | ok value =>
          have kept := Fault.relabel_blameless map (Memory.address value) (Memory.address_blameless value)
          dsimp only [Except.mapError]
          cases found : Memory.address value with
          | ok address => rfl
          | error fault =>
              rw [found] at kept
              exact congrArg (Except.map Place.cell) kept.symm

theorem locate_var (scope : Scope) (memory : Memory) (target : Target) (name : String)
    (found : target.locate scope memory = .ok (.var name)) : target = .var name := by
  cases target with
  | var own =>
      rw [locate] at found
      split at found
      · cases found
        rfl
      · cases found
  | cell index =>
      rw [locate] at found
      split at found
      · next value _ =>
          cases address : Memory.address value with
          | ok cell =>
              rw [address] at found
              cases found
          | error fault =>
              rw [address] at found
              cases found
      · cases found

end Target

end Offside
