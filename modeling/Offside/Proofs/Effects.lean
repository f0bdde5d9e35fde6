import Offside.Proofs.Chunks
import Offside.Proofs.Deeds

set_option autoImplicit false

namespace Offside

namespace Device

inductive Gives (c : Char) : Device → Device → Prop where
  | script (rest : List Char) : Gives c (.script (c :: rest)) (.script rest)
  | bytes (rest : List UInt8) : Gives c (.bytes (String.utf8EncodeChar c ++ rest)) (.bytes rest)

theorem read_gives (device : Device) (c : Char) (answered : device.read.1 = .ok c) : device.Gives c device.read.2 := by
  cases device with
  | script pending =>
      cases pending with
      | nil => cases answered
      | cons first rest =>
          cases answered
          exact .script rest
  | bytes pending =>
      cases pending with
      | nil => cases answered
      | cons lead rest =>
          obtain ⟨chunk, left, split, faithful, result, _⟩ := read_chunk lead rest
          rw [result] at answered ⊢
          rw [split]
          cases faithful with
          | character found =>
              cases answered
              exact .bytes left
          | alien => cases answered
          | short => cases answered

end Device

namespace Scope

-- The innermost of the frames that hold a variable has another value for it, and all else is the same.
def Overwrites (name : String) (value : Value) (earlier later : Scope) : Prop :=
  ∃ inner frame changed outer, earlier.frames = inner ++ frame :: outer ∧ later.frames = inner ++ changed :: outer ∧
    (∀ passed ∈ inner, Table.find name passed = none) ∧ (Table.find name frame).isSome ∧
    Table.find name changed = some value ∧ ∀ other, other ≠ name → Table.find other changed = Table.find other frame

theorem update_in_overwrites (name : String) (value : Value) (frames : List Frame) (held : (findIn name frames).isSome) :
    ∃ inner frame outer, frames = inner ++ frame :: outer ∧
      updateIn name value frames = inner ++ Table.put name value frame :: outer ∧
      (∀ passed ∈ inner, Table.find name passed = none) ∧ (Table.find name frame).isSome := by
  induction frames with
  | nil => cases held
  | cons frame rest ih =>
      by_cases here : (Table.find name frame).isSome
      · exact ⟨[], frame, rest, rfl, by simp [updateIn, here], List.forall_mem_nil _, here⟩
      · have absent : Table.find name frame = none := Option.not_isSome_iff_eq_none.mp here
        have further : (findIn name rest).isSome := by simpa [findIn, absent] using held
        obtain ⟨inner, found, outer, split, updated, passed, present⟩ := ih further
        refine ⟨frame :: inner, found, outer, by rw [split, List.cons_append], ?_, ?_, present⟩
        · rw [updateIn, if_neg here, updated, List.cons_append]
        · exact List.forall_mem_cons.mpr ⟨absent, passed⟩

theorem update_overwrites (scope : Scope) (name : String) (value : Value) (held : (scope.find name).isSome) :
    scope.Overwrites name value (scope.update name value) := by
  obtain ⟨inner, frame, outer, split, updated, passed, present⟩ := update_in_overwrites name value scope.frames held
  refine ⟨inner, frame, _, outer, split, by rw [frames_update, updated], passed, present, ?_, ?_⟩
  · simp [Table.find_put]
  · intro other different
    simp [Table.find_put, Ne.symm different]

end Scope

def Memory.Overwrites (cell : Nat) (value : Value) (earlier later : Memory) : Prop :=
  later.cells.size = earlier.cells.size ∧ later.fetch cell = value ∧
    ∀ other, other ≠ cell → later.fetch other = earlier.fetch other

theorem Memory.store_overwrites (memory : Memory) (cell : Nat) (value : Value) (bounded : cell < capacity) :
    memory.Overwrites cell value (memory.store cell value) :=
  ⟨(memory.store cell value).sized.trans memory.sized.symm, memory.fetch_store_same cell value bounded,
    fun other different => memory.fetch_store_other cell other value (Ne.symm different)⟩

def Head.stores : Head → Option Target
  | .read target | .assign target _ => some target
  | .log _ | .declare _ _ | .branch _ | .loop _ | .define _ _ | .call _ _ _ | .give _ => none

-- A target has another value. Its index, if it has one, is what it was before anything was written.
def Target.Alters (scope later : Scope) (memory changed : Memory) (value : Value) : Target → Prop
  | .var name => scope.Overwrites name value later ∧ changed = memory
  | .cell index => later = scope ∧ ∃ pointer cell, index.evaluate scope memory = .ok pointer ∧
      Memory.address pointer = .ok cell ∧ memory.Overwrites cell value changed

namespace Machine

structure Untouched (before after : Machine) : Prop where
  scope : after.scope = before.scope
  pending : after.pending = before.pending
  memory : after.world.memory = before.world.memory
  programs : after.world.programs = before.world.programs
  output : after.world.output = before.world.output

structure Stores (before after : Machine) (value : Value) (target : Target) : Prop where
  altered : target.Alters before.scope after.scope before.world.memory after.world.memory value
  pending : after.pending = before.pending
  programs : after.world.programs = before.world.programs
  output : after.world.output = before.world.output

-- A character that is read is used up. No other command takes any input.
def Spends (machine : Machine) (left : Device) : Head → Prop
  | .read _ => ∃ c, machine.world.device.Gives c left
  | _ => left = machine.world.device

def Brings (machine : Machine) (left : Device) (value : Value) : Head → Prop
  | .assign _ expr => expr.evaluate machine.scope machine.world.memory = .ok value ∧ left = machine.world.device
  | .read _ => ∃ c, value = .text (String.singleton c) ∧ machine.world.device.Gives c left
  | _ => False

theorem consume_untouched (machine : Machine) (head : Head) : machine.Untouched (machine.consume head) := by
  cases head <;> exact ⟨rfl, rfl, rfl, rfl, rfl⟩

theorem consume_spends (machine : Machine) (head : Head) (fault : Fault)
    (failed : Deed.ofHead machine.scope machine.world head = .fail fault) :
    machine.Spends (machine.consume head).world.device head := by
  cases head with
  | read target =>
      cases answered : machine.world.device.read.1 with
      | error cause =>
          rw [Deed.ofHead, answered] at failed
          cases failed
      | ok c => exact ⟨c, Device.read_gives _ c answered⟩
  | _ => exact rfl

theorem perform_failed (machine : Machine) (command : Command) (rest : List Command) (deed : Deed) (line : Nat) (fault : Fault)
    (failed : (machine.perform command rest deed).control = .done (.failed (.fault line fault))) :
    line = command.line ∧ deed = .fail fault := by
  cases deed with
  | fail cause =>
      cases failed
      exact ⟨rfl, rfl⟩
  | write place value => cases place <;> cases failed
  | _ => cases failed

theorem execute_failed (machine : Machine) (command : Command) (rest : List Command) (line : Nat) (fault : Fault)
    (failed : (machine.execute command rest).control = .done (.failed (.fault line fault))) :
    line = command.line ∧ machine.Untouched (machine.execute command rest) ∧
      machine.Spends (machine.execute command rest).world.device command.head := by
  rw [execute_perform] at failed ⊢
  obtain ⟨rfl, deed⟩ := perform_failed _ command rest _ line fault failed
  have same := machine.consume_untouched command.head
  rw [deed]
  refine ⟨rfl, ?_, machine.consume_spends command.head fault deed⟩
  exact ⟨same.scope, same.pending, same.memory, same.programs, same.output⟩

theorem of_head_stores (machine : Machine) (head : Head) (target : Target) (stores : head.stores = some target) :
    (∃ place value, Deed.ofHead machine.scope machine.world head = .write place value ∧
        target.locate machine.scope machine.world.memory = .ok place ∧
        machine.Brings (machine.consume head).world.device value head) ∨
      (∃ fault, Deed.ofHead machine.scope machine.world head = .fail fault) ∨
      ∃ cause, Deed.ofHead machine.scope machine.world head = .starve cause := by
  cases head with
  | read goal =>
      cases stores
      rw [Deed.ofHead]
      cases answered : machine.world.device.read.1 with
      | error cause => exact .inr (.inr ⟨cause, rfl⟩)
      | ok c =>
          rw [Deed.ofRead]
          cases found : target.locate machine.scope machine.world.memory with
          | error fault => exact .inr (.inl ⟨fault, rfl⟩)
          | ok place => exact .inl ⟨place, _, rfl, rfl, c, rfl, Device.read_gives _ c answered⟩
  | assign goal expr =>
      cases stores
      rw [Deed.ofHead]
      cases evaluated : expr.evaluate machine.scope machine.world.memory with
      | error fault => exact .inr (.inl ⟨fault, rfl⟩)
      | ok value =>
          rw [Deed.ofResult]
          cases found : target.locate machine.scope machine.world.memory with
          | error fault => exact .inr (.inl ⟨fault, rfl⟩)
          | ok place => exact .inl ⟨place, value, rfl, rfl, evaluated, rfl⟩
  | _ => cases stores

theorem write_stores (machine : Machine) (target : Target) (place : Place) (value : Value)
    (found : target.locate machine.scope machine.world.memory = .ok place) :
    machine.Stores (machine.write place value) value target := by
  cases target with
  | var name =>
      by_cases held : (machine.scope.find name).isSome
      · rw [Target.locate, if_pos held] at found
        cases found
        exact ⟨⟨machine.scope.update_overwrites name value held, rfl⟩, rfl, rfl, rfl⟩
      · rw [Target.locate, if_neg held] at found
        cases found
  | cell index =>
      rw [Target.locate] at found
      cases evaluated : index.evaluate machine.scope machine.world.memory with
      | error fault =>
          rw [evaluated] at found
          cases found
      | ok pointer =>
          simp only [evaluated] at found
          cases addressed : Memory.address pointer with
          | error fault =>
              rw [addressed] at found
              cases found
          | ok cell =>
              rw [addressed] at found
              cases found
              have bounded := Memory.address_bounded pointer cell addressed
              have stored := machine.world.memory.store_overwrites cell value bounded
              exact ⟨⟨rfl, pointer, cell, evaluated, addressed, stored⟩, rfl, rfl, rfl⟩

theorem execute_stored (machine : Machine) (command : Command) (rest : List Command) (target : Target)
    (stores : command.head.stores = some target) (code : List Command) (succeeded : (machine.execute command rest).control = .run code) :
    code = rest ∧ ∃ value, machine.Brings (machine.execute command rest).world.device value command.head ∧
      machine.Stores (machine.execute command rest) value target := by
  rw [execute_perform] at succeeded ⊢
  rcases machine.of_head_stores command.head target stores with
    ⟨place, value, deed, found, brought⟩ | ⟨fault, deed⟩ | ⟨cause, deed⟩
  · have same := machine.consume_untouched command.head
    have written := (machine.consume command.head).write_stores target place value
    rw [same.memory, same.scope] at written
    obtain ⟨altered, pending, programs, output⟩ := written found
    rw [same.memory, same.scope] at altered
    rw [deed] at succeeded ⊢
    cases succeeded
    have left : (machine.consume command.head).world.device =
        ((machine.consume command.head).write place value).world.device := by
      cases place <;> rfl
    rw [left] at brought
    refine ⟨rfl, value, brought, altered, ?_, ?_, ?_⟩
    · exact pending.trans same.pending
    · exact programs.trans same.programs
    · exact output.trans same.output
  · rw [deed] at succeeded
    cases succeeded
  · rw [deed] at succeeded
    cases succeeded

/-- A command that fails, without a block or a body entered, leaves no trace but the character that it has read. One
that stores a value and succeeds changes its target and nothing else. -/
theorem execute_effects (machine : Machine) (command : Command) (rest : List Command) :
    (∀ line fault, (machine.execute command rest).control = .done (.failed (.fault line fault)) →
        line = command.line ∧ machine.Untouched (machine.execute command rest) ∧
          machine.Spends (machine.execute command rest).world.device command.head) ∧
      ∀ target code, command.head.stores = some target → (machine.execute command rest).control = .run code →
        code = rest ∧ ∃ value, machine.Brings (machine.execute command rest).world.device value command.head ∧
          machine.Stores (machine.execute command rest) value target :=
  ⟨machine.execute_failed command rest,
    fun target code stores => machine.execute_stored command rest target stores code⟩

theorem execute_effects_self :
    let memory := Memory.blank.store 0 (.integer 0)
    let machine : Machine := ⟨.run [], .empty, [], ⟨memory, .empty, "", .script ['a', 'b']⟩⟩
    let write : Command := ⟨1, .assign (.cell (.cell (.integer 0))) (.integer 5), []⟩
    let read : Command := ⟨2, .read (.var "x"), []⟩
    memory.Overwrites 0 (.integer 5) (machine.execute write []).world.memory ∧
      (machine.execute read []).world.memory = memory ∧ (machine.execute read []).world.device = .script ['b'] := by
  intro memory machine write read
  have first : memory.fetch 0 = .integer 0 := Memory.fetch_store_same _ 0 _ (by decide)
  have address : Memory.address (.integer 0) = .ok 0 := by decide
  have pointed : (Expr.cell (.integer 0)).evaluate machine.scope memory = .ok (.integer 0) := by
    change (Memory.address (.integer 0)).map memory.fetch = .ok (.integer 0)
    rw [address, Except.map, first]
  have located : (Target.cell (.cell (.integer 0))).locate machine.scope memory = .ok (.cell 0) := by
    rw [Target.locate, pointed]
    rfl
  have running : (machine.execute write []).control = .run [] := by
    change (machine.assign 1 (.cell (.cell (.integer 0))) (.integer 5) []).control = .run []
    rw [assign, located]
    rfl
  have failing : (machine.execute read []).control = .done (.failed (.fault 2 (.notDeclared "x"))) := rfl
  obtain ⟨_, value, ⟨brought, _⟩, stored⟩ := (machine.execute_effects write []).2 _ [] rfl running
  obtain ⟨_, pointer, cell, evaluated, addressed, overwritten⟩ := stored.altered
  cases brought
  cases evaluated.symm.trans pointed
  cases addressed.symm.trans address
  obtain ⟨_, untouched, c, given⟩ := (machine.execute_effects read []).1 2 _ failing
  refine ⟨overwritten, untouched.memory, ?_⟩
  cases given
  rfl

end Machine

end Offside
