import Offside.Error

set_option autoImplicit false

namespace Offside

def Memory.capacity : Nat := 10000

structure Memory where
  cells : Array Value
  sized : cells.size = Memory.capacity

namespace Memory

def blank : Memory := ⟨Array.replicate capacity Value.blank, Array.size_replicate⟩

def address : Value → Except Fault Nat
  | .integer index =>
      if 0 ≤ index ∧ index.toInt.toNat < capacity then .ok index.toInt.toNat else .error (.indexOutOfRange index)
  | .text _ | .boolean _ => .error .indexNotInteger

def fetch (memory : Memory) (cell : Nat) : Value := memory.cells.getD cell Value.blank

def store (memory : Memory) (cell : Nat) (value : Value) : Memory :=
  ⟨memory.cells.setIfInBounds cell value, Array.size_setIfInBounds.trans memory.sized⟩

def read (memory : Memory) (index : Value) : Except Fault Value := (address index).map memory.fetch

theorem address_bounded (index : Value) (cell : Nat) (found : address index = .ok cell) : cell < capacity := by
  unfold address at found
  split at found
  · split at found
    · next inside =>
        cases found
        exact inside.2
    · cases found
  · cases found
  · cases found

theorem fetch_store_same (memory : Memory) (cell : Nat) (value : Value) (bounded : cell < capacity) :
    (memory.store cell value).fetch cell = value := by
  simp [store, fetch, memory.sized, bounded, Array.getD]

theorem fetch_store_other (memory : Memory) (cell other : Nat) (value : Value) (different : cell ≠ other) :
    (memory.store cell value).fetch other = memory.fetch other := by
  simp [store, fetch, different]

end Memory

end Offside
