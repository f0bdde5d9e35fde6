import Mathlib.Data.List.Basic
import Offside.Scope

set_option autoImplicit false

namespace Offside.Scope

def names (scope : Scope) : List (List String) := scope.frames.map Table.names

theorem find_names (scope : Scope) (name : String) : (scope.find name).isSome ↔ name ∈ scope.names.flatten := by
  simp only [find, findIn, names, List.findSome?_isSome_iff, List.mem_flatten, List.mem_map, exists_exists_and_eq_and,
    Table.find_is_some]

theorem names_update (scope : Scope) (name : String) (value : Value) : (scope.update name value).names = scope.names := by
  rw [names, frames_update, names_update_in, names]

theorem names_insert (scope : Scope) (name query : String) (value : Value) :
    query ∈ (scope.insert name value).names.flatten ↔
      query = name ∨ query ∈ scope.names.flatten := by
  rw [names, names, frames_insert, frames]
  simp only [List.map_cons, List.flatten_cons, List.mem_append, Table.names_put]
  by_cases held : name ∈ Table.names scope.innermost
  · rw [if_pos held]
    constructor
    · exact .inr
    · rintro (rfl | either)
      · exact .inl held
      · exact either
  · rw [if_neg held, List.mem_append, List.mem_singleton, or_right_comm, or_comm]

theorem names_leave (scope : Scope) (nested : scope.names.tail ≠ []) : scope.leave.names = scope.names.tail := by
  obtain ⟨innermost, outer⟩ := scope
  cases outer with
  | nil => exact absurd rfl nested
  | cons frame frames => rfl

theorem names_left (scope around : Scope) (outer : scope.names.tail = around.names) : scope.leave.names = around.names := by
  rw [← outer]
  apply names_leave
  rw [outer]
  exact List.cons_ne_nil _ _

def namesAfter (scope : Scope) (more : List String) : List (List String) :=
  (Table.names scope.innermost ++ more) :: scope.outer.map Table.names

theorem names_after_nothing (scope : Scope) : scope.namesAfter [] = scope.names := by
  rw [namesAfter, List.append_nil, names, frames, List.map_cons]

theorem names_after_more (scope after : Scope) (first more : List String) (names : after.names = scope.namesAfter first) :
    after.namesAfter more = scope.namesAfter (first ++ more) := by
  obtain ⟨innermost, outer⟩ := List.cons.inj names
  rw [namesAfter, namesAfter, innermost, outer, List.append_assoc]

theorem names_after_same (scope after : Scope) (more : List String) (names : after.names = scope.names) :
    after.namesAfter more = scope.namesAfter more :=
  names_after_more scope after [] more (names.trans scope.names_after_nothing.symm)

theorem names_declare (scope : Scope) (name : String) (value : Value) (absent : scope.find name = none) :
    (scope.insert name value).names = scope.namesAfter [name] := by
  have fresh : name ∉ Table.names scope.innermost := by
    intro held
    have present := (scope.find_names name).mpr (List.mem_append_left _ held)
    rw [absent] at present
    cases present
  rw [names, frames_insert, List.map_cons, Table.names_put, if_neg fresh, namesAfter]

end Offside.Scope
