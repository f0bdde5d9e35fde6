import Offside.Table
import Offside.Value

set_option autoImplicit false

namespace Offside

abbrev Frame := Table Value

-- The frames that are visible at a point of a run: the innermost one, and those around it from the inside outwards.
structure Scope where
  innermost : Frame
  outer : List Frame

namespace Scope

def empty : Scope := ⟨.empty, []⟩

def frames (scope : Scope) : List Frame := scope.innermost :: scope.outer

def depth (scope : Scope) : Nat := scope.frames.length

def findIn (name : String) (frames : List Frame) : Option Value := frames.findSome? (Table.find name)

def find (scope : Scope) (name : String) : Option Value := findIn name scope.frames

def insert (scope : Scope) (name : String) (value : Value) : Scope :=
  { scope with innermost := Table.put name value scope.innermost }

def updateIn (name : String) (value : Value) : List Frame → List Frame
  | [] => []
  | frame :: rest =>
      if (Table.find name frame).isSome then Table.put name value frame :: rest
      else frame :: updateIn name value rest

def update (scope : Scope) (name : String) (value : Value) : Scope :=
  if (Table.find name scope.innermost).isSome then scope.insert name value
  else { scope with outer := updateIn name value scope.outer }

def extend (scope : Scope) : Scope := ⟨.empty, scope.frames⟩

-- Gives up the innermost frame, unless it is the only one.
def leave (scope : Scope) : Scope :=
  match scope.outer with
  | [] => scope
  | innermost :: outer => ⟨innermost, outer⟩

theorem frames_insert (scope : Scope) (name : String) (value : Value) :
    (scope.insert name value).frames = Table.put name value scope.innermost :: scope.outer := rfl

theorem frames_update (scope : Scope) (name : String) (value : Value) :
    (scope.update name value).frames = updateIn name value scope.frames := by
  rw [update, frames, frames, updateIn]
  split <;> rfl

theorem find_insert (scope : Scope) (name query : String) (value : Value) :
    (scope.insert name value).find query = if name = query then some value else scope.find query := by
  rw [find, frames_insert, findIn, List.findSome?_cons, Table.find_put]
  by_cases same : name = query
  · rw [if_pos same, if_pos same]
  · rw [if_neg same, if_neg same]
    rfl

theorem find_update_in (name query : String) (value : Value) (frames : List Frame) :
    findIn query (updateIn name value frames) =
      if name = query then (findIn name frames).map fun _ => value else findIn query frames := by
  induction frames with
  | nil => simp [findIn, updateIn]
  | cons frame rest ih =>
      simp only [findIn, updateIn, List.findSome?_cons] at ih ⊢
      split
      · next held =>
          rw [List.findSome?_cons, Table.find_put]
          by_cases same : name = query
          · subst same
            obtain ⟨old, found⟩ := Option.isSome_iff_exists.mp held
            simp [found]
          · simp [same]
      · next absent =>
          rw [List.findSome?_cons, ih]
          by_cases same : name = query
          · subst same
            simp [Option.not_isSome_iff_eq_none.mp absent]
          · simp [same]

theorem find_update (scope : Scope) (name query : String) (value : Value) :
    (scope.update name value).find query =
      if name = query then (scope.find name).map fun _ => value else scope.find query := by
  rw [find, frames_update, find_update_in, find, find]

theorem names_update_in (name : String) (value : Value) (frames : List Frame) :
    (updateIn name value frames).map Table.names = frames.map Table.names := by
  induction frames with
  | nil => rfl
  | cons frame rest ih =>
      rw [updateIn]
      split
      · next held =>
          have present := (Table.find_is_some name frame).mp held
          rw [List.map_cons, List.map_cons, Table.names_put, if_pos present]
      · rw [List.map_cons, List.map_cons, ih]

end Scope

end Offside
