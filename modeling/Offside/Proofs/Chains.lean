import Offside.Scope.Access

set_option autoImplicit false

namespace Offside

inductive Action where
  | extend
  | leave
  | declare (name : String) (value : Value)
  | assign (name : String) (value : Value)
  | lookup (name : String)

namespace Action

abbrev Answer := Except Fault (Option Value)

def settle {State : Type} (before : State) : Except Fault State → Answer × State
  | .ok after => (.ok none, after)
  | .error fault => (.error fault, before)

def through {State : Type} (act : State → Action → Answer × State) : State → List Action → List Answer × State
  | state, [] => ([], state)
  | state, action :: more =>
      match act state action with
      | (answer, next) =>
          match through act next more with
          | (answers, last) => (answer :: answers, last)

theorem through_append {State : Type} (act : State → Action → Answer × State) (state : State) (front back : List Action) :
    (through act state (front ++ back)).2 = (through act (through act state front).2 back).2 := by
  induction front generalizing state with
  | nil => rfl
  | cons action front ih => exact ih (act state action).2

theorem through_related {State Other : Type} (act : State → Action → Answer × State) (twin : Other → Action → Answer × Other)
    (Related : State → Other → Prop)
    (step : ∀ state other, Related state other → ∀ action,
      (act state action).1 = (twin other action).1 ∧ Related (act state action).2 (twin other action).2)
    (actions : List Action) (state : State) (other : Other) (related : Related state other) :
    (through act state actions).1 = (through twin other actions).1 ∧
      Related (through act state actions).2 (through twin other actions).2 := by
  induction actions generalizing state other with
  | nil => exact ⟨rfl, related⟩
  | cons action more ih =>
      obtain ⟨answer, next⟩ := step state other related action
      obtain ⟨answers, last⟩ := ih _ _ next
      refine ⟨?_, last⟩
      change (act state action).1 :: _ = (twin other action).1 :: _
      rw [answer]
      exact congrArg _ answers

end Action

abbrev Bindings := String → Option Value

namespace Bindings

def none : Bindings := fun _ => Option.none

def set (name : String) (value : Value) (frame : Bindings) : Bindings :=
  fun query => if name = query then some value else frame query

def insertIn (name : String) (value : Value) : List Bindings → List Bindings
  | [] => []
  | frame :: outer => frame.set name value :: outer

def updateIn (name : String) (value : Value) : List Bindings → List Bindings
  | [] => []
  | frame :: outer => if (frame name).isSome then frame.set name value :: outer else frame :: updateIn name value outer

def leaveIn : List Bindings → List Bindings
  | [] => []
  | [frame] => [frame]
  | _ :: outer => outer

end Bindings

namespace FrameChain

variable {Chain Other : Type} [FrameChain Chain] [FrameChain Other]

def act (chain : Chain) : Action → Action.Answer × Chain
  | .extend => (.ok none, extend chain)
  | .leave => (.ok none, leave chain)
  | .declare name value => Action.settle chain (declare chain name value)
  | .assign name value => Action.settle chain (assign chain name value)
  | .lookup name => ((lookup chain name).map some, chain)

-- What is relied on of a chain whose frames, from the inside outwards, are these.
structure Lawful (frames : Chain → List Bindings) : Prop where
  empty : frames FrameChain.empty = [.none]
  find : ∀ chain name, FrameChain.find chain name = (frames chain).findSome? fun frame => frame name
  insert : ∀ chain name value, frames (FrameChain.insert chain name value) = Bindings.insertIn name value (frames chain)
  update : ∀ chain name value, frames (FrameChain.update chain name value) = Bindings.updateIn name value (frames chain)
  extend : ∀ chain, frames (FrameChain.extend chain) = .none :: frames chain
  leave : ∀ chain, frames (FrameChain.leave chain) = Bindings.leaveIn (frames chain)

theorem act_alike (frames : Chain → List Bindings) (others : Other → List Bindings) (lawful : Lawful frames)
    (further : Lawful others) (chain : Chain) (other : Other) (same : frames chain = others other) (action : Action) :
    (act chain action).1 = (act other action).1 ∧ frames (act chain action).2 = others (act other action).2 := by
  have found : ∀ name, find chain name = find other name := by
    intro name
    rw [lawful.find, further.find, same]
  cases action with
  | extend => exact ⟨rfl, by rw [act, act, lawful.extend, further.extend, same]⟩
  | leave => exact ⟨rfl, by rw [act, act, lawful.leave, further.leave, same]⟩
  | declare name value =>
      rw [act, act, declare, declare, found name]
      by_cases held : (find other name).isSome
      · rw [if_pos held, if_pos held]
        exact ⟨rfl, same⟩
      · rw [if_neg held, if_neg held]
        exact ⟨rfl, by rw [Action.settle, Action.settle, lawful.insert, further.insert, same]⟩
  | assign name value =>
      rw [act, act, assign, assign, found name]
      by_cases held : (find other name).isSome
      · rw [if_pos held, if_pos held]
        exact ⟨rfl, by rw [Action.settle, Action.settle, lawful.update, further.update, same]⟩
      · rw [if_neg held, if_neg held]
        exact ⟨rfl, same⟩
  | lookup name => exact ⟨by rw [act, act, lookup, lookup, found name], same⟩

/-- Whatever a chain is made of, its laws settle what it answers. -/
theorem through_alike (frames : Chain → List Bindings) (others : Other → List Bindings) (lawful : Lawful frames)
    (further : Lawful others) (actions : List Action) (chain : Chain) (other : Other) (same : frames chain = others other) :
    (Action.through act chain actions).1 = (Action.through act other actions).1 ∧
      frames (Action.through act chain actions).2 = others (Action.through act other actions).2 :=
  Action.through_related act act (fun chain other => frames chain = others other)
    (act_alike frames others lawful further) actions chain other same

end FrameChain

namespace Scope

def bindings (scope : Scope) : List Bindings := scope.frames.map fun frame name => Table.find name frame

theorem bindings_put (frame : Frame) (name : String) (value : Value) :
    (fun query => Table.find query (Table.put name value frame)) = Bindings.set name value fun query => Table.find query frame := by
  funext query
  exact Table.find_put name query value frame

theorem bindings_update_in (name : String) (value : Value) (frames : List Frame) :
    (updateIn name value frames).map (fun frame query => Table.find query frame) =
      Bindings.updateIn name value (frames.map fun frame query => Table.find query frame) := by
  induction frames with
  | nil => rfl
  | cons frame outer ih =>
      rw [updateIn, List.map_cons, Bindings.updateIn]
      split
      · rw [List.map_cons, bindings_put]
      · rw [List.map_cons, ih]

theorem bindings_lawful : FrameChain.Lawful bindings := by
  refine ⟨rfl, ?_, ?_, ?_, fun _ => rfl, ?_⟩
  · intro scope name
    rw [bindings, List.findSome?_map]
    rfl
  · intro scope name value
    exact congrArg (· :: _) (bindings_put scope.innermost name value)
  · intro scope name value
    change (scope.update name value).frames.map _ = _
    rw [frames_update, bindings_update_in]
    rfl
  · rintro ⟨innermost, outer⟩
    cases outer <;> rfl

def act (scope : Scope) : Action → Action.Answer × Scope := FrameChain.act scope

theorem act_declare (scope : Scope) (name : String) (value : Value) :
    scope.act (.declare name value) = Action.settle scope (scope.declare name value) := rfl

theorem act_assign (scope : Scope) (name : String) (value : Value) :
    scope.act (.assign name value) = Action.settle scope (scope.assign name value) := rfl

end Scope

end Offside
