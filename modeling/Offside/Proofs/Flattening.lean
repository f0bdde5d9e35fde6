import Mathlib.Data.List.Nodup
import Offside.Proofs.Chains
import Offside.Proofs.Frames

set_option autoImplicit false

namespace Offside

namespace Action

def keepsLevel : Action → Bool
  | .extend | .leave => false
  | .declare _ _ | .assign _ _ | .lookup _ => true

-- Actions that leave every frame they enter, and no other.
inductive Balanced : List Action → Prop where
  | nothing : Balanced []
  | plain (action : Action) (more : List Action) : action.keepsLevel = true → Balanced more → Balanced (action :: more)
  | nested (inner more : List Action) : Balanced inner → Balanced more → Balanced (.extend :: inner ++ .leave :: more)

end Action

-- A single map, with the names that have been declared since each extension that is still in force.
structure Flat where
  value : String → Option Value
  fresh : List String
  earlier : List (List String)

namespace Flat

def empty : Flat := ⟨fun _ => none, [], []⟩

def extend (flat : Flat) : Flat := ⟨flat.value, [], flat.fresh :: flat.earlier⟩

def leave (flat : Flat) : Flat :=
  match flat.earlier with
  | [] => flat
  | names :: earlier => ⟨fun name => if name ∈ flat.fresh then none else flat.value name, names, earlier⟩

def set (flat : Flat) (name : String) (value : Value) : Flat :=
  { flat with value := fun query => if name = query then some value else flat.value query }

def declare (flat : Flat) (name : String) (value : Value) : Except Fault Flat :=
  if (flat.value name).isSome then .error (.alreadyDeclared name)
  else .ok { flat.set name value with fresh := flat.fresh ++ [name] }

def assign (flat : Flat) (name : String) (value : Value) : Except Fault Flat :=
  if (flat.value name).isSome then .ok (flat.set name value) else .error (.notDeclared name)

def lookup (flat : Flat) (name : String) : Except Fault Value :=
  match flat.value name with
  | some value => .ok value
  | none => .error (.notDeclared name)

def act (flat : Flat) : Action → Action.Answer × Flat
  | .extend => (.ok none, flat.extend)
  | .leave => (.ok none, flat.leave)
  | .declare name value => Action.settle flat (flat.declare name value)
  | .assign name value => Action.settle flat (flat.assign name value)
  | .lookup name => ((flat.lookup name).map some, flat)

end Flat

namespace Scope

theorem names_apart (scope : Scope) (name : String) (apart : scope.names.flatten.Nodup)
    (outside : name ∈ scope.names.tail.flatten) : name ∉ Table.names scope.innermost := by
  intro inside
  have both : (Table.names scope.innermost ++ (scope.outer.map Table.names).flatten).Nodup := apart
  exact (List.nodup_append.mp both).2.2 name inside name outside rfl

theorem find_leave (scope : Scope) (name : String) (apart : scope.names.flatten.Nodup) (nested : scope.outer ≠ []) :
    scope.leave.find name = if name ∈ Table.names scope.innermost then none else scope.find name := by
  have left : scope.leave.names = scope.names.tail := by
    refine scope.names_leave ?_
    intro empty
    exact nested (List.map_eq_nil_iff.mp empty)
  split
  · next inside =>
      cases found : scope.leave.find name with
      | none => rfl
      | some value =>
          have outside := (scope.leave.find_names name).mp (Option.isSome_of_eq_some found)
          rw [left] at outside
          exact absurd inside (names_apart scope name apart outside)
  · next absent =>
      obtain ⟨innermost, outer⟩ := scope
      have missed : Table.find name innermost = none := by
        rw [← Option.not_isSome_iff_eq_none, Table.find_is_some]
        exact absent
      cases outer with
      | nil => exact absurd rfl nested
      | cons frame frames =>
          simp only [leave, find, Scope.frames, findIn, List.findSome?_cons, missed]

-- A chain of frames that shows the values of a single map. Each frame holds the names of one extension, and no name is
-- in two of them.
structure Shows (scope : Scope) (flat : Flat) : Prop where
  value : ∀ name, scope.find name = flat.value name
  names : scope.names = flat.fresh :: flat.earlier
  apart : scope.names.flatten.Nodup

theorem shows_empty : empty.Shows .empty := ⟨fun _ => rfl, rfl, List.nodup_nil⟩

theorem shows_leave (scope : Scope) (flat : Flat) (shows : scope.Shows flat) : scope.leave.Shows flat.leave := by
  obtain ⟨value, fresh, earlier⟩ := flat
  obtain ⟨innermost, outer⟩ := scope
  have ⟨inner, outside⟩ := List.cons.inj shows.names
  cases outer with
  | nil =>
      cases outside
      exact shows
  | cons frame frames =>
      cases outside
      refine ⟨?_, rfl, ?_⟩
      · intro name
        rw [find_leave _ name shows.apart (List.cons_ne_nil _ _), shows.value name]
        change (if name ∈ Table.names innermost then none else value name) = if name ∈ fresh then none else value name
        rw [inner]
      · have apart : (Table.names innermost ++ ((frame :: frames).map Table.names).flatten).Nodup := shows.apart
        exact (List.nodup_append.mp apart).2.1

theorem shows_declare (scope : Scope) (flat : Flat) (name : String) (value : Value) (shows : scope.Shows flat)
    (absent : scope.find name = none) :
    (scope.insert name value).Shows
      { flat.set name value with fresh := flat.fresh ++ [name] } := by
  have ⟨inner, outside⟩ := List.cons.inj shows.names
  have names := scope.names_declare name value absent
  refine ⟨?_, ?_, ?_⟩
  · intro query
    rw [find_insert, shows.value query]
    rfl
  · rw [names, namesAfter, inner, outside]
    rfl
  · have unused : name ∉ scope.names.flatten := by
      rw [← find_names, absent]
      exact Bool.false_ne_true
    rw [names, namesAfter, List.flatten_cons, List.append_assoc]
    exact List.nodup_middle.mpr (List.nodup_cons.mpr ⟨unused, shows.apart⟩)

theorem shows_assign (scope : Scope) (flat : Flat) (name : String) (value : Value) (shows : scope.Shows flat)
    (held : (scope.find name).isSome) : (scope.update name value).Shows (flat.set name value) := by
  refine ⟨?_, ?_, ?_⟩
  · intro query
    obtain ⟨old, found⟩ := Option.isSome_iff_exists.mp held
    rw [find_update, found, shows.value query]
    rfl
  · rw [names_update]
    exact shows.names
  · rw [names_update]
    exact shows.apart

theorem act_shows (scope : Scope) (flat : Flat) (action : Action) (shows : scope.Shows flat) :
    (scope.act action).1 = (flat.act action).1 ∧ (scope.act action).2.Shows (flat.act action).2 := by
  cases action with
  | extend => exact ⟨rfl, shows.value, congrArg _ shows.names, shows.apart⟩
  | leave => exact ⟨rfl, shows_leave scope flat shows⟩
  | declare name value =>
      rw [act_declare, Flat.act, declare_insert, Flat.declare, ← shows.value name]
      by_cases held : (scope.find name).isSome
      · rw [if_pos held, if_pos held]
        exact ⟨rfl, shows⟩
      · rw [if_neg held, if_neg held]
        exact ⟨rfl, shows_declare scope flat name value shows (Option.not_isSome_iff_eq_none.mp held)⟩
  | assign name value =>
      rw [act_assign, Flat.act, assign_update, Flat.assign, ← shows.value name]
      by_cases held : (scope.find name).isSome
      · rw [if_pos held, if_pos held]
        exact ⟨rfl, shows_assign scope flat name value shows held⟩
      · rw [if_neg held, if_neg held]
        exact ⟨rfl, shows⟩
  | lookup name =>
      have same : scope.lookup name = flat.lookup name := by
        cases found : flat.value name <;> simp only [lookup_find, Flat.lookup, shows.value name, found]
      exact ⟨congrArg (Except.map some) same, shows⟩

theorem through_shows (actions : List Action) (scope : Scope) (flat : Flat) (shows : scope.Shows flat) :
    (Action.through act scope actions).1 = (Action.through Flat.act flat actions).1 ∧
      (Action.through act scope actions).2.Shows (Action.through Flat.act flat actions).2 :=
  Action.through_related act Flat.act Shows (fun scope flat shows action => act_shows scope flat action shows) actions scope
    flat shows

theorem act_outer_names (scope : Scope) (action : Action) (level : action.keepsLevel = true) :
    (scope.act action).2.names.tail = scope.names.tail := by
  cases action with
  | extend => cases level
  | leave => cases level
  | declare name value =>
      rw [act_declare, declare_insert]
      split <;> rfl
  | assign name value =>
      rw [act_assign, assign_update]
      split
      · exact congrArg List.tail (scope.names_update name value)
      · rfl
  | lookup name => rfl

theorem balanced_outer_names (body : List Action) (balanced : Action.Balanced body) (scope : Scope) :
    (Action.through act scope body).2.names.tail = scope.names.tail := by
  induction balanced generalizing scope with
  | nothing => rfl
  | plain action more level rest ih => exact (ih (scope.act action).2).trans (act_outer_names scope action level)
  | nested inner more within rest inside ih =>
      have entered := inside scope.extend
      rw [List.cons_append]
      change (Action.through act scope.extend (inner ++ .leave :: more)).2.names.tail = _
      rw [Action.through_append]
      refine (ih _).trans ?_
      exact congrArg List.tail (names_left _ scope entered)

theorem balanced_undone (scope : Scope) (flat : Flat) (shows : scope.Shows flat) (body : List Action)
    (balanced : Action.Balanced body) :
    let inside := (Action.through act scope.extend body).2
    inside.leave.names = scope.names ∧
      ∀ name, inside.leave.find name = if (scope.find name).isSome then inside.find name else none := by
  intro inside
  have reached := (through_shows (.extend :: body) scope flat shows).2
  have outer : inside.names.tail = scope.names := balanced_outer_names body balanced scope.extend
  have left : inside.leave.names = scope.names := names_left inside scope outer
  refine ⟨left, ?_⟩
  intro name
  split
  · next held =>
      have outside : name ∈ inside.names.tail.flatten := by
        rw [outer, ← find_names]
        exact held
      rw [find_leave inside name reached.apart, if_neg (names_apart inside name reached.apart outside)]
      intro single
      rw [names, frames, single] at outer
      cases outer
  · next absent =>
      rw [← Option.not_isSome_iff_eq_none, find_names, left, ← find_names]
      exact absent

/-- The frames hold no name twice, and for all that can be asked they are one map, in which a name can be declared while
it is absent and assigned while it is present. Giving up a frame undoes the declarations since it was entered and none
of the assignments to names declared before. Any chain that keeps to the same laws has the same answers. -/
theorem act_flattened (actions : List Action) :
    (Action.through act .empty actions).1 = (Action.through Flat.act .empty actions).1 ∧
      (Action.through act .empty actions).2.names.Pairwise List.Disjoint ∧
      (∀ name, (Action.through act .empty actions).2.find name = (Action.through Flat.act .empty actions).2.value name) ∧
      (∀ body, Action.Balanced body →
        let before := (Action.through act .empty actions).2
        let inside := (Action.through act before.extend body).2
        inside.leave.names = before.names ∧
          ∀ name, inside.leave.find name = if (before.find name).isSome then inside.find name else none) ∧
      ∀ (Chain : Type) [FrameChain Chain] (frames : Chain → List Bindings), FrameChain.Lawful frames →
        (Action.through FrameChain.act (FrameChain.empty : Chain) actions).1 = (Action.through act .empty actions).1 := by
  obtain ⟨answers, shows⟩ := through_shows actions .empty .empty shows_empty
  refine ⟨answers, (List.nodup_flatten.mp shows.apart).2, shows.value, balanced_undone _ _ shows, ?_⟩
  intro Chain _ frames lawful
  exact (FrameChain.through_alike frames bindings lawful bindings_lawful actions FrameChain.empty .empty lawful.empty).1

example :
    (Action.through act .empty [.declare "x" (.integer 1), .extend, .declare "x" (.integer 2), .assign "x" (.integer 3), .leave,
      .lookup "x"]).1 =
      [.ok none, .ok none, .error (.alreadyDeclared "x"), .ok none, .ok none, .ok (some (.integer 3))] := by
  with_unfolding_all rfl

end Scope

end Offside
