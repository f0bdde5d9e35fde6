import Offside.Proofs.Renaming.Runs

set_option autoImplicit false

namespace Offside

def Error.blamed : Error → Option String
  | .fault _ cause => cause.blamed
  | .word _ _ | .shape _ _ | .input _ | .file _ => none

def Exit.blamed : Exit → Option String
  | .fellThrough | .returned _ => none
  | .failed error => error.blamed

-- Where the variable that a failure names belongs: to the scope of the command that fails, unless a parameter is bound
-- twice, which belongs to the program that is called.
inductive Traced (sites : List Site) (owner : Nat) : Exit → Prop where
  | unblamed (exit : Exit) : exit.blamed = none → Traced sites owner exit
  | unknown (site : Site) (name : String) : site ∈ sites → site.scope = owner → name ∈ site.command.head.vars →
      Traced sites owner (.failed (.fault site.command.line (.notDeclared name)))
  | known (site : Site) (name : String) (value : Expr) : site ∈ sites → site.scope = owner →
      site.command.head = .declare name value →
      Traced sites owner (.failed (.fault site.command.line (.alreadyDeclared name)))
  | duplicate (call definition : Site) (called name : String) (arguments : List Expr) (capture : Option String)
      (params : List String) : call ∈ sites → call.command.head = .call called arguments capture →
      definition ∈ sites → definition.command.head = .define called params → definition.row = owner →
      List.Duplicate name params → Traced sites owner (.failed (.fault call.command.line (.alreadyDeclared name)))

theorem Head.vars_names (head : Head) : head.vars ⊆ head.names := by
  cases head with
  | declare name value => exact List.subset_cons_self _ _
  | _ => exact List.Subset.refl _

def Owned (owner : Nat) (name : String) : Prop := ∃ plain, name = qualify owner plain

def Scope.Owned (owner : Nat) (scope : Scope) : Prop := ∀ name ∈ scope.names.flatten, Offside.Owned owner name

structure Qualified (sites : List Site) : Prop where
  closed : ∀ site ∈ sites, ∀ inner ∈ site.command.body,
    ∃ row, ⟨site.command.head.inner site.scope site.row, row, inner⟩ ∈ sites
  names : ∀ site ∈ sites, ∀ name ∈ site.command.head.names, Owned site.scope name
  params : ∀ site ∈ sites, ∀ called params, site.command.head = .define called params →
    ∀ param ∈ params, Owned site.row param

def Listed (sites : List Site) (owner : Nat) (code : List Command) : Prop :=
  ∀ command ∈ code, ∃ row, ⟨owner, row, command⟩ ∈ sites

def Control.Placed (sites : List Site) (owner : Nat) : Control → Prop
  | .run code => Listed sites owner code
  | .done exit => ∃ culprit, Traced sites culprit exit

def Pending.Placed (sites : List Site) : Nat → List Pending → Prop
  | _, [] => True
  | owner, .block rest :: more => Listed sites owner rest ∧ Placed sites owner more
  | _, .call line capture caller rest :: more =>
      ∃ owner, caller.Owned owner ∧
        (∀ name ∈ capture, ∃ site ∈ sites, site.scope = owner ∧ site.command.line = line ∧ name ∈ site.command.head.vars) ∧
        Listed sites owner rest ∧ Placed sites owner more

def World.Placed (sites : List Site) (world : World) : Prop :=
  ∀ name program, world.programs.find name = some program →
    ∃ site ∈ sites, site.command.head = .define name program.params ∧ Listed sites site.row program.body

namespace Machine

-- Each part of a machine stems from one scope of the commands, and its variables are variables of that scope.
structure Placed (sites : List Site) (owner : Nat) (machine : Machine) : Prop where
  control : machine.control.Placed sites owner
  scope : machine.scope.Owned owner
  pending : Pending.Placed sites owner machine.pending
  world : machine.world.Placed sites

theorem write_placed (sites : List Site) (owner : Nat) (machine : Machine) (place : Place) (value : Value)
    (rest : List Command) (listed : Listed sites owner rest) (scope : machine.scope.Owned owner)
    (pending : Pending.Placed sites owner machine.pending) (world : machine.world.Placed sites) :
    ((machine.write place value).proceed rest).Placed sites owner := by
  cases place with
  | cell address => exact ⟨listed, scope, pending, world⟩
  | var name =>
      have names := machine.scope.names_update name value
      refine ⟨listed, ?_, pending, world⟩
      intro query present
      change query ∈ (machine.scope.update name value).names.flatten at present
      rw [names] at present
      exact scope query present

theorem define_placed (sites : List Site) (world : World) (name : String) (program : Program) (placed : world.Placed sites)
    (site : Site) (present : site ∈ sites) (head : site.command.head = .define name program.params)
    (body : Listed sites site.row program.body) :
    World.Placed sites { world with programs := Table.put name program world.programs } := by
  intro called found search
  rw [Table.find_put] at search
  split at search
  · next same =>
      cases search
      exact ⟨site, present, same ▸ head, body⟩
  · exact placed called found search

theorem blame_traced (sites : List Site) (scope : Scope) (world : World) (site : Site) (fault : Fault)
    (present : site ∈ sites) (known : world.Placed sites) (blame : Blame scope world site.command.head fault) :
    ∃ culprit, Traced sites culprit (.failed (.fault site.command.line fault)) := by
  generalize same : site.command.head = head at blame
  cases blame with
  | other _ _ blameless => exact ⟨0, .unblamed _ blameless⟩
  | unknown _ name member missing => exact ⟨site.scope, .unknown site name present rfl (same ▸ member)⟩
  | known name value held => exact ⟨site.scope, .known site name value present rfl same⟩
  | duplicate called name arguments capture program found twice =>
      obtain ⟨definition, listed, head, _⟩ := known called program found
      exact ⟨definition.row,
        .duplicate site definition called name arguments capture program.params present same listed head rfl twice⟩

theorem callee_owned (owner : Nat) (caller callee : Scope) (memory : Memory) (params : List String) (arguments : List Expr)
    (count : params.length = arguments.length) (bound : bindParams caller memory params arguments .empty = .ok callee)
    (owned : ∀ param ∈ params, Owned owner param) : callee.extend.Owned owner := by
  intro name present
  change name ∈ callee.names.flatten at present
  rw [← Scope.find_names, bind_params_find _ _ _ _ _ _ count bound] at present
  exact owned name (present.resolve_left Bool.false_ne_true)

theorem perform_placed (sites : List Site) (qualified : Qualified sites) (owner : Nat) (machine : Machine) (world : World)
    (command : Command) (rest : List Command) (deed : Deed) (decided : Decides machine.scope world command.head deed)
    (known : world.Placed sites) (listed : Listed sites owner (command :: rest)) (scope : machine.scope.Owned owner)
    (pending : Pending.Placed sites owner machine.pending) (placed : machine.world.Placed sites) :
    ∃ owner, (machine.perform command rest deed).Placed sites owner := by
  obtain ⟨⟨row, present⟩, others⟩ := List.forall_mem_cons.mp listed
  obtain ⟨line, head, body⟩ := command
  have below : Listed sites (head.inner owner row) body := qualified.closed ⟨owner, row, ⟨line, head, body⟩⟩ present
  cases decided with
  | print value text => exact ⟨owner, others, scope, pending, placed⟩
  | read target place value _ => exact ⟨owner, write_placed sites owner machine place value rest others scope pending placed⟩
  | assign target value place result _ =>
      exact ⟨owner, write_placed sites owner machine place result rest others scope pending placed⟩
  | declare name value result _ =>
      refine ⟨owner, others, ?_, pending, placed⟩
      intro query member
      rcases (machine.scope.names_insert name query result).mp member with rfl | before
      · exact qualified.names _ present query List.mem_cons_self
      · exact scope query before
  | skipBranch condition => exact ⟨owner, others, scope, pending, placed⟩
  | skipLoop condition => exact ⟨owner, others, scope, pending, placed⟩
  | enterBranch condition => exact ⟨owner, below, scope, ⟨others, pending⟩, placed⟩
  | enterLoop condition => exact ⟨owner, below, scope, ⟨listed, pending⟩, placed⟩
  | define name params =>
      have world := define_placed sites machine.world name ⟨params, body⟩ placed _ present rfl below
      exact ⟨owner, others, scope, pending, world⟩
  | call name arguments capture program callee found count bound =>
      obtain ⟨site, known, head, code⟩ := known name program found
      have owned := callee_owned site.row machine.scope callee world.memory program.params arguments count bound
        (qualified.params site known name program.params head)
      refine ⟨site.row, code, owned, ⟨owner, scope, ?_, others, pending⟩, placed⟩
      intro target captured
      exact ⟨_, present, rfl, rfl, List.mem_append_right _ (Option.mem_toList.mpr captured)⟩
  | give value result => exact ⟨owner, ⟨0, .unblamed _ rfl⟩, scope, pending, placed⟩
  | fail _ fault blame =>
      exact ⟨owner, blame_traced sites machine.scope world _ fault present known blame, scope, pending, placed⟩
  | starve target cause => exact ⟨owner, ⟨0, .unblamed _ rfl⟩, scope, pending, placed⟩

theorem leave_owned (owner : Nat) (scope : Scope) (owned : scope.Owned owner) : scope.leave.Owned owner := by
  obtain ⟨innermost, outer⟩ := scope
  cases outer with
  | nil => exact owned
  | cons frame frames =>
      intro name present
      exact owned name (List.mem_append_right _ present)

theorem resume_placed (sites : List Site) (owner : Nat) (machine : Machine) (exit : Exit) (next : Pending)
    (more : List Pending) (ended : ∃ culprit, Traced sites culprit exit) (scope : machine.scope.Owned owner)
    (pending : Pending.Placed sites owner (next :: more)) (placed : machine.world.Placed sites) :
    ∃ owner, ({ machine with pending := more }.resume exit next).Placed sites owner := by
  cases next with
  | block rest =>
      obtain ⟨listed, further⟩ := pending
      have left := leave_owned owner machine.scope scope
      cases exit with
      | fellThrough => exact ⟨owner, listed, left, further, placed⟩
      | returned value => exact ⟨owner, ended, left, further, placed⟩
      | failed error => exact ⟨owner, ended, left, further, placed⟩
  | call line capture caller rest =>
      obtain ⟨outside, owned, captured, listed, further⟩ := pending
      cases exit with
      | fellThrough => exact ⟨outside, listed, owned, further, placed⟩
      | failed error => exact ⟨outside, ended, owned, further, placed⟩
      | returned value =>
          cases value with
          | none => exact ⟨outside, listed, owned, further, placed⟩
          | some value =>
              cases capture with
              | none => exact ⟨outside, listed, owned, further, placed⟩
              | some name =>
                  obtain ⟨site, present, belongs, rfl, member⟩ := captured name rfl
                  by_cases held : (caller.find name).isSome
                  · have names := caller.names_update name value
                    simp only [resume, Scope.assign_update, if_pos held]
                    refine ⟨outside, listed, ?_, further, placed⟩
                    intro query inside
                    change query ∈ (caller.update name value).names.flatten at inside
                    rw [names] at inside
                    exact owned query inside
                  · simp only [resume, Scope.assign_update, if_neg held]
                    exact ⟨outside, ⟨outside, .unknown site name present belongs member⟩, owned, further, placed⟩

theorem step_placed (sites : List Site) (qualified : Qualified sites) (machine : Machine)
    (invariant : ∃ owner, machine.Placed sites owner) : ∃ owner, machine.step.Placed sites owner := by
  obtain ⟨control, scope, pending, world⟩ := machine
  obtain ⟨owner, current, owned, further, placed⟩ := invariant
  cases control with
  | run code =>
      cases code with
      | nil => exact ⟨owner, ⟨0, .unblamed _ rfl⟩, owned, further, placed⟩
      | cons command rest =>
          obtain ⟨device, deed, decided, step⟩ := step_decided command rest scope pending world
          rw [step]
          exact perform_placed sites qualified owner ⟨_, scope, pending, { world with device := device }⟩ world command rest
            deed decided placed current owned further placed
  | done exit =>
      cases pending with
      | nil => exact ⟨owner, current, owned, further, placed⟩
      | cons next more =>
          exact resume_placed sites owner ⟨.done exit, scope, next :: more, world⟩ exit next more current owned further placed

theorem placed_apart (sites : List Site) (qualified : Qualified sites) (map : String → String)
    (faithful : ∀ owner first second, Owned owner first → Owned owner second → map first = map second → first = second)
    (machine : Machine) (placed : ∃ owner, machine.Placed sites owner) : machine.Apart map := by
  obtain ⟨control, scope, pending, world⟩ := machine
  obtain ⟨owner, current, owned, further, programs⟩ := placed
  refine ⟨?_, ?_, ?_⟩
  · rintro command rest rfl name member key present
    obtain ⟨row, listed⟩ := current command List.mem_cons_self
    exact faithful owner key name (owned key present) (qualified.names _ listed name member)
  · rintro line name caller rest more rfl key present
    obtain ⟨outside, callerOwned, captured, _⟩ := further
    obtain ⟨site, listed, rfl, _, member⟩ := captured name rfl
    exact faithful site.scope key name (callerOwned key present) (qualified.names site listed name (Head.vars_names _ member))
  · intro name program found first firstIn second secondIn
    obtain ⟨site, listed, head, _⟩ := programs name program found
    have params := qualified.params site listed name program.params head
    exact faithful site.row first second (params first firstIn) (params second secondIn)

end Machine

end Offside
