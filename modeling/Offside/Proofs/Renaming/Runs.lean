import Offside.Proofs.Renaming.Evaluation

set_option autoImplicit false

namespace Offside

def Program.relabel (map : String → String) (program : Program) : Program :=
  ⟨program.params.map map, Command.relabelAll map program.body⟩

def World.relabel (map : String → String) (world : World) : World :=
  { world with programs := world.programs.mapEntries (Program.relabel map) }

theorem World.memory_relabel (map : String → String) (world : World) : (world.relabel map).memory = world.memory := rfl

def Error.relabel (map : String → String) : Error → Error
  | .fault line cause => .fault line (cause.relabel map)
  | error => error

def Exit.relabel (map : String → String) : Exit → Exit
  | .failed error => .failed (error.relabel map)
  | exit => exit

def Control.relabel (map : String → String) : Control → Control
  | .run code => .run (Command.relabelAll map code)
  | .done exit => .done (exit.relabel map)

def Pending.relabel (map : String → String) : Pending → Pending
  | .block rest => .block (Command.relabelAll map rest)
  | .call line capture caller rest => .call line (capture.map map) (caller.relabel map) (Command.relabelAll map rest)

def Deed.relabel (map : String → String) : Deed → Deed
  | .write place value => .write (place.relabel map) value
  | .declare name value => .declare (map name) value
  | .define name params => .define name (params.map map)
  | .call program callee capture => .call (program.relabel map) (callee.relabel map) (capture.map map)
  | .fail fault => .fail (fault.relabel map)
  | deed => deed

def World.Apart (map : String → String) (world : World) : Prop :=
  ∀ name program, world.programs.find name = some program →
    ∀ first ∈ program.params, ∀ second ∈ program.params, map first = map second → first = second

namespace Machine

theorem bind_params_relabel (map : String → String) (caller : Scope) (memory : Memory) (params : List String)
    (arguments : List Expr) (callee : Scope) (apartCaller : ∀ name ∈ arguments.flatMap Expr.vars, caller.Apart map name)
    (apartCallee : ∀ param ∈ params, callee.Apart map param)
    (distinct : ∀ first ∈ params, ∀ second ∈ params, map first = map second → first = second) :
    bindParams (caller.relabel map) memory (params.map map) (arguments.map (Expr.rename map)) (callee.relabel map) =
      ((bindParams caller memory params arguments callee).map (Scope.relabel map)).mapError (Fault.relabel map) := by
  induction params generalizing arguments callee with
  | nil => rfl
  | cons param params ih =>
      cases arguments with
      | nil => rfl
      | cons argument arguments =>
          obtain ⟨inFirst, inOthers⟩ := List.forall_mem_append.mp apartCaller
          obtain ⟨apartFirst, apartOthers⟩ := List.forall_mem_cons.mp apartCallee
          rw [List.map_cons, List.map_cons, bindParams, bindParams, argument.evaluate_relabel map caller memory inFirst]
          cases argument.evaluate caller memory with
          | error fault => rfl
          | ok value =>
              dsimp only [Except.mapError]
              rw [callee.declare_relabel map param value apartFirst]
              cases declared : callee.declare param value with
              | error fault => rfl
              | ok bound =>
                  refine ih arguments bound inOthers ?_ ?_
                  · intro later member key present same
                    rw [← Scope.find_names, callee.find_declare bound param key value declared, Scope.find_names] at present
                    rcases present with before | rfl
                    · exact apartOthers later member key before same
                    · exact distinct key List.mem_cons_self later (List.mem_cons_of_mem _ member) same
                  · intro first firstIn second secondIn
                    exact distinct first (List.mem_cons_of_mem _ firstIn) second (List.mem_cons_of_mem _ secondIn)

end Machine

namespace Deed

variable (map : String → String) (scope : Scope) (world : World)

theorem of_result_relabel {Result Image : Type} (change : Result → Image) (deed : Result → Deed) (renamed : Image → Deed)
    (result : Except Fault Result) (same : ∀ value, renamed (change value) = (deed value).relabel map) :
    ofResult renamed ((result.map change).mapError (Fault.relabel map)) = (ofResult deed result).relabel map := by
  cases result with
  | error fault => rfl
  | ok value => exact same value

theorem of_value_relabel {Result : Type} (deed renamed : Result → Deed) (result : Except Fault Result)
    (same : ∀ value, renamed value = (deed value).relabel map) :
    ofResult renamed (result.mapError (Fault.relabel map)) = (ofResult deed result).relabel map := by
  cases result with
  | error fault => rfl
  | ok value => exact same value

theorem of_call_relabel (name : String) (arguments : List Expr) (capture : Option String)
    (apart : ∀ name ∈ arguments.flatMap Expr.vars, scope.Apart map name) (distinct : world.Apart map) :
    ofHead (scope.relabel map) (world.relabel map) (.call name (arguments.map (Expr.rename map)) (capture.map map)) =
      (ofHead scope world (.call name arguments capture)).relabel map := by
  rw [ofHead, ofHead]
  change ofCall _ world.memory _ _ _ ((world.programs.mapEntries (Program.relabel map)).find name) = _
  rw [Table.find_map_entries]
  cases found : world.programs.find name with
  | none => rfl
  | some program =>
      have vacant : ∀ param ∈ program.params, Scope.empty.Apart map param := by
        intro param member key present
        cases present
      have bound := Machine.bind_params_relabel map scope world.memory program.params arguments .empty apart vacant
        (distinct name program found)
      have empty : Scope.empty.relabel map = .empty := rfl
      rw [empty] at bound
      dsimp only [Option.map_some, ofCall]
      rw [Program.relabel, List.length_map, List.length_map, bound]
      by_cases count : program.params.length = arguments.length
      · rw [if_pos count, if_pos count]
        exact of_result_relabel map (Scope.relabel map) _ _ _ fun callee => rfl
      · rw [if_neg count, if_neg count]
        rfl

theorem of_head_relabel (head : Head) (apart : ∀ name ∈ head.names, scope.Apart map name) (distinct : world.Apart map) :
    ofHead (scope.relabel map) (world.relabel map) (head.rename map map) = (ofHead scope world head).relabel map := by
  cases head with
  | log value =>
      rw [Head.rename, ofHead, ofHead, world.memory_relabel map, value.evaluate_relabel map scope world.memory apart]
      exact of_value_relabel map _ _ _ fun result => rfl
  | read target =>
      have located := target.locate_relabel map scope world.memory apart
      change ofRead _ world.memory _ world.device.read.1 = (ofRead _ _ _ world.device.read.1).relabel map
      cases world.device.read.1 with
      | error cause => rfl
      | ok c =>
          rw [ofRead, ofRead, located]
          exact of_result_relabel map (Place.relabel map) _ _ _ fun place => rfl
  | assign target value =>
      obtain ⟨inTarget, inValue⟩ := List.forall_mem_append.mp apart
      have located := target.locate_relabel map scope world.memory inTarget
      rw [Head.rename, ofHead, ofHead, world.memory_relabel map, value.evaluate_relabel map scope world.memory inValue]
      refine of_value_relabel map _ _ _ fun result => ?_
      rw [located]
      exact of_result_relabel map (Place.relabel map) _ _ _ fun place => rfl
  | declare name value =>
      obtain ⟨inName, inValue⟩ := List.forall_mem_cons.mp apart
      rw [Head.rename, ofHead, ofHead, world.memory_relabel map, value.evaluate_relabel map scope world.memory inValue]
      refine of_value_relabel map _ _ _ fun result => ?_
      rw [ofDeclaration, ofDeclaration, scope.find_relabel map name inName]
      split <;> rfl
  | branch condition =>
      rw [Head.rename, ofHead, ofHead, world.memory_relabel map, condition.condition_relabel map scope world.memory apart]
      refine of_value_relabel map _ _ _ fun holds => ?_
      cases holds <;> rfl
  | loop condition =>
      rw [Head.rename, ofHead, ofHead, world.memory_relabel map, condition.condition_relabel map scope world.memory apart]
      refine of_value_relabel map _ _ _ fun holds => ?_
      cases holds <;> rfl
  | define name params => rfl
  | call name arguments capture =>
      exact of_call_relabel map scope world name arguments capture (List.forall_mem_append.mp apart).1 distinct
  | give value =>
      cases value with
      | none => rfl
      | some value =>
          have inValue : ∀ name ∈ value.vars, scope.Apart map name := by
            intro name member
            exact apart name (List.mem_append_left _ member)
          rw [Head.rename, Option.map_some, ofHead, ofHead, world.memory_relabel map, value.evaluate_relabel map scope world.memory inValue]
          exact of_value_relabel map _ _ _ fun result => rfl

end Deed

namespace Machine

def relabel (map : String → String) (machine : Machine) : Machine :=
  ⟨machine.control.relabel map, machine.scope.relabel map, machine.pending.map (Pending.relabel map),
    machine.world.relabel map⟩

theorem write_relabel (map : String → String) (machine : Machine) (place : Place) (value : Value)
    (apart : ∀ name, place = .var name → machine.scope.Apart map name) :
    (machine.relabel map).write (place.relabel map) value = (machine.write place value).relabel map := by
  cases place with
  | cell address => rfl
  | var name =>
      have updated := machine.scope.update_relabel map name value (apart name rfl)
      exact congrArg (fun scope => { machine.relabel map with scope := scope }) updated

theorem define_relabel (map : String → String) (machine : Machine) (name : String) (program : Program) :
    (machine.relabel map).define name (program.relabel map) = (machine.define name program).relabel map := by
  have put := Table.put_map_entries (Program.relabel map) name program machine.world.programs
  exact congrArg (fun programs => { machine.relabel map with world := { machine.world with programs := programs } }) put

theorem perform_relabel (map : String → String) (machine : Machine) (world : World) (command : Command)
    (rest : List Command) (deed : Deed) (decided : Decides machine.scope world command.head deed)
    (apart : ∀ name ∈ command.head.names, machine.scope.Apart map name) :
    (machine.relabel map).perform (command.relabel map) (Command.relabelAll map rest) (deed.relabel map) =
      (machine.perform command rest deed).relabel map := by
  obtain ⟨line, head, body⟩ := command
  cases decided with
  | read target place value found =>
      have written := machine.write_relabel map place value (by
        rintro name rfl
        rw [target.locate_var _ _ name found] at apart
        exact apart name (List.mem_singleton_self name))
      exact congrArg (fun after => after.proceed (Command.relabelAll map rest)) written
  | assign target value place result found =>
      have written := machine.write_relabel map place result (by
        rintro name rfl
        rw [target.locate_var _ _ name found] at apart
        exact apart name List.mem_cons_self)
      exact congrArg (fun after => after.proceed (Command.relabelAll map rest)) written
  | declare name value result fresh =>
      have put := machine.scope.insert_relabel map name result (apart name List.mem_cons_self)
      exact congrArg (fun scope => { machine.relabel map with scope := scope }.proceed (Command.relabelAll map rest)) put
  | define name params =>
      have defined := machine.define_relabel map name ⟨params, body⟩
      exact congrArg (fun after => after.proceed (Command.relabelAll map rest)) defined
  | _ => rfl

theorem resume_relabel (map : String → String) (machine : Machine) (exit : Exit) (next : Pending)
    (apart : ∀ line name caller rest, next = .call line (some name) caller rest → caller.Apart map name) :
    (machine.relabel map).resume (exit.relabel map) (next.relabel map) = (machine.resume exit next).relabel map := by
  cases next with
  | block rest =>
      have left := machine.scope.leave_relabel map
      have outside : { machine.relabel map with scope := (machine.scope.relabel map).leave } =
          ({ machine with scope := machine.scope.leave } : Machine).relabel map :=
        congrArg (fun scope => { machine.relabel map with scope := scope }) left
      cases exit with
      | fellThrough => exact congrArg (fun after => after.proceed (Command.relabelAll map rest)) outside
      | returned value => exact congrArg (fun after => after.finish (.returned value)) outside
      | failed error => exact congrArg (fun after => after.finish (.failed (error.relabel map))) outside
  | call line capture caller rest =>
      cases exit with
      | fellThrough => rfl
      | failed error => rfl
      | returned value =>
          cases value with
          | none => rfl
          | some value =>
              cases capture with
              | none => rfl
              | some name =>
                  simp only [resume, Exit.relabel, Pending.relabel, Option.map_some]
                  rw [caller.assign_relabel map name value (apart line name caller rest rfl)]
                  cases caller.assign name value <;> rfl

structure Apart (map : String → String) (machine : Machine) : Prop where
  control : ∀ command rest, machine.control = .run (command :: rest) → ∀ name ∈ command.head.names, machine.scope.Apart map name
  pending : ∀ line name caller rest more, machine.pending = .call line (some name) caller rest :: more → caller.Apart map name
  world : machine.world.Apart map

theorem step_relabel (map : String → String) (machine : Machine) (apart : machine.Apart map) :
    (machine.relabel map).step = machine.step.relabel map := by
  obtain ⟨control, scope, pending, world⟩ := machine
  cases control with
  | run code =>
      cases code with
      | nil => rfl
      | cons command rest =>
          have own := apart.control command rest rfl
          have decided := Deed.of_head_relabel map scope world command.head own apart.world
          have consumed : ((Machine.mk (.run (command :: rest)) scope pending world).relabel map).consume
              (command.relabel map).head =
              ((Machine.mk (.run (command :: rest)) scope pending world).consume command.head).relabel map := by
            obtain ⟨line, head, body⟩ := command
            cases head <;> rfl
          have kept : ((Machine.mk (.run (command :: rest)) scope pending world).consume command.head).scope = scope := by
            cases command.head <;> rfl
          have performed := perform_relabel map ((Machine.mk (.run (command :: rest)) scope pending world).consume command.head)
            world command rest (Deed.ofHead scope world command.head) (kept.symm ▸ Deed.decides scope world command.head)
            (kept.symm ▸ own)
          rw [step_running, ← performed, ← consumed, ← decided]
          obtain ⟨line, head, body⟩ := command
          exact execute_perform ((Machine.mk (.run (⟨line, head, body⟩ :: rest)) scope pending world).relabel map)
            (Command.relabel map ⟨line, head, body⟩) (Command.relabelAll map rest)
  | done exit =>
      cases pending with
      | nil => rfl
      | cons next more =>
          refine resume_relabel map ⟨.done exit, scope, more, world⟩ exit next ?_
          rintro line name caller rest rfl
          exact apart.pending line name caller rest more rfl

theorem exit_relabel (map : String → String) (machine : Machine) :
    (machine.relabel map).exit? = machine.exit?.map (Exit.relabel map) := by
  obtain ⟨control, scope, pending, world⟩ := machine
  cases control with
  | run code => rfl
  | done exit => cases pending <;> rfl

theorem run_relabel (map : String → String) (kept : Machine → Prop) (step : ∀ machine, kept machine → kept machine.step)
    (apart : ∀ machine, kept machine → machine.Apart map) (steps : Nat) (machine : Machine) (initial : kept machine) :
    (machine.relabel map).run steps = (machine.run steps).relabel map := by
  induction steps generalizing machine with
  | zero => rfl
  | succ steps ih =>
      rw [run, run, exit_relabel, Option.isSome_map]
      split
      · rfl
      · rw [step_relabel map machine (apart machine initial), ih machine.step (step machine initial)]

end Machine

end Offside
