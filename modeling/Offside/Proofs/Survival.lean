import Offside.Proofs.Frames
import Offside.Proofs.Increments

set_option autoImplicit false

namespace Offside

def Exit.isUnread : Exit → Bool
  | .failed (.word _ _) | .failed (.shape _ _) => true
  | .failed (.fault _ _) | .failed (.input _) | .failed (.file _) | .fellThrough | .returned _ => false

namespace Device

-- A later state of a device: what is pending there was last among what was pending before.
def Leaves : Device → Device → Prop
  | .script earlier, .script later => later <:+ earlier
  | .bytes earlier, .bytes later => later <:+ earlier
  | .script _, .bytes _ | .bytes _, .script _ => False

theorem leaves_refl (device : Device) : device.Leaves device := by
  cases device with
  | script pending => exact List.suffix_refl pending
  | bytes pending => exact List.suffix_refl pending

theorem leaves_trans (first second third : Device) (before : first.Leaves second) (after : second.Leaves third) :
    first.Leaves third := by
  cases first with
  | script pending =>
      cases second with
      | bytes middle => cases before
      | script middle =>
          cases third with
          | bytes rest => cases after
          | script rest => exact List.IsSuffix.trans after before
  | bytes pending =>
      cases second with
      | script middle => cases before
      | bytes middle =>
          cases third with
          | script rest => cases after
          | bytes rest => exact List.IsSuffix.trans after before

theorem read_bytes_suffix (pending : List UInt8) : (readBytes pending).2 <:+ pending := by
  cases pending with
  | nil => exact List.suffix_refl []
  | cons lead rest =>
      have dropped : rest.drop (width lead - 1) <:+ lead :: rest :=
        (List.drop_suffix _ rest).trans (List.suffix_cons lead rest)
      rw [readBytes]
      split
      · exact List.nil_suffix
      · split <;> exact dropped

theorem read_leaves (device : Device) : device.Leaves device.read.2 := by
  cases device with
  | script pending =>
      cases pending with
      | nil => exact List.suffix_refl []
      | cons c rest => exact List.suffix_cons c rest
  | bytes pending => exact read_bytes_suffix pending

end Device

structure World.Grows (earlier later : World) : Prop where
  programs : ∀ name, (earlier.programs.find name).isSome → (later.programs.find name).isSome
  output : ∃ more, later.output = earlier.output ++ more
  input : earlier.device.Leaves later.device

namespace World

theorem grows_refl (world : World) : world.Grows world :=
  ⟨fun _ => id, ⟨"", String.append_empty.symm⟩, world.device.leaves_refl⟩

theorem grows_trans (first second third : World) (before : first.Grows second) (after : second.Grows third) :
    first.Grows third := by
  obtain ⟨printed, firstOutput⟩ := before.output
  obtain ⟨more, secondOutput⟩ := after.output
  refine ⟨fun name => after.programs name ∘ before.programs name, ?_, ?_⟩
  · exact ⟨printed ++ more, by rw [secondOutput, firstOutput, String.append_assoc]⟩
  · exact Device.leaves_trans _ _ _ before.input after.input

theorem find_put_kept (name : String) (program : Program) (programs : Table Program) (query : String)
    (held : (programs.find query).isSome) : ((Table.put name program programs).find query).isSome := by
  rw [Table.find_put]
  split
  · rfl
  · exact held

end World

namespace Machine

theorem consume_grows (machine : Machine) (head : Head) : machine.world.Grows (machine.consume head).world := by
  cases head with
  | read target =>
      exact ⟨fun _ => id, ⟨"", String.append_empty.symm⟩, machine.world.device.read_leaves⟩
  | _ => exact machine.world.grows_refl

theorem perform_grows (machine : Machine) (command : Command) (rest : List Command) (deed : Deed) :
    machine.world.Grows (machine.perform command rest deed).world := by
  cases deed with
  | print text => exact ⟨fun _ => id, ⟨text, rfl⟩, machine.world.device.leaves_refl⟩
  | write place value =>
      cases place with
      | var name => exact machine.world.grows_refl
      | cell address => exact ⟨fun _ => id, ⟨"", String.append_empty.symm⟩, machine.world.device.leaves_refl⟩
  | define name params =>
      exact ⟨World.find_put_kept name ⟨params, command.body⟩ machine.world.programs,
        ⟨"", String.append_empty.symm⟩, machine.world.device.leaves_refl⟩
  | _ => exact machine.world.grows_refl

theorem step_grows (machine : Machine) : machine.world.Grows machine.step.world := by
  obtain ⟨control, scope, pending, world⟩ := machine
  cases control with
  | run code =>
      cases code with
      | nil => exact world.grows_refl
      | cons command rest =>
          rw [step_running]
          exact World.grows_trans _ _ _ (consume_grows _ command.head) (perform_grows _ command rest _)
  | done exit =>
      cases pending with
      | nil => exact world.grows_refl
      | cons next more =>
          have same := resume_world ⟨.done exit, scope, more, world⟩ exit next
          change world.Grows (Machine.resume ⟨.done exit, scope, more, world⟩ exit next).world
          rw [same]
          exact world.grows_refl

theorem run_grows (steps : Nat) (machine : Machine) : machine.world.Grows (machine.run steps).world :=
  run_keeps (fun reached => machine.world.Grows reached.world)
    (fun reached before => World.grows_trans _ _ _ before reached.step_grows) steps machine machine.world.grows_refl

end Machine

-- Whatever is left early, the outermost frame is reached again in the end, with the names that it held.
def Pending.Grounded (globals : List String) : List (List String) → List Pending → Prop
  | names, [] => ∃ frame, names = [frame] ∧ globals ⊆ frame
  | names, .block _ :: more => names.tail ≠ [] ∧ Grounded globals names.tail more
  | _, .call _ _ caller _ :: more => Grounded globals caller.names more

namespace Machine

def Grounded (globals : List String) (machine : Machine) : Prop :=
  Pending.Grounded globals machine.scope.names machine.pending

variable (globals : List String)

theorem grounded_put (scope : Scope) (name : String) (value : Value) (pending : List Pending)
    (grounded : Pending.Grounded globals scope.names pending) :
    Pending.Grounded globals (scope.insert name value).names pending := by
  cases pending with
  | nil =>
      obtain ⟨frame, single, held⟩ := grounded
      obtain ⟨first, outermost⟩ := List.cons.inj single
      refine ⟨_, congrArg _ outermost, ?_⟩
      change globals ⊆ Table.names (Table.put name value scope.innermost)
      rw [Table.names_put, first]
      split
      · exact held
      · exact List.subset_append_of_subset_left _ held
  | cons next more =>
      cases next with
      | block rest => exact grounded
      | call line capture caller rest => exact grounded

theorem perform_grounded (machine : Machine) (command : Command) (rest : List Command) (deed : Deed)
    (grounded : machine.Grounded globals) : (machine.perform command rest deed).Grounded globals := by
  cases deed with
  | write place value =>
      cases place with
      | cell address => exact grounded
      | var name =>
          change Pending.Grounded globals (machine.scope.update name value).names machine.pending
          rw [machine.scope.names_update name value]
          exact grounded
  | declare name value => exact grounded_put globals machine.scope name value machine.pending grounded
  | enter again => exact ⟨List.cons_ne_nil _ _, grounded⟩
  | _ => exact grounded

theorem resume_grounded (machine : Machine) (exit : Exit) (next : Pending)
    (grounded : Pending.Grounded globals machine.scope.names (next :: machine.pending)) :
    (machine.resume exit next).Grounded globals := by
  cases next with
  | block rest =>
      obtain ⟨nested, outside⟩ := grounded
      rw [← machine.scope.names_leave nested] at outside
      cases exit <;> exact outside
  | call line capture caller rest =>
      simp only [resume]
      split
      · exact grounded
      · next value name =>
          rw [Scope.assign_update]
          by_cases held : (caller.find name).isSome
          · rw [if_pos held]
            change Pending.Grounded globals (caller.update name value).names machine.pending
            rw [caller.names_update name value]
            exact grounded
          · rw [if_neg held]
            exact grounded
      · exact grounded
      · exact grounded

theorem step_grounded (machine : Machine) (grounded : machine.Grounded globals) : machine.step.Grounded globals := by
  obtain ⟨control, scope, pending, world⟩ := machine
  cases control with
  | run code =>
      cases code with
      | nil => exact grounded
      | cons command rest =>
          have consumed :
              ((Machine.mk (.run (command :: rest)) scope pending world).consume command.head).Grounded globals := by
            cases command.head <;> exact grounded
          rw [step_running]
          exact perform_grounded globals _ command rest _ consumed
  | done exit =>
      cases pending with
      | nil => exact grounded
      | cons next more => exact resume_grounded globals ⟨.done exit, scope, more, world⟩ exit next grounded

theorem run_grounded (steps : Nat) (machine : Machine) (grounded : machine.Grounded globals) :
    (machine.run steps).Grounded globals :=
  run_keeps (Grounded globals) (step_grounded globals) steps machine grounded

def Read (machine : Machine) : Prop := ∀ exit, machine.control = .done exit → exit.isUnread = false

theorem perform_read (machine : Machine) (command : Command) (rest : List Command) (deed : Deed) :
    (machine.perform command rest deed).Read := by
  intro exit ended
  cases deed with
  | give value =>
      cases ended
      rfl
  | fail fault =>
      cases ended
      rfl
  | starve cause =>
      cases ended
      rfl
  | _ => cases ended

theorem resume_read (machine : Machine) (exit : Exit) (next : Pending) (read : exit.isUnread = false) :
    (machine.resume exit next).Read := by
  intro final ended
  cases next with
  | block rest =>
      cases exit with
      | fellThrough => cases ended
      | returned value =>
          cases ended
          rfl
      | failed error =>
          cases ended
          exact read
  | call line capture caller rest =>
      simp only [resume] at ended
      split at ended
      · cases ended
        exact read
      · split at ended
        · cases ended
        · cases ended
          rfl
      · cases ended
      · cases ended

theorem step_read (machine : Machine) (read : machine.Read) : machine.step.Read := by
  obtain ⟨control, scope, pending, world⟩ := machine
  cases control with
  | run code =>
      cases code with
      | nil =>
          intro exit ended
          cases ended
          rfl
      | cons command rest =>
          rw [step_running]
          exact perform_read _ command rest _
  | done exit =>
      cases pending with
      | nil => exact read
      | cons next more => exact resume_read ⟨.done exit, scope, more, world⟩ exit next (read exit rfl)

end Machine

namespace Session

def through : Session → List Turn → Session
  | session, [] => session
  | _, turn :: more => through turn.after more

theorem takes_append (session : Session) (front back : List Turn) :
    session.Takes (front ++ back) ↔ session.Takes front ∧ (session.through front).Takes back := by
  induction front generalizing session with
  | nil => simp [Takes, through]
  | cons turn more ih => simp [Takes, through, ih, and_assoc]

theorem run_read (session : Session) (commands : List Command) (steps : Nat) (exit : Exit) (after : Session)
    (ended : session.run steps commands = some (exit, after)) : exit.isUnread = false := by
  have initial : (Machine.start commands session.globals session.world).Read := fun _ => nofun
  have final := Machine.run_keeps Machine.Read Machine.step_read steps _ initial
  rw [session.run_done commands steps exit after ended] at final
  exact final exit rfl

theorem ends_unread (session after : Session) (source : String) (exit : Exit) (ended : session.Ends source exit after)
    (unread : exit.isUnread) : after = session := by
  obtain ⟨steps, fed⟩ := ended
  rw [feed] at fed
  split at fed
  · next commands _ =>
      rw [session.run_read commands steps exit after fed] at unread
      cases unread
  · cases fed
    rfl

theorem ends_grows (session after : Session) (source : String) (exit : Exit) (ended : session.Ends source exit after) :
    session.world.Grows after.world := by
  obtain ⟨steps, fed⟩ := ended
  rw [feed] at fed
  split at fed
  · next commands _ =>
      have grown := Machine.run_grows steps (.start commands session.globals session.world)
      rw [session.run_done commands steps exit after fed] at grown
      exact grown
  · cases fed
    exact session.world.grows_refl

theorem ends_grounded (session after : Session) (source : String) (exit : Exit) (names : List String)
    (single : session.globals.names = [names]) (ended : session.Ends source exit after) :
    ∃ frame, after.globals.names = [frame] ∧ names ⊆ frame := by
  obtain ⟨steps, fed⟩ := ended
  rw [feed] at fed
  split at fed
  · next commands _ =>
      have initial : (Machine.start commands session.globals session.world).Grounded names :=
        ⟨names, single, List.Subset.refl names⟩
      have final := Machine.run_grounded names steps _ initial
      rw [session.run_done commands steps exit after fed] at final
      exact final
  · cases fed
    exact ⟨names, single, List.Subset.refl names⟩

theorem ends_unique (session first second : Session) (source : String) (exit other : Exit)
    (ended : session.Ends source exit first) (again : session.Ends source other second) :
    exit = other ∧ first = second := by
  obtain ⟨steps, fed⟩ := ended
  obtain ⟨more, fedAgain⟩ := again
  rw [feed] at fed fedAgain
  cases read : Command.ofSource source with
  | ok commands =>
      rw [read] at fed fedAgain
      have firstDone := session.run_done commands steps exit first fed
      have secondDone := session.run_done commands more other second fedAgain
      have longer := Machine.run_add steps more (.start commands session.globals session.world)
      have shorter := Machine.run_add more steps (.start commands session.globals session.world)
      rw [firstDone, Machine.run_halted more _ rfl] at longer
      rw [secondDone, Machine.run_halted steps _ rfl, Nat.add_comm, longer] at shorter
      obtain ⟨globals, world⟩ := first
      obtain ⟨others, otherWorld⟩ := second
      cases shorter
      exact ⟨rfl, rfl⟩
  | error failure =>
      rw [read] at fed fedAgain
      cases fed
      cases fedAgain
      exact ⟨rfl, rfl⟩

theorem takes_unique (session : Session) (turns others : List Turn) (taken : session.Takes turns)
    (again : session.Takes others) (same : others.map Turn.source = turns.map Turn.source) : others = turns := by
  induction turns generalizing session others with
  | nil => exact List.map_eq_nil_iff.mp same
  | cons turn more ih =>
      obtain ⟨other, further, rfl, first, rest⟩ := List.map_eq_cons_iff.mp same
      obtain ⟨source, exit, after⟩ := turn
      obtain ⟨otherSource, otherExit, otherAfter⟩ := other
      cases first
      obtain ⟨rfl, rfl⟩ := ends_unique session otherAfter after source otherExit exit again.1 taken.1
      rw [ih otherAfter further taken.2 again.2 rest]

end Session

structure Turn.Survived (before : Session) (turn : Turn) : Prop where
  oneFrame : turn.after.globals.depth = 1
  globals : ∀ name, (before.globals.find name).isSome → (turn.after.globals.find name).isSome
  programs : ∀ name, (before.program name).isSome → (turn.after.program name).isSome
  cells : turn.after.world.memory.cells.size = 10000
  bounded : ∀ index cell, Memory.address index = .ok cell → cell < turn.after.world.memory.cells.size
  output : before.world.output.toList <+: turn.after.world.output.toList
  input : before.world.device.Leaves turn.after.world.device
  unread : turn.exit.isUnread → turn.after = before

inductive Turn.Thinned : List Turn → List Turn → Prop where
  | nil : Thinned [] []
  | keep (turn : Turn) (turns kept : List Turn) : Thinned turns kept → Thinned (turn :: turns) (turn :: kept)
  | skip (turn : Turn) (turns kept : List Turn) : turn.exit.isUnread → Thinned turns kept → Thinned (turn :: turns) kept

namespace Session

def Rested (session : Session) : Prop := ∃ names, session.globals.names = [names]

theorem start_rested (device : Device) : (start device).Rested := ⟨[], rfl⟩

theorem ends_rested (session after : Session) (source : String) (exit : Exit) (rested : session.Rested)
    (ended : session.Ends source exit after) : after.Rested := by
  obtain ⟨names, single⟩ := rested
  obtain ⟨frame, still, _⟩ := ends_grounded session after source exit names single ended
  exact ⟨frame, still⟩

theorem takes_rested (session : Session) (turns : List Turn) (rested : session.Rested) (taken : session.Takes turns) :
    (session.through turns).Rested := by
  induction turns generalizing session with
  | nil => exact rested
  | cons turn more ih => exact ih turn.after (ends_rested session _ _ _ rested taken.1) taken.2

theorem ends_survived (session : Session) (turn : Turn) (rested : session.Rested)
    (ended : session.Ends turn.source turn.exit turn.after) : turn.Survived session := by
  obtain ⟨names, single⟩ := rested
  obtain ⟨frame, still, held⟩ := ends_grounded session turn.after _ _ names single ended
  have grown := ends_grows session turn.after _ _ ended
  have cells : turn.after.world.memory.cells.size = Memory.capacity := turn.after.world.memory.sized
  refine ⟨?_, ?_, grown.programs, cells, ?_, ?_, grown.input, ends_unread session turn.after _ _ ended⟩
  · have count := congrArg List.length still
    rwa [Scope.names, List.length_map] at count
  · intro name declared
    rw [Scope.find_names, single, List.flatten_singleton] at declared
    rw [Scope.find_names, still, List.flatten_singleton]
    exact held declared
  · intro index cell found
    rw [cells]
    exact Memory.address_bounded index cell found
  · obtain ⟨more, printed⟩ := grown.output
    exact ⟨more.toList, by rw [printed, String.toList_append]⟩

theorem takes_thinned (session : Session) (turns kept : List Turn) (thinned : Turn.Thinned turns kept)
    (taken : session.Takes turns) : session.Takes kept := by
  induction thinned generalizing session with
  | nil => trivial
  | keep turn turns kept _ ih => exact ⟨taken.1, ih turn.after taken.2⟩
  | skip turn turns kept unread _ ih =>
      have unchanged := ends_unread session turn.after _ _ taken.1 unread
      exact ih session (unchanged ▸ taken.2)

/-- Whatever becomes of a source, the session goes on with what it had; a source that is no program might as well not
have been fed. -/
theorem takes_survived (device : Device) (turns : List Turn) (taken : (start device).Takes turns) :
    (∀ front turn back, turns = front ++ turn :: back → turn.Survived ((start device).through front)) ∧
      ∀ kept, Turn.Thinned turns kept → (start device).Takes kept ∧
        ∀ others, (start device).Takes others → others.map Turn.source = kept.map Turn.source → others = kept := by
  refine ⟨?_, ?_⟩
  · rintro front turn back rfl
    obtain ⟨before, here, _⟩ := (takes_append _ front (turn :: back)).mp taken
    exact ends_survived _ turn (takes_rested _ front (start_rested device) before) here
  · intro kept thinned
    have still := takes_thinned _ turns kept thinned taken
    exact ⟨still, fun others again same => takes_unique _ kept others still again same⟩

theorem takes_survived_failures :
    ∃ defined broken starved : Session,
      let source := "new :x 1\nprogram $f :a\n  = [0] :a\n  if ?true\n    log 1 / 0"
      (start (.script ['q'])).Takes
        [⟨source, .fellThrough, defined⟩, ⟨"log 1 +", .failed (.shape 1 .emptyExpression), defined⟩,
          ⟨"call $f 7", .failed (.fault 5 .divisionByZero), broken⟩,
          ⟨"read [1]\nread [1]", .failed (.input .scriptEnded), starved⟩] ∧
      Turn.Survived defined ⟨"call $f 7", .failed (.fault 5 .divisionByZero), broken⟩ ∧
      (start (.script ['q'])).Takes
        [⟨source, .fellThrough, defined⟩, ⟨"call $f 7", .failed (.fault 5 .divisionByZero), broken⟩,
          ⟨"read [1]\nread [1]", .failed (.input .scriptEnded), starved⟩] := by
  let body : List Command :=
    [⟨3, .assign (.cell (.integer 0)) (.var "a"), []⟩,
      ⟨4, .branch (.boolean true), [⟨5, .log (.binary (.integer 1) .divide (.integer 0)), []⟩]⟩]
  let defined : Session :=
    ⟨Scope.empty.insert "x" (.integer 1), { World.start (.script ['q']) with programs := .put "f" ⟨["a"], body⟩ .empty }⟩
  let broken : Session := ⟨defined.globals, { defined.world with memory := Memory.blank.store 0 (.integer 7) }⟩
  let starved : Session :=
    ⟨defined.globals, { broken.world with memory := broken.world.memory.store 1 (.text "q"), device := .script [] }⟩
  have first : (start (.script ['q'])).Ends "new :x 1\nprogram $f :a\n  = [0] :a\n  if ?true\n    log 1 / 0"
      .fellThrough defined := ⟨3, by with_unfolding_all rfl⟩
  have second : defined.Ends "log 1 +" (.failed (.shape 1 .emptyExpression)) defined := ⟨0, by with_unfolding_all rfl⟩
  have third : defined.Ends "call $f 7" (.failed (.fault 5 .divisionByZero)) broken := ⟨6, by with_unfolding_all rfl⟩
  have fourth : broken.Ends "read [1]\nread [1]" (.failed (.input .scriptEnded)) starved :=
    ⟨2, by with_unfolding_all rfl⟩
  have taken : (start (.script ['q'])).Takes
      [⟨_, .fellThrough, defined⟩, ⟨_, .failed (.shape 1 .emptyExpression), defined⟩,
        ⟨_, .failed (.fault 5 .divisionByZero), broken⟩, ⟨_, .failed (.input .scriptEnded), starved⟩] :=
    ⟨first, second, third, fourth, trivial⟩
  obtain ⟨survived, thinned⟩ := takes_survived (.script ['q']) _ taken
  refine ⟨defined, broken, starved, taken, survived [_, _] _ [_] rfl, (thinned _ ?_).1⟩
  exact .keep _ _ _ (.skip _ _ _ rfl (.keep _ _ _ (.keep _ _ _ .nil)))

end Session

end Offside
