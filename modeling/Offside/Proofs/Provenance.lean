import Offside.Proofs.Culprits
import Offside.Proofs.Decisions
import Offside.Proofs.Layout
import Offside.Proofs.Unread

set_option autoImplicit false

namespace Offside

namespace Command

inductive Among (commands : List Command) : Command → Prop where
  | outermost (command : Command) : command ∈ commands → Among commands command
  | nested (outer inner : Command) : Among commands outer → inner ∈ outer.body → Among commands inner

theorem among_nil (command : Command) : ¬ Among [] command := by
  intro among
  induction among with
  | outermost command member => cases member
  | nested outer inner _ _ ih => exact ih

theorem among_cons (first : Command) (more : List Command) (command : Command) (among : Among (first :: more) command) :
    command = first ∨ Among first.body command ∨ Among more command := by
  induction among with
  | outermost command member =>
      rcases List.mem_cons.mp member with same | later
      · exact .inl same
      · exact .inr (.inr (.outermost command later))
  | nested outer inner _ below ih =>
      rcases ih with rfl | inside | later
      · exact .inr (.inl (.outermost inner below))
      · exact .inr (.inl (.nested outer inner inside below))
      · exact .inr (.inr (.nested outer inner later below))

theorem among_body (commands : List Command) (outer inner : Command) (among : Among commands outer)
    (below : Among outer.body inner) : Among commands inner := by
  induction below with
  | outermost command member => exact .nested outer command among member
  | nested between command _ member ih => exact .nested between command ih member

end Command

theorem Block.lays_plain (depth : Nat) (lines : List Line) (commands : List Command) (laid : Lays depth lines commands)
    (command : Command) (among : Command.Among commands command) : command.head.IsPlain := by
  induction laid with
  | nil depth => exact absurd among (Command.among_nil command)
  | plain depth line rest head more level formed closed after ih =>
      rcases Command.among_cons _ more command among with rfl | inside | later
      · exact head.of_symbols_plain line.content formed
      · exact absurd inside (Command.among_nil command)
      · exact ih later
  | block depth below line inner rest head body more level formed opens deeper nonempty inside after body_ih more_ih =>
      rcases Command.among_cons _ more command among with rfl | inside | later
      · exact head.of_symbols_plain line.content formed
      · exact body_ih inside
      · exact more_ih later

theorem Command.of_source_plain (source : String) (commands : List Command) (read : ofSource source = .ok commands)
    (command : Command) (among : Among commands command) : command.head.IsPlain := by
  obtain ⟨lines, _, parsed⟩ := of_source_ok source commands read
  exact Block.lays_plain 0 lines commands (of_lines_lays lines commands parsed) command among

structure Command.Closed (known : Command → Prop) : Prop where
  body : ∀ command, known command → ∀ inner ∈ command.body, known inner
  plain : ∀ command, known command → command.head.IsPlain

section

variable (known : Command → Prop)

def Exit.Blames (exit : Exit) : Prop :=
  ∀ line fault, exit = .failed (.fault line fault) →
    ∃ command, known command ∧ command.line = line ∧ command.head.keyword ∈ fault.raisers

def Control.Stems : Control → Prop
  | .run code => ∀ command ∈ code, known command
  | .done exit => exit.Blames known

-- A call that is under way may still fail when its result is stored.
def Pending.Stems : Pending → Prop
  | .block rest => ∀ command ∈ rest, known command
  | .call line _ _ rest =>
      (∃ command, known command ∧ command.line = line ∧ command.head.keyword = .call) ∧ ∀ command ∈ rest, known command

-- Programs are made up of known commands. Each was there before or is what a known command defines.
structure World.Stems (before : Table Program) (world : World) : Prop where
  body : ∀ name program, world.programs.find name = some program → ∀ command ∈ program.body, known command
  origin : ∀ name program, world.programs.find name = some program →
    before.find name = some program ∨ ∃ line, known ⟨line, .define name program.params, program.body⟩

namespace Machine

structure Stems (before : Table Program) (machine : Machine) : Prop where
  control : machine.control.Stems known
  pending : ∀ next ∈ machine.pending, next.Stems known
  world : machine.world.Stems known before

variable (before : Table Program)

theorem done_stems (machine : Machine) (exit : Exit) (unblamed : ∀ line fault, exit ≠ .failed (.fault line fault))
    (pending : ∀ next ∈ machine.pending, next.Stems known) (world : machine.world.Stems known before) :
    (machine.finish exit).Stems known before :=
  ⟨fun line fault same => absurd same (unblamed line fault), pending, world⟩

theorem define_stems (world : World) (line : Nat) (name : String) (params : List String) (body : List Command)
    (closed : Command.Closed known) (defined : known ⟨line, .define name params, body⟩) (stems : world.Stems known before) :
    World.Stems known before { world with programs := Table.put name ⟨params, body⟩ world.programs } := by
  constructor
  · intro called program found
    rw [Table.find_put] at found
    split at found
    · cases found
      exact closed.body _ defined
    · exact stems.body called program found
  · intro called program found
    rw [Table.find_put] at found
    split at found
    · next same =>
        subst same
        cases found
        exact .inr ⟨line, defined⟩
    · exact stems.origin called program found

theorem perform_stems (machine : Machine) (world : World) (command : Command) (rest : List Command) (deed : Deed)
    (closed : Command.Closed known) (decided : Decides machine.scope world command.head deed)
    (raised : ∀ fault, deed = .fail fault → command.head.keyword ∈ fault.raisers)
    (code : ∀ next ∈ command :: rest, known next) (pending : ∀ next ∈ machine.pending, next.Stems known)
    (table : world.Stems known before) (stems : machine.world.Stems known before) :
    (machine.perform command rest deed).Stems known before := by
  obtain ⟨here, others⟩ := List.forall_mem_cons.mp code
  have inside := closed.body command here
  obtain ⟨line, head, body⟩ := command
  cases decided with
  | print value text => exact ⟨others, pending, stems.body, stems.origin⟩
  | read target place value _ => cases place <;> exact ⟨others, pending, stems.body, stems.origin⟩
  | assign target value place result _ => cases place <;> exact ⟨others, pending, stems.body, stems.origin⟩
  | declare name value result _ => exact ⟨others, pending, stems⟩
  | skipBranch condition => exact ⟨others, pending, stems⟩
  | skipLoop condition => exact ⟨others, pending, stems⟩
  | enterBranch condition => exact ⟨inside, List.forall_mem_cons.mpr ⟨others, pending⟩, stems⟩
  | enterLoop condition => exact ⟨inside, List.forall_mem_cons.mpr ⟨code, pending⟩, stems⟩
  | define name params => exact ⟨others, pending, define_stems known before _ line name params body closed here stems⟩
  | call name arguments capture program callee found _ _ =>
      have waiting : (Pending.call line capture machine.scope rest).Stems known := ⟨⟨_, here, rfl, rfl⟩, others⟩
      exact ⟨table.body name program found, List.forall_mem_cons.mpr ⟨waiting, pending⟩, stems⟩
  | give value result => exact done_stems known before machine _ nofun pending stems
  | fail _ fault _ =>
      refine ⟨?_, pending, stems⟩
      intro blamed cause same
      cases same
      exact ⟨_, here, rfl, raised fault rfl⟩
  | starve target cause => exact done_stems known before machine _ nofun pending stems

theorem resume_stems (machine : Machine) (exit : Exit) (next : Pending) (blames : exit.Blames known)
    (here : next.Stems known) (pending : ∀ next ∈ machine.pending, next.Stems known)
    (stems : machine.world.Stems known before) : (machine.resume exit next).Stems known before := by
  cases next with
  | block rest =>
      cases exit with
      | fellThrough => exact ⟨here, pending, stems⟩
      | returned value => exact ⟨blames, pending, stems⟩
      | failed error => exact ⟨blames, pending, stems⟩
  | call line capture caller rest =>
      obtain ⟨⟨command, present, same, keyword⟩, others⟩ := here
      cases exit with
      | fellThrough => exact ⟨others, pending, stems⟩
      | failed error => exact ⟨blames, pending, stems⟩
      | returned value =>
          cases value with
          | none => exact ⟨others, pending, stems⟩
          | some value =>
              cases capture with
              | none => exact ⟨others, pending, stems⟩
              | some name =>
                  rw [resume, Scope.assign_update]
                  by_cases held : (caller.find name).isSome
                  · rw [if_pos held]
                    exact ⟨others, pending, stems⟩
                  · rw [if_neg held]
                    refine ⟨?_, pending, stems⟩
                    intro blamed cause failed
                    cases failed
                    exact ⟨command, present, same, Fault.operand_raised _ _ rfl (by rw [keyword]; decide)⟩

theorem consume_receive (machine : Machine) (head : Head) : ∃ device, machine.consume head = machine.receive device := by
  cases head with
  | read target => exact ⟨machine.world.device.read.2, rfl⟩
  | _ => exact ⟨machine.world.device, rfl⟩

theorem step_stems (closed : Command.Closed known) (machine : Machine) (stems : machine.Stems known before) :
    machine.step.Stems known before := by
  obtain ⟨control, scope, pending, world⟩ := machine
  obtain ⟨current, waiting, table⟩ := stems
  cases control with
  | run code =>
      cases code with
      | nil => exact done_stems known before _ .fellThrough nofun waiting table
      | cons command rest =>
          obtain ⟨device, received⟩ := consume_receive ⟨.run (command :: rest), scope, pending, world⟩ command.head
          have plain := closed.plain command (current command List.mem_cons_self)
          rw [step_running, received]
          exact perform_stems known before _ world command rest _ closed (Deed.decides scope world command.head)
            (fun fault failed => Deed.fail_raised scope world command.head fault plain failed) current waiting table
            ⟨table.body, table.origin⟩
  | done exit =>
      cases pending with
      | nil => exact ⟨current, waiting, table⟩
      | cons next more =>
          obtain ⟨here, others⟩ := List.forall_mem_cons.mp waiting
          exact resume_stems known before ⟨.done exit, scope, more, world⟩ exit next current here others table

theorem run_stems (closed : Command.Closed known) (steps : Nat) (machine : Machine) (stems : machine.Stems known before) :
    (machine.run steps).Stems known before :=
  run_keeps (Stems known before) (step_stems known before closed) steps machine stems

end Machine

end

inductive Command.Reachable (commands : List Command) (programs : Table Program) : Command → Prop where
  | written (command : Command) : Among commands command → Reachable commands programs command
  | defined (name : String) (program : Program) (command : Command) : programs.find name = some program →
      Among program.body command → Reachable commands programs command

def World.Written (sources : List String) (world : World) : Prop :=
  ∀ name program, world.programs.find name = some program →
    ∃ source ∈ sources, ∃ commands line, Command.ofSource source = .ok commands ∧
      Command.Among commands ⟨line, .define name program.params, program.body⟩

theorem World.written_more (sources : List String) (source : String) (world : World) (written : world.Written sources) :
    world.Written (sources ++ [source]) := by
  intro name program found
  obtain ⟨earlier, member, rest⟩ := written name program found
  exact ⟨earlier, List.mem_append_left _ member, rest⟩

theorem Command.reachable_closed (sources : List String) (source : String) (commands : List Command) (world : World)
    (read : ofSource source = .ok commands) (written : world.Written sources) : Closed (Reachable commands world.programs) := by
  constructor
  · intro command reachable inner member
    cases reachable with
    | written _ among => exact .written inner (.nested command inner among member)
    | defined name program _ found among => exact .defined name program inner found (.nested command inner among member)
  · intro command reachable
    cases reachable with
    | written _ among => exact of_source_plain source commands read command among
    | defined name program _ found among =>
        obtain ⟨earlier, _, others, line, earlierRead, definition⟩ := written name program found
        exact of_source_plain earlier others earlierRead command (among_body others _ command definition among)

namespace Session

theorem start_stems (session : Session) (commands : List Command) :
    (Machine.start commands session.globals session.world).Stems (Command.Reachable commands session.world.programs)
      session.world.programs := by
  refine ⟨?_, List.forall_mem_nil _, ?_, ?_⟩
  · intro command member
    exact .written command (.outermost command member)
  · intro name program found command member
    exact .defined name program command found (.outermost command member)
  · intro name program found
    exact .inl found

theorem run_written (session : Session) (sources : List String) (source : String) (commands : List Command) (steps : Nat)
    (read : Command.ofSource source = .ok commands) (written : session.world.Written sources) :
    ((Machine.start commands session.globals session.world).run steps).world.Written (sources ++ [source]) := by
  have closed := Command.reachable_closed sources source commands session.world read written
  have stems := Machine.run_stems _ _ closed steps _ (session.start_stems commands)
  intro name program found
  rcases stems.world.origin name program found with before | ⟨line, reachable⟩
  · exact session.world.written_more sources source written name program before
  · cases reachable with
    | written _ among => exact ⟨source, List.mem_append_right _ (List.mem_singleton_self source), commands, line, read, among⟩
    | defined called earlier _ held among =>
        obtain ⟨origin, member, others, place, originRead, definition⟩ := written called earlier held
        exact ⟨origin, List.mem_append_left _ member, others, line, originRead, Command.among_body others _ _ definition among⟩

end Session

structure Turn.Explained (sources : List String) (before : Session) (turn : Turn) : Prop where
  written : turn.after.world.Written (sources ++ [turn.source])
  culprit : ∀ line fault, turn.exit = .failed (.fault line fault) →
    ∃ commands command, Command.ofSource turn.source = .ok commands ∧
      Command.Reachable commands before.world.programs command ∧ command.line = line ∧
      command.head.keyword ∈ fault.raisers

namespace Session

theorem ends_explained (session : Session) (sources : List String) (turn : Turn) (written : session.world.Written sources)
    (ended : session.Ends turn.source turn.exit turn.after) : turn.Explained sources session := by
  obtain ⟨steps, fed⟩ := ended
  rw [feed] at fed
  split at fed
  · next commands read =>
      have closed := Command.reachable_closed sources turn.source commands session.world read written
      have stems := Machine.run_stems _ _ closed steps _ (session.start_stems commands)
      have table := session.run_written sources turn.source commands steps read written
      rw [session.run_done commands steps turn.exit turn.after fed] at stems table
      refine ⟨table, ?_⟩
      intro line fault failed
      obtain ⟨command, reachable, same, raised⟩ := stems.control line fault failed
      exact ⟨commands, command, read, reachable, same, raised⟩
  · next error unread =>
      simp only [Option.some.injEq, Prod.mk.injEq] at fed
      obtain ⟨failed, unchanged⟩ := fed
      refine ⟨unchanged ▸ session.world.written_more sources turn.source written, ?_⟩
      intro line fault same
      rw [← failed] at same
      cases same
      cases Command.of_source_unread turn.source _ unread

theorem takes_written (session : Session) (sources : List String) (turns : List Turn)
    (written : session.world.Written sources) (taken : session.Takes turns) :
    (session.through turns).world.Written (sources ++ turns.map Turn.source) := by
  induction turns generalizing session sources with
  | nil => rwa [List.map_nil, List.append_nil]
  | cons turn more ih =>
      obtain ⟨ended, others⟩ := taken
      have next := ih turn.after (sources ++ [turn.source]) (ends_explained session sources turn written ended).written others
      rwa [List.append_assoc] at next

/-- At any moment, the end of a run or not, the programs are those that the sources so far define. A fault is blamed on
a command that can raise it, which a definition never can. -/
theorem takes_sourced (device : Device) (turns : List Turn) (taken : (start device).Takes turns) :
    (∀ front turn back, turns = front ++ turn :: back →
      turn.Explained (front.map Turn.source) ((start device).through front)) ∧
    (∀ source commands steps, Command.ofSource source = .ok commands →
      let session := (start device).through turns
      ((Machine.start commands session.globals session.world).run steps).world.Written (turns.map Turn.source ++ [source])) ∧
    (∀ fault : Fault, Keyword.define ∉ fault.raisers) ∧
    ∀ (machine : Machine) (line : Nat) (name : String) (params : List String) (body rest : List Command),
      (machine.execute ⟨line, .define name params, body⟩ rest).control = .run rest := by
  have initial : (start device).world.Written [] := fun name program => nofun
  refine ⟨?_, ?_, fun fault => fault.origin.define_never_raises, fun _ _ _ _ _ _ => rfl⟩
  · rintro front turn back rfl
    obtain ⟨before, here, _⟩ := (takes_append _ front (turn :: back)).mp taken
    exact ends_explained _ _ turn (takes_written (start device) [] front initial before) here
  · intro source commands steps read session
    exact session.run_written _ source commands steps read (takes_written (start device) [] turns initial taken)

theorem takes_sourced_callee :
    ∃ defined : Session,
      let source := "program $f :a\n  if ?true\n    log :a / 0"
      (start (.script [])).Takes
        [⟨source, .fellThrough, defined⟩, ⟨"call $f 1", .failed (.fault 3 .divisionByZero), defined⟩,
          ⟨"\ncall $f 1 2", .failed (.fault 2 (.argumentCount "f" 1 2)), defined⟩] ∧
      defined.world.Written [source] ∧
      (∃ commands command, Command.ofSource "call $f 1" = .ok commands ∧
        Command.Reachable commands defined.world.programs command ∧ command.line = 3 ∧
        command.head.keyword ∈ Fault.divisionByZero.raisers) ∧
      ∃ commands command, Command.ofSource "\ncall $f 1 2" = .ok commands ∧
        Command.Reachable commands defined.world.programs command ∧ command.line = 2 ∧ command.head.keyword = .call := by
  let body : List Command := [⟨2, .branch (.boolean true), [⟨3, .log (.binary (.var "a") .divide (.integer 0)), []⟩]⟩]
  let defined : Session := ⟨.empty, { World.start (.script []) with programs := .put "f" ⟨["a"], body⟩ .empty }⟩
  have first : (start (.script [])).Ends "program $f :a\n  if ?true\n    log :a / 0" .fellThrough defined :=
    ⟨2, by with_unfolding_all rfl⟩
  have second : defined.Ends "call $f 1" (.failed (.fault 3 .divisionByZero)) defined := ⟨6, by with_unfolding_all rfl⟩
  have third : defined.Ends "\ncall $f 1 2" (.failed (.fault 2 (.argumentCount "f" 1 2))) defined :=
    ⟨1, by with_unfolding_all rfl⟩
  have taken : (start (.script [])).Takes
      [⟨_, .fellThrough, defined⟩, ⟨_, .failed (.fault 3 .divisionByZero), defined⟩,
        ⟨_, .failed (.fault 2 (.argumentCount "f" 1 2)), defined⟩] :=
    ⟨first, second, third, trivial⟩
  obtain ⟨explained, _⟩ := takes_sourced (.script []) _ taken
  have written := (explained [] _ [_, _] rfl).written
  have inCallee := (explained [_] _ [_] rfl).culprit 3 .divisionByZero rfl
  obtain ⟨commands, command, read, reachable, line, raised⟩ := (explained [_, _] _ [] rfl).culprit 2 _ rfl
  exact ⟨defined, taken, written, inCallee, commands, command, read, reachable, line, List.mem_singleton.mp raised⟩

end Session

end Offside
