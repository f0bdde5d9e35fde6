import Mathlib.Data.List.Forall2
import Mathlib.Data.Nat.Pairing
import Offside.Proofs.Renumbered
import Offside.Proofs.Rows
import Offside.Proofs.Sequels

set_option autoImplicit false

namespace Offside

structure Turn where
  source : String
  exit : Exit
  after : Session

namespace Session

def Ends (session : Session) (source : String) (exit : Exit) (after : Session) : Prop :=
  ∃ steps, session.feed steps source = some (exit, after)

def Takes : Session → List Turn → Prop
  | _, [] => True
  | session, turn :: more => session.Ends turn.source turn.exit turn.after ∧ Takes turn.after more

def outputs : Session → List Turn → List String
  | _, [] => []
  | session, turn :: more => turn.after.outputSince session :: outputs turn.after more

-- A run of the source at a place among several, in which the number of each line tells that place as well.
def EndsMarked (place : Nat) (session : Session) (source : String) (exit : Exit) (after : Session) : Prop :=
  ∃ commands steps, Command.ofSource source = .ok commands ∧
    session.run steps (Command.renumberAll (Nat.pair place) commands) = some (exit, after)

def TakesMarked : Nat → Session → List Turn → Prop
  | _, _, [] => True
  | place, session, turn :: more =>
      session.EndsMarked place turn.source turn.exit turn.after ∧ TakesMarked (place + 1) turn.after more

end Session

namespace Mark

def row (mark : Nat) : Nat := mark.unpair.2

-- The same row counted in all sources joined.
def rowIn (sources : List String) (mark : Nat) : Nat := Source.heightAbove sources mark.unpair.1 + mark.unpair.2

theorem row_pair (place : Nat) : (fun line => row (Nat.pair place line)) = fun line => line := by
  funext line
  rw [row, Nat.unpair_pair]

theorem row_in_first (source : String) (more : List String) :
    (fun line => rowIn (source :: more) (Nat.pair 0 line)) = fun line => line := by
  funext line
  simp [rowIn, Source.heightAbove]

theorem row_in_later (source : String) (more : List String) (place : Nat) :
    (fun line => rowIn (source :: more) (Nat.pair (place + 1) line)) =
      fun line => Source.height source + rowIn more (Nat.pair place line) := by
  funext line
  simp [rowIn, Source.heightAbove, Nat.add_assoc]

end Mark

namespace Command

def marked : Nat → List (List Command) → List Command
  | _, [] => []
  | place, commands :: more => renumberAll (Nat.pair place) commands ++ marked (place + 1) more

theorem unmark (place : Nat) (commands : List Command) :
    renumberAll Mark.row (renumberAll (Nat.pair place) commands) = commands := by
  rw [renumber_all_renumber_all, Mark.row_pair, renumber_all_same]

theorem lower_marked (source : String) (sources : List String) (place : Nat) (parsed : List (List Command)) :
    renumberAll (Mark.rowIn (source :: sources)) (marked (place + 1) parsed) =
      renumberAll (fun line => Source.height source + line) (renumberAll (Mark.rowIn sources) (marked place parsed)) := by
  induction parsed generalizing place with
  | nil => rfl
  | cons commands more ih =>
      simp only [marked, renumber_all_append, ih, renumber_all_renumber_all, Mark.row_in_later]

theorem lower_first (source : String) (sources : List String) (commands : List Command) :
    renumberAll (Mark.rowIn (source :: sources)) (renumberAll (Nat.pair 0) commands) = commands := by
  rw [renumber_all_renumber_all, Mark.row_in_first, renumber_all_same]

-- A block that is still open at the end of a source would have made it fail, so the next source begins a new command of
-- the outermost block.
theorem of_source_lined_cons (source next : String) (more : List String) (first rest : List Command)
    (read : ofSource source = .ok first) (others : ofSource (Source.lined (next :: more)) = .ok rest) :
    ofSource (Source.lined (source :: next :: more)) =
      .ok (first ++ renumberAll (fun line => Source.height source + line) rest) := by
  obtain ⟨front, frontLines, frontRead⟩ := of_source_ok source first read
  obtain ⟨back, backLines, backRead⟩ := of_source_ok _ rest others
  have text : (Source.lined (source :: next :: more)).toList =
      source.toList ++ '\n' :: (Source.lined (next :: more)).toList := by
    simp [Source.lined, String.toList_intercalate]
  have lines : Line.ofSource (Source.lined (source :: next :: more)) =
      .ok (front ++ back.map (Line.renumber fun line => Source.height source + line)) := by
    rw [Line.ofSource] at frontLines backLines ⊢
    rw [text, Line.of_rows_feed, frontLines, backLines]
    rfl
  rw [ofSource, lines]
  exact of_lines_append front _ first _ frontRead (of_lines_renumber _ back rest backRead)

theorem of_source_lined (sources : List String) (parsed : List (List Command))
    (each : List.Forall₂ (fun source commands => ofSource source = .ok commands) sources parsed) :
    ofSource (Source.lined sources) = .ok (renumberAll (Mark.rowIn sources) (marked 0 parsed)) := by
  induction each with
  | nil => rfl
  | @cons source commands sources parsed read rest ih =>
      cases rest with
      | nil =>
          have alone : Source.lined [source] = source := by
            apply String.toList_injective
            simp [Source.lined]
          rw [alone, read, marked, marked, List.append_nil, lower_first]
      | @cons next others more parsed' nextRead rest =>
          have later := lower_marked source (next :: more) 0 (others :: parsed')
          rw [of_source_lined_cons source next more commands _ read ih, ← later]
          nth_rewrite 1 [← lower_first source (next :: more) commands]
          rw [← renumber_all_append]
          rfl

end Command

namespace Session

theorem ends_parsed (session after : Session) (source : String) (exit : Exit) (commands : List Command)
    (parsed : Command.ofSource source = .ok commands) (ended : session.Ends source exit after) :
    ∃ steps, session.run steps commands = some (exit, after) := by
  obtain ⟨steps, fed⟩ := ended
  rw [feed, parsed] at fed
  exact ⟨steps, fed⟩

theorem ends_fell_through (session after : Session) (source : String) (ended : session.Ends source .fellThrough after) :
    ∃ commands, Command.ofSource source = .ok commands := by
  obtain ⟨steps, fed⟩ := ended
  rw [feed] at fed
  cases read : Command.ofSource source with
  | ok commands => exact ⟨commands, rfl⟩
  | error failure =>
      rw [read] at fed
      cases fed

theorem output_since (session earlier : Session) (more : String)
    (printed : session.world.output = earlier.world.output ++ more) : session.outputSince earlier = more := by
  rw [outputSince, printed, String.toList_append, ← String.length_toList, List.drop_left, String.ofList_toList]

theorem ends_output (session after : Session) (source : String) (exit : Exit) (ended : session.Ends source exit after) :
    after.world.output = session.world.output ++ after.outputSince session := by
  obtain ⟨steps, fed⟩ := ended
  rw [feed] at fed
  split at fed
  · next commands _ =>
      obtain ⟨more, printed⟩ := Machine.run_output steps (.start commands session.globals session.world)
      simp only [run, Option.map_eq_some_iff, Prod.mk.injEq] at fed
      obtain ⟨_, _, _, rfl⟩ := fed
      rw [output_since _ session more printed]
      exact printed
  · cases fed
    rw [output_since session session "" String.append_empty.symm, String.append_empty]

theorem takes_output (session : Session) (turns : List Turn) (last : Turn) (taken : session.Takes (turns ++ [last])) :
    last.after.world.output = session.world.output ++ String.join (session.outputs (turns ++ [last])) := by
  induction turns generalizing session with
  | nil =>
      rw [ends_output session last.after last.source last.exit taken.1]
      simp [outputs]
  | cons turn more ih =>
      rw [ih turn.after taken.2, ends_output session turn.after turn.source turn.exit taken.1]
      simp [outputs, String.append_assoc]

theorem ends_marked (place : Nat) (session after : Session) (source : String) (exit : Exit) (commands : List Command)
    (parsed : Command.ofSource source = .ok commands) (ended : (session.renumber Mark.row).Ends source exit after) :
    ∃ exit' after', session.EndsMarked place source exit' after' ∧
      exit = exit'.renumber Mark.row ∧ after = after'.renumber Mark.row := by
  obtain ⟨steps, ran⟩ := ends_parsed _ after source exit commands parsed ended
  rw [← Command.unmark place commands, run_renumber, Option.map_eq_some_iff] at ran
  obtain ⟨⟨exit', after'⟩, marked, same⟩ := ran
  cases same
  exact ⟨exit', after', ⟨commands, steps, parsed, marked⟩, rfl, rfl⟩

theorem takes_parsed (session : Session) (turns : List Turn) (last : Turn)
    (fell : ∀ turn ∈ turns, turn.exit = .fellThrough) (taken : session.Takes (turns ++ [last])) :
    ∀ turn ∈ turns, ∃ commands, Command.ofSource turn.source = .ok commands := by
  induction turns generalizing session with
  | nil => exact List.forall_mem_nil _
  | cons turn more ih =>
      obtain ⟨fellFirst, fellMore⟩ := List.forall_mem_cons.mp fell
      obtain ⟨first, others⟩ := taken
      rw [fellFirst] at first
      exact List.forall_mem_cons.mpr
        ⟨ends_fell_through session turn.after turn.source first, ih turn.after fellMore others⟩

end Session

def Turn.unmark (turn : Turn) : Turn := ⟨turn.source, turn.exit.renumber Mark.row, turn.after.renumber Mark.row⟩

namespace Session

theorem takes_marked (place : Nat) (session : Session) (turns : List Turn)
    (parsed : ∀ turn ∈ turns, ∃ commands, Command.ofSource turn.source = .ok commands)
    (taken : (session.renumber Mark.row).Takes turns) :
    ∃ marked, session.TakesMarked place marked ∧ marked.map Turn.unmark = turns := by
  induction turns generalizing place session with
  | nil => exact ⟨[], trivial, rfl⟩
  | cons turn more ih =>
      obtain ⟨source, exit, after⟩ := turn
      obtain ⟨first, others⟩ := taken
      obtain ⟨⟨commands, read⟩, moreParsed⟩ := List.forall_mem_cons.mp parsed
      obtain ⟨exit', after', ended, rfl, rfl⟩ := ends_marked place session after source exit commands read first
      obtain ⟨marked, moreTaken, rfl⟩ := ih (place + 1) after' moreParsed others
      exact ⟨⟨source, exit', after'⟩ :: marked, ⟨ended, moreTaken⟩, rfl⟩

theorem takes_marked_joined (place : Nat) (session : Session) (turns : List Turn) (last : Turn)
    (fell : ∀ turn ∈ turns, turn.exit = .fellThrough) (taken : session.TakesMarked place (turns ++ [last])) :
    ∃ parsed steps, List.Forall₂ (fun turn commands => Command.ofSource (Turn.source turn) = .ok commands)
        (turns ++ [last]) parsed ∧
      session.run steps (Command.marked place parsed) = some (last.exit, last.after) := by
  induction turns generalizing place session with
  | nil =>
      obtain ⟨⟨commands, steps, read, ran⟩, _⟩ := taken
      refine ⟨[commands], steps, .cons read .nil, ?_⟩
      rw [Command.marked, Command.marked, List.append_nil, ran]
  | cons turn more ih =>
      obtain ⟨fellFirst, fellMore⟩ := List.forall_mem_cons.mp fell
      obtain ⟨⟨commands, steps, read, ran⟩, others⟩ := taken
      obtain ⟨parsed, moreSteps, moreRead, moreRan⟩ := ih (place + 1) turn.after fellMore others
      rw [fellFirst] at ran
      simp only [run, Option.map_eq_some_iff, Prod.mk.injEq] at ran
      obtain ⟨_, ended, rfl, reached⟩ := ran
      obtain ⟨fewer, continued⟩ := Machine.run_append (Command.marked (place + 1) parsed) steps
        (.start (Command.renumberAll (Nat.pair place) commands) session.globals session.world) rfl ended
      refine ⟨commands :: parsed, fewer + moreSteps, .cons read moreRead, ?_⟩
      have entry : Machine.start (Command.marked place (commands :: parsed)) session.globals session.world =
          (Machine.start (Command.renumberAll (Nat.pair place) commands) session.globals session.world).append
            (Command.marked (place + 1) parsed) := rfl
      rw [run, entry, Machine.run_add, continued]
      rw [← reached] at moreRan
      exact moreRan

end Session

/-- Feeding sources one by one or all at once makes no difference but to the rows that errors are blamed on: the marks
tell which source holds the row, and in all sources joined it stands below the rows of those before. -/
theorem Session.feed_lined (device : Device) (turns : List Turn) (last : Turn) (commands : List Command)
    (fell : ∀ turn ∈ turns, turn.exit = .fellThrough) (parsed : Command.ofSource last.source = .ok commands)
    (taken : (Session.start device).Takes (turns ++ [last])) :
    ∃ exit whole, (Session.start device).Ends (Source.lined ((turns ++ [last]).map Turn.source)) exit whole ∧
      whole.world.output = String.join ((Session.start device).outputs (turns ++ [last])) ∧
      whole.world.memory = last.after.world.memory ∧ whole.world.device = last.after.world.device ∧
      whole.globals = last.after.globals ∧
      whole.world.programs.mapEntries (Program.renumber fun _ => 0) =
        last.after.world.programs.mapEntries (Program.renumber fun _ => 0) ∧
      ∃ marked origin, (Session.start device).TakesMarked 0 (marked ++ [origin]) ∧
        (marked ++ [origin]).map Turn.unmark = turns ++ [last] ∧
        last.exit = origin.exit.renumber Mark.row ∧
        exit = origin.exit.renumber (Mark.rowIn ((turns ++ [last]).map Turn.source)) := by
  have allParsed : ∀ turn ∈ turns ++ [last], ∃ commands, Command.ofSource turn.source = .ok commands := by
    intro turn member
    rcases List.mem_append.mp member with before | final
    · exact Session.takes_parsed _ turns last fell taken turn before
    · exact ⟨commands, List.mem_singleton.mp final ▸ parsed⟩
  obtain ⟨all, allTaken, unmarked⟩ := Session.takes_marked 0 (.start device) (turns ++ [last]) allParsed taken
  obtain ⟨marked, final, rfl, first, second⟩ := List.map_eq_append_iff.mp unmarked
  obtain ⟨origin, rfl, rfl⟩ := List.map_eq_singleton_iff.mp second
  subst first
  have markedFell : ∀ turn ∈ marked, turn.exit = .fellThrough := by
    intro turn member
    have plain := fell turn.unmark (List.mem_map_of_mem member)
    obtain ⟨source, exit, after⟩ := turn
    cases exit with
    | fellThrough => rfl
    | returned value => cases plain
    | failed error => cases plain
  obtain ⟨code, steps, read, ran⟩ := Session.takes_marked_joined 0 (.start device) marked origin markedFell allTaken
  have sources : (marked.map Turn.unmark ++ [origin.unmark]).map Turn.source = (marked ++ [origin]).map Turn.source := by
    simp [Turn.unmark]
  have whole := Command.of_source_lined ((marked ++ [origin]).map Turn.source) code (List.forall₂_map_left_iff.mpr read)
  refine ⟨origin.exit.renumber (Mark.rowIn ((marked ++ [origin]).map Turn.source)),
    origin.after.renumber (Mark.rowIn ((marked ++ [origin]).map Turn.source)), ⟨steps, ?_⟩, ?_, rfl, rfl, rfl, ?_,
    marked, origin, allTaken, unmarked, rfl, ?_⟩
  · have renumbered := Session.run_renumber (Mark.rowIn ((marked ++ [origin]).map Turn.source)) steps
      (Command.marked 0 code) (.start device)
    rw [ran, Option.map_some] at renumbered
    rw [sources, Session.feed, whole]
    exact renumbered
  · have output := Session.takes_output (.start device) (marked.map Turn.unmark) origin.unmark taken
    exact output.trans String.empty_append
  · simp only [Session.renumber, World.renumber, Turn.unmark, Table.map_entries_map_entries, Program.renumber_renumber]
  · rw [sources]

theorem Session.feed_lined_callee :
    ∃ middle after exit whole,
      (Session.start (.script [])).Takes
        [⟨"program $f :a\n  log 1 / :a", .fellThrough, middle⟩,
          ⟨"log 1\ncall $f 0", .failed (.fault 2 .divisionByZero), after⟩] ∧
      (Session.start (.script [])).Ends (Source.lined ["program $f :a\n  log 1 / :a", "log 1\ncall $f 0"]) exit whole ∧
      whole.world.output = "1" := by
  let body : List Command := [⟨2, .log (.binary (.integer 1) .divide (.var "a")), []⟩]
  let middle : Session := ⟨.empty, { World.start (.script []) with programs := .put "f" ⟨["a"], body⟩ .empty }⟩
  let after : Session := ⟨.empty, { middle.world with output := "1" }⟩
  have first : (Session.start (.script [])).Ends "program $f :a\n  log 1 / :a" .fellThrough middle :=
    ⟨3, by with_unfolding_all rfl⟩
  have second : middle.Ends "log 1\ncall $f 0" (.failed (.fault 2 .divisionByZero)) after :=
    ⟨8, by with_unfolding_all rfl⟩
  have read : Command.ofSource "log 1\ncall $f 0" =
      .ok [⟨1, .log (.integer 1), []⟩, ⟨2, .call "f" [.integer 0] none, []⟩] := by with_unfolding_all rfl
  have printed : String.join [middle.outputSince (.start (.script [])), after.outputSince middle] = "1" := by
    rw [Session.output_since middle (.start (.script [])) "" rfl, Session.output_since after middle "1" rfl]
    rfl
  obtain ⟨exit, whole, ended, output, _⟩ := Session.feed_lined (.script [])
    [⟨"program $f :a\n  log 1 / :a", .fellThrough, middle⟩]
    ⟨"log 1\ncall $f 0", .failed (.fault 2 .divisionByZero), after⟩ _ (by simp) read ⟨first, second, trivial⟩
  exact ⟨middle, after, exit, whole, ⟨first, second, trivial⟩, ended, output.trans printed⟩

end Offside
