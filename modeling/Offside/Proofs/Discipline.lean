import Offside.Proofs.Decisions
import Offside.Proofs.Frames
import Offside.Proofs.Nesting

set_option autoImplicit false

namespace Offside

def Head.declared : Head → List String
  | .declare name _ => [name]
  | _ => []

def Command.declared (commands : List Command) : List String := commands.flatMap fun command => command.head.declared

theorem Exit.returned_early (value : Option Value) : Exit.returned value ≠ .fellThrough := nofun

theorem Exit.failed_early (error : Error) : Exit.failed error ≠ .fellThrough := nofun

inductive Advance (scope : Scope) (command : Command) (rest : List Command) : Machine → Prop where
  | on (after : Scope) (world : World) : after.names = scope.namesAfter command.head.declared →
      Advance scope command rest ⟨.run rest, after, [], world⟩
  | off (exit : Exit) (world : World) : exit ≠ .fellThrough → Advance scope command rest ⟨.done exit, scope, [], world⟩
  | block (again : Bool) (world : World) : command.head.declared = [] →
      Advance scope command rest ⟨.run command.body, scope.extend, [.block (if again then command :: rest else rest)], world⟩
  | call (line : Nat) (capture : Option String) (code : List Command) (callee : Scope) (world : World) :
      command.head.declared = [] → Advance scope command rest ⟨.run code, callee, [.call line capture scope rest], world⟩

namespace Point

theorem write_advance (scope : Scope) (world : World) (command : Command) (rest : List Command) (place : Place) (value : Value)
    (silent : command.head.declared = []) :
    Advance scope command rest (((Machine.mk (.run (command :: rest)) scope [] world).write place value).proceed rest) := by
  have same : scope.names = scope.namesAfter command.head.declared := by rw [silent, scope.names_after_nothing]
  cases place with
  | var name => exact .on _ _ ((scope.names_update name value).trans same)
  | cell address => exact .on _ _ same

theorem step_advance (scope : Scope) (world : World) (command : Command) (rest : List Command) :
    Advance scope command rest (Machine.mk (.run (command :: rest)) scope [] world).step := by
  obtain ⟨device, deed, decided, stepped⟩ := Machine.step_decided command rest scope [] world
  rw [stepped]
  obtain ⟨line, head, body⟩ := command
  cases decided with
  | print value text => exact .on scope _ scope.names_after_nothing.symm
  | read target place value located => exact write_advance scope _ _ rest place value rfl
  | assign target value place result located => exact write_advance scope _ _ rest place result rfl
  | declare name value result absent => exact .on _ _ (scope.names_declare name result absent)
  | skipBranch condition => exact .on scope _ scope.names_after_nothing.symm
  | skipLoop condition => exact .on scope _ scope.names_after_nothing.symm
  | enterBranch condition => exact .block false _ rfl
  | enterLoop condition => exact .block true _ rfl
  | define name params => exact .on scope _ scope.names_after_nothing.symm
  | call name arguments capture program callee found count bound => exact .call line capture program.body callee.extend _ rfl
  | give value result => exact .off _ _ (Exit.returned_early result)
  | fail _ fault blame => exact .off _ _ (Exit.failed_early _)
  | starve target cause => exact .off _ _ (Exit.failed_early _)

def Captured (capture : Option String) (caller after : Scope) : Prop :=
  after = caller ∨ ∃ name ∈ capture, ∃ value, (caller.find name).isSome ∧ after = caller.update name value

theorem captured_names (capture : Option String) (caller after : Scope) (captured : Captured capture caller after) :
    after.names = caller.names := by
  rcases captured with rfl | ⟨name, _, value, _, rfl⟩
  · rfl
  · exact caller.names_update name value

theorem resume_block (ended after : Point) (exit : Exit) (rest : List Command)
    (resumes : (ended.atop []).resume exit (.block rest) = after.atop []) :
    after.scope = ended.scope.leave ∧
      (after.control = .run rest ∨ ∃ early, after.control = .done early ∧ early ≠ .fellThrough) := by
  obtain ⟨control, scope, world⟩ := after
  cases exit with
  | fellThrough =>
      obtain ⟨rfl, rfl, _, _⟩ := Machine.mk.inj resumes
      exact ⟨rfl, .inl rfl⟩
  | returned value =>
      obtain ⟨rfl, rfl, _, _⟩ := Machine.mk.inj resumes
      exact ⟨rfl, .inr ⟨_, rfl, Exit.returned_early value⟩⟩
  | failed error =>
      obtain ⟨rfl, rfl, _, _⟩ := Machine.mk.inj resumes
      exact ⟨rfl, .inr ⟨_, rfl, Exit.failed_early error⟩⟩

theorem resume_call (ended after : Point) (exit : Exit) (line : Nat) (capture : Option String) (caller : Scope)
    (rest : List Command) (resumes : (ended.atop []).resume exit (.call line capture caller rest) = after.atop []) :
    Captured capture caller after.scope ∧
      (after.control = .run rest ∨ ∃ early, after.control = .done early ∧ early ≠ .fellThrough) := by
  obtain ⟨control, scope, world⟩ := after
  cases exit with
  | fellThrough =>
      obtain ⟨rfl, rfl, _, _⟩ := Machine.mk.inj resumes
      exact ⟨.inl rfl, .inl rfl⟩
  | failed error =>
      obtain ⟨rfl, rfl, _, _⟩ := Machine.mk.inj resumes
      exact ⟨.inl rfl, .inr ⟨_, rfl, Exit.failed_early _⟩⟩
  | returned result =>
      cases result with
      | none =>
          obtain ⟨rfl, rfl, _, _⟩ := Machine.mk.inj resumes
          exact ⟨.inl rfl, .inl rfl⟩
      | some value =>
          cases capture with
          | none =>
              obtain ⟨rfl, rfl, _, _⟩ := Machine.mk.inj resumes
              exact ⟨.inl rfl, .inl rfl⟩
          | some name =>
              rw [Machine.resume, Scope.assign_update] at resumes
              by_cases held : (caller.find name).isSome
              · rw [if_pos held] at resumes
                obtain ⟨rfl, rfl, _, _⟩ := Machine.mk.inj resumes
                exact ⟨.inr ⟨name, rfl, value, held, rfl⟩, .inl rfl⟩
              · rw [if_neg held] at resumes
                obtain ⟨rfl, rfl, _, _⟩ := Machine.mk.inj resumes
                exact ⟨.inl rfl, .inr ⟨_, rfl, Exit.failed_early _⟩⟩

-- A point that a run reaches from a scope when the commands in front are behind it and the rest is ahead. What the ones
-- in front declare is all that has become of the names.
structure Reached (scope : Scope) (front rest : List Command) (last : Point) : Prop where
  names : last.scope.names = scope.namesAfter (Command.declared front)
  ahead : ∀ later, last.control = .run later → later = rest
  ended : ∀ exit, last.control = .done exit → (exit = .fellThrough ↔ rest = [])

theorem reached_start (scope : Scope) (world : World) (code : List Command) : Reached scope [] code ⟨.run code, scope, world⟩ := by
  refine ⟨scope.names_after_nothing.symm, ?_, nofun⟩
  rintro later same
  cases same
  rfl

theorem reached_end (scope : Scope) (world : World) : Reached scope [] [] ⟨.done .fellThrough, scope, world⟩ := by
  refine ⟨scope.names_after_nothing.symm, nofun, ?_⟩
  rintro exit same
  cases same
  exact ⟨fun _ => rfl, fun _ => rfl⟩

theorem reached_early (scope : Scope) (code : List Command) (last : Point) (exit : Exit) (nonempty : code ≠ [])
    (names : last.scope.names = scope.names) (ended : last.control = .done exit) (early : exit ≠ .fellThrough) :
    Reached scope [] code last := by
  refine ⟨names.trans scope.names_after_nothing.symm, ?_, ?_⟩
  · intro later running
    cases ended.symm.trans running
  · intro other same
    cases ended.symm.trans same
    exact ⟨fun fell => absurd fell early, fun empty => absurd empty nonempty⟩

theorem reached_same (scope after : Scope) (front rest : List Command) (last : Point) (names : after.names = scope.names)
    (reached : Reached after front rest last) : Reached scope front rest last :=
  ⟨reached.names.trans (scope.names_after_same after _ names), reached.ahead, reached.ended⟩

theorem reached_on (scope after : Scope) (command : Command) (front rest : List Command) (last : Point)
    (names : after.names = scope.namesAfter command.head.declared) (reached : Reached after front rest last) :
    Reached scope (command :: front) rest last :=
  ⟨reached.names.trans (scope.names_after_more after _ _ names), reached.ahead, reached.ended⟩

theorem reached_silent (scope after : Scope) (command : Command) (front rest : List Command) (last : Point)
    (silent : command.head.declared = []) (names : after.names = scope.names) (reached : Reached after front rest last) :
    Reached scope (command :: front) rest last := by
  refine reached_on scope after command front rest last ?_ reached
  rw [silent, names, scope.names_after_nothing]

theorem reached_behind (scope : Scope) (command : Command) (rest behind : List Command) (after last : Point)
    (silent : command.head.declared = []) (names : after.scope.names = scope.names)
    (place : behind = rest ∨ behind = command :: rest)
    (control : after.control = .run behind ∨ ∃ early, after.control = .done early ∧ early ≠ .fellThrough)
    (more : Passes after last)
    (further : ∀ code, after.control = .run code → ∃ front others, code = front ++ others ∧ Reached after.scope front others last) :
    ∃ front others, command :: rest = front ++ others ∧ Reached scope front others last := by
  rcases control with running | ⟨early, stopped, cause⟩
  · obtain ⟨front, others, split, reached⟩ := further behind running
    rcases place with rfl | rfl
    · refine ⟨command :: front, others, congrArg (List.cons command) split, ?_⟩
      exact reached_silent scope after.scope command front others last silent names reached
    · exact ⟨front, others, split, reached_same scope after.scope front others last names reached⟩
  · obtain rfl := passes_done after last early more stopped
    exact ⟨[], command :: rest, rfl, reached_early _ _ _ early (List.cons_ne_nil _ _) names stopped cause⟩

theorem passes_reached (point last : Point) (passes : Passes point last) (code : List Command)
    (running : point.control = .run code) : ∃ front rest, code = front ++ rest ∧ Reached point.scope front rest last := by
  induction passes generalizing code with
  | here point =>
      obtain ⟨control, scope, world⟩ := point
      cases running
      exact ⟨[], code, rfl, reached_start scope world code⟩
  | step point next last goes more ih =>
      obtain ⟨control, scope, world⟩ := point
      cases running
      cases code with
      | nil =>
          obtain ⟨rfl, _⟩ := atop_injective ⟨.done .fellThrough, scope, world⟩ next [] [] goes
          obtain rfl := passes_done _ last .fellThrough more rfl
          exact ⟨[], [], rfl, reached_end scope world⟩
      | cons command rest =>
          have advance := step_advance scope world command rest
          change (Machine.mk (.run (command :: rest)) scope [] world).step = _ at goes
          rw [goes] at advance
          obtain ⟨control, after, later⟩ := next
          cases advance with
          | on _ _ names =>
              obtain ⟨front, others, rfl, reached⟩ := ih rest rfl
              exact ⟨command :: front, others, rfl, reached_on scope after command front others last names reached⟩
          | off exit _ early =>
              obtain rfl := passes_done _ last exit more rfl
              exact ⟨[], command :: rest, rfl, reached_early _ _ _ exit (List.cons_ne_nil _ _) rfl rfl early⟩
  | nest point inside ended after last next exit enters within ends resumes more inner ih =>
      obtain ⟨control, scope, world⟩ := point
      cases running
      cases code with
      | nil => cases (atop_injective ⟨.done .fellThrough, scope, world⟩ inside [] [next] enters).2
      | cons command rest =>
          have advance := step_advance scope world command rest
          change (Machine.mk (.run (command :: rest)) scope [] world).step = _ at enters
          rw [enters] at advance
          obtain ⟨control, frames, later⟩ := inside
          cases advance with
          | block again _ silent =>
              obtain ⟨_, _, _, reached⟩ := inner command.body rfl
              obtain ⟨left, control⟩ := resume_block ended after exit _ resumes
              have names : after.scope.names = scope.names := by
                rw [left]
                exact ended.scope.names_left scope (congrArg List.tail reached.names)
              refine reached_behind scope command rest _ after last silent names ?_ control more ih
              cases again with
              | true => exact .inr rfl
              | false => exact .inl rfl
          | call line capture code _ _ silent =>
              obtain ⟨captured, control⟩ := resume_call ended after exit line capture scope rest resumes
              have names := captured_names capture scope after.scope captured
              exact reached_behind scope command rest rest after last silent names (.inl rfl) control more ih

theorem passes_nothing (scope : Scope) (world : World) (last : Point) (exit : Exit) (ended : last.control = .done exit)
    (passes : Passes ⟨.run [], scope, world⟩ last) : last = ⟨.done .fellThrough, scope, world⟩ := by
  cases passes with
  | here => cases ended
  | step _ next _ goes more =>
      obtain ⟨rfl, _⟩ := atop_injective ⟨.done .fellThrough, scope, world⟩ next [] [] goes
      exact passes_done _ last .fellThrough more rfl
  | nest _ inside _ _ _ next _ enters => cases (atop_injective ⟨.done .fellThrough, scope, world⟩ inside [] [next] enters).2

theorem step_call (scope : Scope) (world : World) (line : Nat) (name : String) (arguments : List Expr) (capture : Option String)
    (body rest : List Command) :
    (∃ exit after, (Machine.mk (.run (⟨line, .call name arguments capture, body⟩ :: rest)) scope [] world).step =
        ⟨.done exit, scope, [], after⟩) ∨
      ∃ code callee after, (Machine.mk (.run (⟨line, .call name arguments capture, body⟩ :: rest)) scope [] world).step =
        ⟨.run code, callee, [.call line capture scope rest], after⟩ := by
  obtain ⟨device, deed, decided, stepped⟩ := Machine.step_decided ⟨line, .call name arguments capture, body⟩ rest scope [] world
  rw [stepped]
  cases decided with
  | call _ _ _ program callee found count bound => exact .inr ⟨program.body, callee.extend, _, rfl⟩
  | fail _ fault blame => exact .inl ⟨_, _, rfl⟩

theorem passes_call (scope : Scope) (world : World) (line : Nat) (name : String) (arguments : List Expr)
    (capture : Option String) (body : List Command) (last : Point) (exit : Exit) (ended : last.control = .done exit)
    (passes : Passes ⟨.run [⟨line, .call name arguments capture, body⟩], scope, world⟩ last) :
    Captured capture scope last.scope := by
  have called := step_call scope world line name arguments capture body []
  cases passes with
  | here => cases ended
  | step _ next _ goes more =>
      change (Machine.mk (.run _) scope [] world).step = _ at goes
      rw [goes] at called
      obtain ⟨control, after, later⟩ := next
      rcases called with ⟨early, _, same⟩ | ⟨_, _, _, same⟩
      · cases same
        obtain rfl := passes_done _ last early more rfl
        exact .inl rfl
      · cases same
  | nest _ inside back after _ next early enters within ends resumes more =>
      change (Machine.mk (.run _) scope [] world).step = _ at enters
      rw [enters] at called
      obtain ⟨control, frames, later⟩ := inside
      rcases called with ⟨_, _, same⟩ | ⟨_, _, _, same⟩
      · cases same
      · cases same
        obtain ⟨captured, control⟩ := resume_call back after early line capture scope [] resumes
        obtain ⟨control, after, later⟩ := after
        rcases control with rfl | ⟨final, rfl, _⟩
        · have stopped := passes_nothing after later last exit ended more
          subst stopped
          exact captured
        · have stopped := passes_done _ last final more rfl
          subst stopped
          exact captured

end Point

namespace Session

def Carries (session : Session) (commands : List Command) (exit : Exit) (after : Session) : Prop :=
  ∃ steps, session.run steps commands = some (exit, after)

-- Commands that fall through, each run for itself.
inductive Works : Session → List Command → Session → Prop where
  | none (session : Session) : Works session [] session
  | next (session middle last : Session) (command : Command) (more : List Command)
      (first : session.Carries [command] .fellThrough middle) (others : Works middle more last) :
      Works session (command :: more) last

theorem carries_iff_passes (session after : Session) (commands : List Command) (exit : Exit) :
    session.Carries commands exit after ↔
      Point.Passes ⟨.run commands, session.globals, session.world⟩ ⟨.done exit, after.globals, after.world⟩ := by
  rw [Point.passes_iff_run]
  constructor
  · rintro ⟨steps, ended⟩
    exact ⟨steps, session.run_done commands steps exit after ended⟩
  · rintro ⟨steps, reached⟩
    refine ⟨steps, ?_⟩
    change (Machine.start commands session.globals session.world).run steps = _ at reached
    rw [run, reached]
    rfl

theorem carries_names (session after : Session) (command : Command) (exit : Exit) (ended : session.Carries [command] exit after) :
    after.globals.names = session.globals.namesAfter (if exit = .fellThrough then command.head.declared else []) := by
  obtain ⟨front, rest, split, reached⟩ :=
    Point.passes_reached _ _ ((carries_iff_passes session after [command] exit).mp ended) [command] rfl
  have names := reached.names
  have fell := reached.ended exit rfl
  cases front with
  | nil =>
      have early : exit ≠ .fellThrough := by
        rw [Ne, fell]
        rintro rfl
        cases split
      rw [if_neg early]
      exact names
  | cons first more =>
      obtain ⟨rfl, empty⟩ := List.cons.inj split
      obtain ⟨rfl, rfl⟩ := List.append_eq_nil_iff.mp empty.symm
      rw [if_pos (fell.mpr rfl)]
      rwa [Command.declared, List.flatMap_singleton] at names

theorem works_names (session after : Session) (commands : List Command) (works : session.Works commands after) :
    after.globals.names = session.globals.namesAfter (Command.declared commands) := by
  induction works with
  | none session => exact session.globals.names_after_nothing.symm
  | next session middle last command more first others ih =>
      have names := carries_names session middle command .fellThrough first
      rw [if_pos rfl] at names
      rw [ih, session.globals.names_after_more _ _ _ names, Command.declared, Command.declared, List.flatMap_cons]

theorem carries_works (session after : Session) (commands : List Command) (exit : Exit)
    (ended : session.Carries commands exit after) :
    ∃ front between, session.Works front between ∧
      ((exit = .fellThrough ∧ front = commands ∧ after = between) ∨
        (exit ≠ .fellThrough ∧ ∃ command rest, commands = front ++ command :: rest ∧ between.Carries [command] exit after)) := by
  induction commands generalizing session with
  | nil =>
      have passes := (carries_iff_passes session after [] exit).mp ended
      obtain ⟨globals, world⟩ := session
      obtain ⟨left, behind⟩ := after
      cases Point.passes_nothing globals world _ exit rfl passes
      exact ⟨[], _, .none _, .inl ⟨rfl, rfl, rfl⟩⟩
  | cons command rest ih =>
      rw [carries_iff_passes] at ended
      obtain ⟨left, behind⟩ := after
      obtain ⟨⟨_, scope, world⟩, inner, passes, rfl, fell | ⟨early, same⟩⟩ :=
        Point.passes_split rest _ _ ended exit rfl ⟨.run [command], session.globals, session.world⟩ [command] rfl rfl
      · obtain ⟨rfl, further⟩ := fell
        have first := (carries_iff_passes session ⟨scope, world⟩ [command] .fellThrough).mpr passes
        obtain ⟨front, between, works, outcome⟩ := ih ⟨scope, world⟩ ((carries_iff_passes _ _ rest exit).mpr further)
        refine ⟨command :: front, between, .next session _ between command front first works, ?_⟩
        rcases outcome with ⟨fell, rfl, same⟩ | ⟨early, last, others, rfl, stopped⟩
        · exact .inl ⟨fell, rfl, same⟩
        · exact .inr ⟨early, last, others, rfl, stopped⟩
      · cases same
        exact ⟨[], session, .none session, .inr ⟨early, command, rest, rfl, (carries_iff_passes session _ _ _).mpr passes⟩⟩

/-- Whatever commands run into, the frames stay in order. Until they have ended they are carried out as if nothing were
pending behind them. They keep the names of all frames but the innermost, and add to that one what the commands declare
that are behind them: all of them, or the ones before the command that returns or fails. So a block leaves all names as
they were, every round of a loop finds the names of the first, and a call touches nothing but what it captures. -/
theorem carries_disciplined (scope : Scope) (world : World) (commands : List Command) :
    (∀ outer steps, (∀ fewer < steps, ((Machine.start commands scope world).run fewer).exit? = none) →
      (Machine.mk (.run commands) scope outer world).run steps = ((Machine.start commands scope world).run steps).onto outer) ∧
    (∀ exit after, (Session.mk scope world).Carries commands exit after →
      ∃ front between, (Session.mk scope world).Works front between ∧
        after.globals.names = scope.namesAfter (Command.declared front) ∧
        ((exit = .fellThrough ∧ front = commands ∧ after = between) ∨
          (exit ≠ .fellThrough ∧ ∃ command rest, commands = front ++ command :: rest ∧
            between.Carries [command] exit after ∧ after.globals.names = between.globals.names))) ∧
    (∀ exit after, (Session.mk scope.extend world).Carries commands exit after → after.globals.leave.names = scope.names) ∧
    (∀ line condition body steps found later,
      (Machine.start (⟨line, .loop condition, body⟩ :: commands) scope world).run steps =
          Machine.start (⟨line, .loop condition, body⟩ :: commands) found later →
        found.names = scope.names) ∧
    ∀ line name arguments capture body exit after,
      (Session.mk scope world).Carries [⟨line, .call name arguments capture, body⟩] exit after →
        after.globals = scope ∨
          ∃ captured ∈ capture, ∃ value, (scope.find captured).isSome ∧ after.globals = scope.update captured value := by
  refine ⟨?_, ?_, ?_, ?_, ?_⟩
  · intro outer steps ongoing
    exact Machine.run_onto outer steps (Machine.start commands scope world) ongoing
  · intro exit after ended
    obtain ⟨front, between, works, outcome⟩ := carries_works _ after commands exit ended
    have names := works_names _ between front works
    refine ⟨front, between, works, ?_⟩
    rcases outcome with ⟨rfl, rfl, rfl⟩ | ⟨early, command, rest, rfl, stopped⟩
    · exact ⟨names, .inl ⟨rfl, rfl, rfl⟩⟩
    · have kept := carries_names between after command exit stopped
      rw [if_neg early, between.globals.names_after_nothing] at kept
      exact ⟨kept.trans names, .inr ⟨early, command, rest, rfl, stopped, kept⟩⟩
  · intro exit after ended
    obtain ⟨front, rest, _, reached⟩ := Point.passes_reached _ _ ((carries_iff_passes _ after commands exit).mp ended) _ rfl
    exact after.globals.names_left scope (congrArg List.tail reached.names)
  · intro line condition body steps found later looped
    obtain ⟨front, rest, split, reached⟩ := Point.passes_reached ⟨.run (⟨line, .loop condition, body⟩ :: commands), scope, world⟩
      ⟨.run (⟨line, .loop condition, body⟩ :: commands), found, later⟩
      ((Point.passes_iff_run _ _).mpr ⟨steps, looped⟩) _ rfl
    have whole := reached.ahead _ rfl
    rw [whole] at split
    obtain rfl := List.self_eq_append_left.mp split
    exact reached.names.trans scope.names_after_nothing
  · intro line name arguments capture body exit after ended
    exact Point.passes_call scope world line name arguments capture body _ exit rfl ((carries_iff_passes _ after _ _).mp ended)

theorem carries_disciplined_return :
    ∃ after, (Session.mk (Scope.empty.insert "x" (.integer 1)).extend (.start (.script []))).Carries
        [⟨1, .declare "y" (.var "x"), []⟩, ⟨2, .branch (.boolean true), [⟨3, .declare "z" (.var "y"), []⟩, ⟨4, .give none, []⟩]⟩]
        (.returned none) after ∧
      after.globals.leave.names = [["x"]] := by
  have ended : (Session.mk (Scope.empty.insert "x" (.integer 1)).extend (.start (.script []))).Carries
      [⟨1, .declare "y" (.var "x"), []⟩, ⟨2, .branch (.boolean true), [⟨3, .declare "z" (.var "y"), []⟩, ⟨4, .give none, []⟩]⟩]
      (.returned none) ⟨(Scope.empty.insert "x" (.integer 1)).extend.insert "y" (.integer 1), .start (.script [])⟩ :=
    ⟨5, by with_unfolding_all rfl⟩
  exact ⟨_, ended, (carries_disciplined (Scope.empty.insert "x" (.integer 1)) (.start (.script [])) _).2.2.1 _ _ ended⟩

end Session

end Offside
