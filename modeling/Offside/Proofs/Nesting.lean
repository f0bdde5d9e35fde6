import Offside.Proofs.Sequels

set_option autoImplicit false

namespace Offside

namespace Machine

def onto (outer : List Pending) (machine : Machine) : Machine := { machine with pending := machine.pending ++ outer }

theorem perform_onto (outer : List Pending) (machine : Machine) (command : Command) (rest : List Command) (deed : Deed) :
    (machine.onto outer).perform command rest deed = (machine.perform command rest deed).onto outer := by
  cases deed with
  | write place value => cases place <;> rfl
  | _ => rfl

theorem resume_onto (outer : List Pending) (machine : Machine) (exit : Exit) (next : Pending) :
    (machine.onto outer).resume exit next = (machine.resume exit next).onto outer := by
  cases next with
  | block rest => cases exit <;> rfl
  | call line capture caller rest =>
      simp only [resume]
      split
      · rfl
      · split <;> rfl
      · rfl
      · rfl

theorem resume_pending (machine : Machine) (exit : Exit) (next : Pending) :
    (machine.resume exit next).pending = machine.pending := by
  cases next with
  | block rest => cases exit <;> rfl
  | call line capture caller rest =>
      simp only [resume]
      split
      · rfl
      · split <;> rfl
      · rfl
      · rfl

theorem exit_onto (outer : List Pending) (machine : Machine) (ongoing : machine.exit? = none) :
    (machine.onto outer).exit? = none := by
  obtain ⟨control, scope, pending, world⟩ := machine
  cases control with
  | run code => rfl
  | done exit =>
      cases pending with
      | nil => cases ongoing
      | cons next more => rfl

theorem step_onto (outer : List Pending) (machine : Machine) (ongoing : machine.exit? = none) :
    (machine.onto outer).step = machine.step.onto outer := by
  obtain ⟨control, scope, pending, world⟩ := machine
  cases control with
  | run code =>
      cases code with
      | nil => rfl
      | cons command rest =>
          have consumed : ((Machine.mk (.run (command :: rest)) scope pending world).onto outer).consume command.head =
              ((Machine.mk (.run (command :: rest)) scope pending world).consume command.head).onto outer := by
            cases command.head <;> rfl
          rw [step_running, ← perform_onto, ← consumed]
          exact step_running command rest scope (pending ++ outer) world
  | done exit =>
      cases pending with
      | nil => cases ongoing
      | cons next more => exact resume_onto outer ⟨.done exit, scope, more, world⟩ exit next

theorem run_onto (outer : List Pending) (steps : Nat) (machine : Machine)
    (ongoing : ∀ fewer < steps, (machine.run fewer).exit? = none) :
    (machine.onto outer).run steps = (machine.run steps).onto outer := by
  induction steps generalizing machine with
  | zero => rfl
  | succ steps ih =>
      have here : machine.exit? = none := ongoing 0 (Nat.succ_pos steps)
      rw [run_ongoing steps machine here, run_ongoing steps _ (exit_onto outer machine here), step_onto outer machine here]
      apply ih
      intro fewer less
      rw [← run_ongoing fewer machine here]
      exact ongoing (fewer + 1) (Nat.succ_lt_succ less)

end Machine

structure Point where
  control : Control
  scope : Scope
  world : World

namespace Point

def atop (pending : List Pending) (point : Point) : Machine := ⟨point.control, point.scope, pending, point.world⟩

def ofMachine (machine : Machine) : Point := ⟨machine.control, machine.scope, machine.world⟩

theorem atop_of_machine (machine : Machine) : (ofMachine machine).atop machine.pending = machine := rfl

theorem atop_injective (point other : Point) (pending others : List Pending)
    (same : point.atop pending = other.atop others) : point = other ∧ pending = others := by
  obtain ⟨control, scope, world⟩ := point
  obtain ⟨otherControl, otherScope, otherWorld⟩ := other
  obtain ⟨rfl, rfl, rfl, rfl⟩ := Machine.mk.inj same
  exact ⟨rfl, rfl⟩

-- The points that a run passes on one level. What it does in a block or in the body of a program is left out between
-- the point where it enters and the one where it is back.
inductive Passes : Point → Point → Prop where
  | here (point : Point) : Passes point point
  | step (point next last : Point) (goes : (point.atop []).step = next.atop []) (more : Passes next last) :
      Passes point last
  | nest (point inside ended after last : Point) (next : Pending) (exit : Exit)
      (enters : (point.atop []).step = inside.atop [next]) (within : Passes inside ended)
      (ends : ended.control = .done exit) (resumes : (ended.atop []).resume exit next = after.atop [])
      (more : Passes after last) : Passes point last

theorem step_atop (point inside : Point) (pushed outer : List Pending) (code : List Command)
    (running : point.control = .run code) (goes : (point.atop []).step = inside.atop pushed) :
    (point.atop outer).step = inside.atop (pushed ++ outer) := by
  have ongoing : (point.atop []).exit? = none := by
    rw [Machine.exit?, atop, running]
  exact (Machine.step_onto outer (point.atop []) ongoing).trans (congrArg (Machine.onto outer) goes)

theorem step_pushes (point : Point) (code : List Command) (running : point.control = .run code) :
    (point.atop []).step.pending = [] ∨ ∃ next, (point.atop []).step.pending = [next] := by
  obtain ⟨control, scope, world⟩ := point
  cases running
  cases code with
  | nil => exact .inl rfl
  | cons command rest =>
      have kept : ((atop [] ⟨.run (command :: rest), scope, world⟩).consume command.head).pending = [] := by
        cases command.head <;> rfl
      rw [atop, Machine.step_running]
      change ((atop [] ⟨.run (command :: rest), scope, world⟩).consume command.head |>.perform _ _ _).pending = [] ∨ _
      cases Deed.ofHead scope world command.head with
      | write place value => cases place <;> exact .inl kept
      | enter again => exact .inr ⟨_, congrArg _ kept⟩
      | call program callee capture => exact .inr ⟨_, congrArg _ kept⟩
      | _ => exact .inl kept

theorem done_step (point inside : Point) (pushed : List Pending) (exit : Exit) (ended : point.control = .done exit)
    (goes : (point.atop []).step = inside.atop pushed) : inside = point ∧ pushed = [] := by
  have stays : (point.atop []).step = point.atop [] := by rw [Machine.step, atop, ended]
  exact atop_injective inside point pushed [] (goes.symm.trans stays)

theorem done_resume (point after : Point) (exit : Exit) (next : Pending) (outer : List Pending)
    (ended : point.control = .done exit) (resumes : (point.atop []).resume exit next = after.atop []) :
    (point.atop (next :: outer)).step = after.atop outer := by
  have stepped : (point.atop (next :: outer)).step = (point.atop outer).resume exit next := by
    rw [Machine.step, atop, ended]
    rfl
  rw [stepped]
  exact (Machine.resume_onto outer (point.atop []) exit next).trans (congrArg (Machine.onto outer) resumes)

theorem passes_run (point last : Point) (passes : Passes point last) (outer : List Pending) :
    ∃ steps, (point.atop outer).run steps = last.atop outer := by
  induction passes generalizing outer with
  | here point => exact ⟨0, rfl⟩
  | step point next last goes more ih =>
      obtain ⟨steps, reached⟩ := ih outer
      cases control : point.control with
      | done exit =>
          obtain ⟨rfl, _⟩ := done_step point next [] exit control goes
          exact ⟨steps, reached⟩
      | run code =>
          have ongoing : (point.atop outer).exit? = none := by rw [Machine.exit?, atop, control]
          refine ⟨steps + 1, ?_⟩
          rw [Machine.run_ongoing steps _ ongoing, step_atop point next [] outer code control goes]
          exact reached
  | nest point inside ended after last next exit enters within ends resumes more inner ih =>
      obtain ⟨fewer, back⟩ := inner (next :: outer)
      obtain ⟨steps, reached⟩ := ih outer
      cases control : point.control with
      | done early => cases (done_step point inside [next] early control enters).2
      | run code =>
          have ongoing : (point.atop outer).exit? = none := by rw [Machine.exit?, atop, control]
          have waiting : (ended.atop (next :: outer)).exit? = none := by rw [Machine.exit?, atop, ends]
          have resumed := done_resume ended after exit next outer ends resumes
          refine ⟨fewer + (steps + 1) + 1, ?_⟩
          rw [Machine.run_ongoing _ _ ongoing, step_atop point inside [next] outer code control enters, Machine.run_add]
          change ((inside.atop (next :: outer)).run fewer).run (steps + 1) = _
          rw [back, Machine.run_ongoing steps _ waiting, resumed, reached]

-- The points that are passed level by level, until nothing is pending any more.
def Unwinds : Point → List Pending → Point → Prop
  | point, [], last => Passes point last
  | point, next :: more, last =>
      ∃ ended exit after, Passes point ended ∧ ended.control = .done exit ∧
        (ended.atop []).resume exit next = after.atop [] ∧ Unwinds after more last

theorem unwinds_step (point next last : Point) (pending : List Pending) (goes : (point.atop []).step = next.atop [])
    (unwinds : Unwinds next pending last) : Unwinds point pending last := by
  cases pending with
  | nil => exact .step point next last goes unwinds
  | cons first more =>
      obtain ⟨ended, exit, after, passes, rest⟩ := unwinds
      exact ⟨ended, exit, after, .step point next ended goes passes, rest⟩

theorem unwinds_nest (point inside last : Point) (next : Pending) (pending : List Pending)
    (enters : (point.atop []).step = inside.atop [next]) (unwinds : Unwinds inside (next :: pending) last) :
    Unwinds point pending last := by
  obtain ⟨ended, exit, after, passes, ends, resumes, rest⟩ := unwinds
  cases pending with
  | nil => exact .nest point inside ended after last next exit enters passes ends resumes rest
  | cons first more =>
      obtain ⟨later, final, behind, further, others⟩ := rest
      exact ⟨later, final, behind, .nest point inside ended after later next exit enters passes ends resumes further, others⟩

theorem run_unwinds (steps : Nat) (point last : Point) (pending : List Pending)
    (reached : (point.atop pending).run steps = last.atop []) : Unwinds point pending last := by
  induction steps generalizing point pending with
  | zero =>
      obtain ⟨rfl, rfl⟩ := atop_injective point last pending [] reached
      exact .here point
  | succ steps ih =>
      cases control : point.control with
      | run code =>
          have ongoing : (point.atop pending).exit? = none := by rw [Machine.exit?, atop, control]
          rw [Machine.run_ongoing steps _ ongoing] at reached
          have goes := (atop_of_machine (point.atop []).step).symm
          rcases step_pushes point code control with flat | ⟨next, nested⟩
          · rw [flat] at goes
            rw [step_atop _ _ [] pending code control goes] at reached
            exact unwinds_step _ _ last pending goes (ih _ pending reached)
          · rw [nested] at goes
            rw [step_atop _ _ [next] pending code control goes] at reached
            exact unwinds_nest _ _ last next pending goes (ih _ (next :: pending) reached)
      | done exit =>
          cases pending with
          | nil =>
              have ended : (point.atop []).exit?.isSome := by rw [Machine.exit?, atop, control]; rfl
              rw [Machine.run_halted (steps + 1) _ ended] at reached
              obtain ⟨rfl, _⟩ := atop_injective point last [] [] reached
              exact .here point
          | cons next more =>
              have ongoing : (point.atop (next :: more)).exit? = none := by rw [Machine.exit?, atop, control]
              have resumes := (atop_of_machine ((point.atop []).resume exit next)).symm
              rw [Machine.resume_pending] at resumes
              rw [Machine.run_ongoing steps _ ongoing, done_resume point _ exit next more control resumes] at reached
              exact ⟨point, exit, _, .here point, control, resumes, ih _ more reached⟩

theorem passes_iff_run (point last : Point) :
    Passes point last ↔ ∃ steps, (point.atop []).run steps = last.atop [] :=
  ⟨fun passes => passes_run point last passes [], fun ⟨steps, reached⟩ => run_unwinds steps point last [] reached⟩

theorem passes_done (point last : Point) (exit : Exit) (passes : Passes point last) (ended : point.control = .done exit) :
    last = point := by
  induction passes with
  | here point => rfl
  | step point next last goes more ih =>
      obtain ⟨rfl, _⟩ := done_step point next [] exit ended goes
      exact ih ended
  | nest point inside after back last next early enters within ends resumes more inner ih =>
      cases (done_step point inside [next] exit ended enters).2

def append (tail : List Command) (point : Point) : Point := { point with control := point.control.append tail }

theorem append_done (tail : List Command) (point : Point) (exit : Exit) (ended : point.control = .done exit) :
    point.append tail = point := by
  obtain ⟨control, scope, world⟩ := point
  cases ended
  rfl

theorem append_step (tail code : List Command) (point inside : Point) (pushed : List Pending)
    (running : point.control = .run code) (ongoing : code ≠ []) (goes : ((point.append tail).atop []).step = inside.atop pushed) :
    ((point.atop []).step).append tail = inside.atop pushed := by
  rw [← goes, ← Machine.step_append]
  · rfl
  · rintro ⟨ended, _⟩
    cases running.symm.trans ended
    exact ongoing rfl

theorem step_goes_on (point : Point) (code : List Command) (running : point.control = .run code) (nonempty : code ≠ []) :
    (point.atop []).step.control ≠ .done .fellThrough := by
  obtain ⟨control, scope, world⟩ := point
  cases running
  cases code with
  | nil => exact absurd rfl nonempty
  | cons command rest =>
      rw [atop, Machine.step_running]
      exact Machine.perform_goes_on _ command rest _

theorem flat_append (tail : List Command) (point : Point) : (point.atop []).append tail = (point.append tail).atop [] := rfl

theorem nested_append (tail : List Command) (point : Point) (next : Pending) :
    (point.atop [next]).append tail = point.atop [next.append tail] := rfl

theorem split_empty (tail : List Command) (point last : Point) (empty : point.control = .run [])
    (passes : Passes (point.append tail) last) :
    ∃ middle, Passes point middle ∧ middle.control = .done .fellThrough ∧
      Passes ⟨.run tail, middle.scope, middle.world⟩ last := by
  obtain ⟨control, scope, world⟩ := point
  cases empty
  exact ⟨⟨.done .fellThrough, scope, world⟩, .step _ _ _ rfl (.here _), rfl, passes⟩

theorem append_flat (tail code : List Command) (point next : Point) (running : point.control = .run code)
    (nonempty : code ≠ []) (goes : ((point.append tail).atop []).step = next.atop []) :
    ∃ flat : Point, (point.atop []).step = flat.atop [] ∧ next = flat.append tail := by
  have stepped := append_step tail code point next [] running nonempty goes
  have whole := (atop_of_machine (point.atop []).step).symm
  rcases step_pushes point code running with flat | ⟨entered, nested⟩
  · rw [flat] at whole
    rw [whole, flat_append] at stepped
    exact ⟨_, whole, (atop_injective next _ [] [] stepped.symm).1⟩
  · rw [nested] at whole
    rw [whole, nested_append] at stepped
    cases (atop_injective next _ [] _ stepped.symm).2

theorem append_nested (tail code : List Command) (point inside : Point) (next : Pending) (running : point.control = .run code)
    (nonempty : code ≠ []) (goes : ((point.append tail).atop []).step = inside.atop [next]) :
    ∃ entered, (point.atop []).step = inside.atop [entered] ∧ next = entered.append tail := by
  have stepped := append_step tail code point inside [next] running nonempty goes
  have whole := (atop_of_machine (point.atop []).step).symm
  rcases step_pushes point code running with flat | ⟨entered, nested⟩
  · rw [flat] at whole
    rw [whole, flat_append] at stepped
    cases (atop_injective inside _ [next] _ stepped.symm).2
  · rw [nested] at whole
    rw [whole, nested_append] at stepped
    obtain ⟨rfl, pending⟩ := atop_injective inside _ [next] _ stepped.symm
    cases pending
    exact ⟨entered, whole, rfl⟩

theorem append_resume (tail : List Command) (back after : Point) (exit : Exit) (entered : Pending)
    (ended : back.control = .done exit) (resumes : (back.atop []).resume exit (entered.append tail) = after.atop []) :
    ∃ flat : Point, (back.atop []).resume exit entered = flat.atop [] ∧ after = flat.append tail := by
  have whole := (atop_of_machine ((back.atop []).resume exit entered)).symm
  rw [Machine.resume_pending] at whole
  change (back.atop []).resume exit entered = atop [] _ at whole
  have resumed := Machine.resume_append tail (back.atop []) exit entered
  have same : (back.atop []).append tail = back.atop [] := congrArg (atop []) (append_done tail back exit ended)
  rw [same, whole] at resumed
  change (back.atop []).resume exit (entered.append tail) = (Point.append tail _).atop [] at resumed
  exact ⟨_, whole, (atop_injective after _ [] [] (resumes.symm.trans resumed)).1⟩

theorem passes_split (tail : List Command) (front last : Point) (passes : Passes front last) (exit : Exit)
    (ended : last.control = .done exit) (point : Point) (code : List Command) (running : point.control = .run code)
    (whole : front = point.append tail) :
    ∃ middle inner, Passes point middle ∧ middle.control = .done inner ∧
      ((inner = .fellThrough ∧ Passes ⟨.run tail, middle.scope, middle.world⟩ last) ∨
        (inner ≠ .fellThrough ∧ middle = last)) := by
  induction passes generalizing point code with
  | here front =>
      subst whole
      rw [append, running] at ended
      cases ended
  | step front next last goes more ih =>
      subst whole
      by_cases finished : code = []
      · subst finished
        obtain ⟨middle, passes, fell, rest⟩ := split_empty tail point last running (.step _ next last goes more)
        exact ⟨middle, .fellThrough, passes, fell, .inl ⟨rfl, rest⟩⟩
      · obtain ⟨flat, steps, rfl⟩ := append_flat tail code point next running finished goes
        cases control : flat.control with
        | run rest =>
            obtain ⟨middle, inner, passes, result⟩ := ih ended flat rest control rfl
            exact ⟨middle, inner, .step point flat middle steps passes, result⟩
        | done early =>
            rw [append_done tail flat early control] at more
            have last := passes_done flat last early more control
            have goesOn := step_goes_on point code running finished
            rw [steps] at goesOn
            refine ⟨flat, early, .step point flat flat steps (.here flat), control, .inr ⟨?_, last.symm⟩⟩
            rintro rfl
            exact goesOn control
  | nest front inside back after last next early enters within ends resumes more inner ih =>
      subst whole
      by_cases finished : code = []
      · subst finished
        obtain ⟨middle, passes, fell, rest⟩ :=
          split_empty tail point last running (.nest _ inside back after last next early enters within ends resumes more)
        exact ⟨middle, .fellThrough, passes, fell, .inl ⟨rfl, rest⟩⟩
      · obtain ⟨entered, steps, rfl⟩ := append_nested tail code point inside next running finished enters
        obtain ⟨flat, resumed, rfl⟩ := append_resume tail back after early entered ends resumes
        cases control : flat.control with
        | run rest =>
            obtain ⟨middle, exit, passes, result⟩ := ih ended flat rest control rfl
            exact ⟨middle, exit, .nest point inside back flat middle entered early steps within ends resumed passes, result⟩
        | done final =>
            rw [append_done tail flat final control] at more
            have last := passes_done flat last final more control
            have goesOn := Machine.resume_goes_on (back.atop []) early entered
            rw [resumed] at goesOn
            refine ⟨flat, final, .nest point inside back flat flat entered early steps within ends resumed (.here flat), control,
              .inr ⟨?_, last.symm⟩⟩
            rintro rfl
            exact goesOn control

end Point

end Offside
