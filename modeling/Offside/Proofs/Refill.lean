import Offside.Proofs.Supply
import Offside.Proofs.Survival

set_option autoImplicit false

namespace Offside

namespace Device

def refill (unread fresh : List Char) : Device → Device
  | .script pending => .script (pending.take (pending.length - unread.length) ++ fresh)
  | .bytes pending => .bytes pending

theorem refill_script (consumed unread fresh : List Char) :
    refill unread fresh (.script (consumed ++ unread)) = .script (consumed ++ fresh) := by
  simp [refill]

theorem refill_answers (unread fresh rest : List Char) (c : Char) (behind : unread.length ≤ rest.length) :
    (Device.script (c :: rest)).Answers (refill unread fresh) id := by
  have further : (c :: rest).length - unread.length = rest.length - unread.length + 1 := by
    rw [List.length_cons]
    omega
  simp only [Answers, refill, further, List.take_succ_cons, List.cons_append, read]
  rfl

end Device

theorem Exit.recast_id (exit : Exit) : exit.recast id = exit := by
  cases exit with
  | failed error => cases error <;> rfl
  | _ => rfl

namespace Machine

theorem awaits_ongoing (machine : Machine) (awaits : machine.awaitsInput = true) : machine.exit? = none := by
  obtain ⟨control, scope, pending, world⟩ := machine
  cases control with
  | run code => rfl
  | done exit => cases awaits

theorem perform_device (machine : Machine) (command : Command) (rest : List Command) (deed : Deed) :
    (machine.perform command rest deed).world.device = machine.world.device := by
  cases deed with
  | write place value => cases place <;> rfl
  | _ => rfl

theorem step_reads (machine : Machine) (awaits : machine.awaitsInput = true) :
    machine.step.world.device = machine.world.device.read.2 := by
  obtain ⟨control, scope, pending, world⟩ := machine
  unfold awaitsInput at awaits
  split at awaits
  · next line target body rest running =>
      cases running
      rw [step_running, perform_device]
      rfl
  · cases awaits

theorem step_failed (error : Error) (machine : Machine) (failed : machine.control = .done (.failed error)) :
    machine.step.control = .done (.failed error) := by
  obtain ⟨control, scope, pending, world⟩ := machine
  cases failed
  cases pending with
  | nil => rfl
  | cons next more => cases next <;> rfl

theorem run_failed (error : Error) (steps : Nat) (machine : Machine) (failed : machine.control = .done (.failed error)) :
    (machine.run steps).control = .done (.failed error) :=
  run_keeps (fun reached => reached.control = .done (.failed error)) (step_failed error) steps machine failed

-- Whatever is left unread in the end was there, and more before it, whenever a character was to be read.
theorem run_refill (steps : Nat) (machine : Machine) (unread fresh : List Char)
    (ended : (machine.run steps).world.device = .script unread)
    (fed : (machine.run steps).control ≠ .done (.failed (.input .scriptEnded))) :
    (machine.supply (Device.refill unread fresh) id).run steps =
      (machine.run steps).supply (Device.refill unread fresh) id := by
  refine run_supply _ _ steps machine fun earlier before awaits => ?_
  generalize same : machine.run earlier = reached at awaits ⊢
  have onward : machine.run steps = reached.step.run (steps - earlier - 1) := by
    have later : steps = earlier + (steps - earlier - 1 + 1) := by omega
    rw [later, run_add, same, run_ongoing _ reached (reached.awaits_ongoing awaits)]
    congr 1
    omega
  have grown := reached.step.run_grows (steps - earlier - 1)
  rw [onward] at ended fed
  have leaves : reached.world.device.read.2.Leaves (.script unread) := by
    rw [← reached.step_reads awaits, ← ended]
    exact grown.input
  cases device : reached.world.device with
  | bytes pending =>
      rw [device] at leaves
      cases leaves
  | script pending =>
      rw [device] at leaves
      cases pending with
      | nil =>
          have starved := reached.step_starved .scriptEnded awaits (by rw [device]; rfl)
          exact absurd (run_failed _ _ reached.step (by rw [starved]; rfl)) fed
      | cons c rest => exact Device.refill_answers unread fresh rest c (List.IsSuffix.length_le leaves)

end Machine

namespace Session

def receive (session : Session) (device : Device) : Session :=
  { session with world := { session.world with device := device } }

theorem done_run (session after : Session) (commands : List Command) (steps : Nat) (exit : Exit)
    (ended : (Machine.start commands session.globals session.world).run steps = ⟨.done exit, after.globals, [], after.world⟩) :
    session.run steps commands = some (exit, after) := by
  simp only [run, ended]
  rfl

theorem start_refill (session : Session) (commands : List Command) (consumed unread fresh : List Char) :
    (Machine.start commands session.globals (session.receive (.script (consumed ++ unread))).world).supply
        (Device.refill unread fresh) id =
      Machine.start commands session.globals (session.receive (.script (consumed ++ fresh))).world :=
  congrArg (fun device => Machine.start commands session.globals (session.receive device).world)
    (Device.refill_script consumed unread fresh)

theorem done_refill (after : Session) (exit : Exit) (unread fresh : List Char)
    (device : after.world.device = .script unread) :
    (Machine.mk (.done exit) after.globals [] after.world).supply (Device.refill unread fresh) id =
      ⟨.done exit, after.globals, [], (after.receive (.script fresh)).world⟩ := by
  have swapped : Device.refill unread fresh (.script unread) = .script fresh := Device.refill_script [] unread fresh
  simp only [Machine.supply, Control.recast, exit.recast_id, device, swapped, receive]

/-- What a run does and how it ends is settled by the input that it reads. Other input behind that is left as it is. -/
theorem run_refilled (session after : Session) (commands : List Command) (supplied : List Char) (steps : Nat) (exit : Exit)
    (ran : (session.receive (.script supplied)).run steps commands = some (exit, after))
    (fed : exit ≠ .failed (.input .scriptEnded)) :
    ∃ consumed unread, supplied = consumed ++ unread ∧ after.world.device = .script unread ∧
      ∀ fresh, (session.receive (.script (consumed ++ fresh))).run steps commands =
        some (exit, after.receive (.script fresh)) := by
  have ended : (Machine.start commands session.globals (session.receive (.script supplied)).world).run steps =
      ⟨.done exit, after.globals, [], after.world⟩ := run_done _ commands steps exit after ran
  have leaves : (Device.script supplied).Leaves after.world.device := by
    have grown := Machine.run_grows steps (.start commands session.globals (session.receive (.script supplied)).world)
    rw [ended] at grown
    exact grown.input
  cases device : after.world.device with
  | bytes pending =>
      rw [device] at leaves
      cases leaves
  | script unread =>
      rw [device] at leaves
      obtain ⟨consumed, rfl⟩ := leaves
      refine ⟨consumed, unread, rfl, rfl, fun fresh => ?_⟩
      have refilled := Machine.run_refill steps
        (.start commands session.globals (session.receive (.script (consumed ++ unread))).world) unread fresh
        (by rw [ended]; exact device) (by rw [ended]; exact fun failed => fed (Control.done.inj failed))
      rw [ended, start_refill, done_refill after exit unread fresh device] at refilled
      exact done_run _ _ commands steps exit refilled

theorem run_refilled_echo :
    let session : Session := ⟨Scope.empty.insert "c" (.text ""), World.start (.script [])⟩
    let commands : List Command := [
      ⟨1, .read (.var "c"), []⟩,
      ⟨2, .loop (.binary (.var "c") .notEqual (.text ".")), [⟨3, .log (.var "c"), []⟩, ⟨4, .read (.var "c"), []⟩]⟩,
      ⟨5, .read (.cell (.integer 10000)), []⟩]
    ∃ after, after.world.output = "hi" ∧ after.world.device = .script "rest".toList ∧
      (session.receive (.script "hi.?rest".toList)).run 20 commands = some (.failed (.fault 5 (.indexOutOfRange 10000)), after) ∧
      ∀ fresh, (session.receive (.script ("hi.?".toList ++ fresh))).run 20 commands =
        some (.failed (.fault 5 (.indexOutOfRange 10000)), after.receive (.script fresh)) := by
  intro session commands
  have found : ((session.receive (.script "hi.?rest".toList)).run 20 commands).map (fun ended =>
      (ended.1, ended.2.world.output, ended.2.world.device)) =
      some (.failed (.fault 5 (.indexOutOfRange 10000)), "hi", .script "rest".toList) := by decide +kernel
  obtain ⟨⟨exit, after⟩, ran, same⟩ := Option.map_eq_some_iff.mp found
  simp only [Prod.mk.injEq] at same
  obtain ⟨rfl, output, device⟩ := same
  have fed : Exit.failed (.fault 5 (.indexOutOfRange 10000)) ≠ .failed (.input .scriptEnded) := by
    intro starved
    cases starved
  obtain ⟨consumed, unread, whole, left, others⟩ := run_refilled session after commands _ 20 _ ran fed
  rw [device] at left
  cases left
  have parted : "hi.?".toList ++ "rest".toList = consumed ++ "rest".toList := whole
  cases List.append_cancel_right parted
  exact ⟨after, output, device, ran, others⟩

end Session

end Offside
