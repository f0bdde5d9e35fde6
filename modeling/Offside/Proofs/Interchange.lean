import Offside.Proofs.Encoding
import Offside.Proofs.Supply
import Offside.Proofs.Unread

set_option autoImplicit false

namespace Offside

def InputError.encoded : InputError → InputError
  | .scriptEnded => .bytesEnded
  | .bytesEnded => .bytesEnded
  | .notUtf8 => .notUtf8

namespace Device

def encoded : Device → Device
  | .script pending => .bytes (encode pending)
  | .bytes pending => .bytes pending

theorem read_bytes_cause (pending : List UInt8) :
    (readBytes pending).1.mapError InputError.encoded = (readBytes pending).1 := by
  cases pending with
  | nil => rfl
  | cons lead rest =>
      rw [readBytes]
      split
      · rfl
      · split <;> rfl

theorem encoded_answers (device : Device) : device.Answers encoded InputError.encoded := by
  cases device with
  | script pending =>
      cases pending with
      | nil => rfl
      | cons c rest =>
          have taken := read_bytes_encoded c (encode rest)
          rw [Answers, encoded, encode, List.flatMap_cons, read]
          exact congrArg (fun result => (result.1, Device.bytes result.2)) taken
  | bytes pending => exact congrArg (fun answer => (answer, (Device.bytes pending).read.2)) (read_bytes_cause pending).symm

end Device

theorem Exit.recast_unread (blame : InputError → InputError) (exit : Exit) (unread : exit.isUnread = true) :
    exit.recast blame = exit := by
  cases exit with
  | failed error =>
      cases error with
      | input cause => cases unread
      | _ => rfl
  | _ => rfl

namespace Session

def encoded (session : Session) : Session :=
  { session with world := { session.world with device := session.world.device.encoded } }

theorem run_encoded (session : Session) (commands : List Command) (steps : Nat) :
    session.encoded.run steps commands =
      (session.run steps commands).map fun (exit, after) => (exit.recast InputError.encoded, after.encoded) := by
  have same := Machine.run_supply Device.encoded InputError.encoded steps (.start commands session.globals session.world)
    fun earlier _ _ => Device.encoded_answers _
  have started : Machine.start commands session.encoded.globals session.encoded.world =
      (Machine.start commands session.globals session.world).supply Device.encoded InputError.encoded := rfl
  rw [run, run, started, same]
  simp only [Machine.exit_supply, Option.map_map]
  rfl

theorem feed_encoded (session : Session) (source : String) (steps : Nat) :
    session.encoded.feed steps source =
      (session.feed steps source).map fun (exit, after) => (exit.recast InputError.encoded, after.encoded) := by
  rw [feed, feed]
  cases read : Command.ofSource source with
  | ok commands => exact run_encoded session commands steps
  | error error =>
      have same := Exit.recast_unread InputError.encoded _ (Command.of_source_unread source error read)
      exact congrArg (fun exit => some (exit, session.encoded)) same.symm

theorem ends_encoded (session after : Session) (source : String) (exit : Exit) :
    session.encoded.Ends source exit after ↔
      ∃ origin reached, session.Ends source origin reached ∧ exit = origin.recast InputError.encoded ∧
        after = reached.encoded := by
  constructor
  · rintro ⟨steps, fed⟩
    rw [feed_encoded, Option.map_eq_some_iff] at fed
    obtain ⟨⟨origin, reached⟩, ended, same⟩ := fed
    cases same
    exact ⟨origin, reached, ⟨steps, ended⟩, rfl, rfl⟩
  · rintro ⟨origin, reached, ⟨steps, ended⟩, rfl, rfl⟩
    exact ⟨steps, by rw [feed_encoded, ended]; rfl⟩

end Session

def Turn.encoded (turn : Turn) : Turn := ⟨turn.source, turn.exit.recast InputError.encoded, turn.after.encoded⟩

namespace Session

theorem takes_encoded (session : Session) (twins : List Turn) :
    session.encoded.Takes twins ↔ ∃ turns, session.Takes turns ∧ twins = turns.map Turn.encoded := by
  induction twins generalizing session with
  | nil =>
      constructor
      · exact fun _ => ⟨[], trivial, rfl⟩
      · exact fun _ => trivial
  | cons twin more ih =>
      obtain ⟨source, exit, after⟩ := twin
      constructor
      · rintro ⟨ended, others⟩
        obtain ⟨origin, reached, first, rfl, rfl⟩ := (ends_encoded session after source exit).mp ended
        obtain ⟨turns, taken, rfl⟩ := (ih reached).mp others
        exact ⟨⟨source, origin, reached⟩ :: turns, ⟨first, taken⟩, rfl⟩
      · rintro ⟨turns, taken, same⟩
        cases turns with
        | nil => cases same
        | cons turn rest =>
            cases same
            exact ⟨(ends_encoded session _ _ _).mpr ⟨turn.exit, turn.after, taken.1, rfl, rfl⟩,
              (ih turn.after).mpr ⟨rest, taken.2, rfl⟩⟩

-- Two runs that have come to the same read with no input left. It fails, and changes nothing.
def Starved (session other : Session) (source : String) : Prop :=
  ∃ commands steps, Command.ofSource source = .ok commands ∧
    let reached := (Machine.start commands session.globals session.world).run steps
    let twin := (Machine.start commands other.globals other.world).run steps
    reached.awaitsInput = true ∧ reached.world.device = .script [] ∧ twin = reached.receive (.bytes []) ∧
      reached.step = reached.finish (.failed (.input .scriptEnded)) ∧
      twin.step = twin.finish (.failed (.input .bytesEnded))

end Session

structure Turn.Alike (session other : Session) (turn twin : Turn) : Prop where
  source : twin.source = turn.source
  output : twin.after.world.output = turn.after.world.output
  memory : twin.after.world.memory = turn.after.world.memory
  globals : twin.after.globals = turn.after.globals
  programs : twin.after.world.programs = turn.after.world.programs
  input : ∃ unread, turn.after.world.device = .script unread ∧ twin.after.world.device = .bytes (encode unread)
  outcome : twin.exit = turn.exit ∧ (∀ cause, turn.exit ≠ .failed (.input cause)) ∨
    turn.exit = .failed (.input .scriptEnded) ∧ twin.exit = .failed (.input .bytesEnded) ∧
      session.Starved other turn.source

namespace Session

-- Each turn is compared with its twin from where the turns before them have left the two sessions.
def Paired : Session → Session → List Turn → List Turn → Prop
  | _, _, [], [] => True
  | session, other, turn :: more, twin :: others =>
      turn.Alike session other twin ∧ Paired turn.after twin.after more others
  | _, _, _, _ => False

theorem ends_script (session after : Session) (source : String) (exit : Exit) (pending : List Char)
    (scripted : session.world.device = .script pending) (ended : session.Ends source exit after) :
    ∃ unread, after.world.device = .script unread := by
  have leaves := (ends_grows session after source exit ended).input
  rw [scripted] at leaves
  cases device : after.world.device with
  | script unread => exact ⟨unread, rfl⟩
  | bytes unread =>
      rw [device] at leaves
      cases leaves

theorem ends_starved (session after : Session) (source : String) (cause : InputError) (pending : List Char)
    (scripted : session.world.device = .script pending) (ended : session.Ends source (.failed (.input cause)) after) :
    cause = .scriptEnded ∧ session.Starved session.encoded source := by
  obtain ⟨steps, fed⟩ := ended
  rw [feed] at fed
  cases parsed : Command.ofSource source with
  | error error =>
      rw [parsed] at fed
      cases fed
      cases Command.of_source_unread source _ parsed
  | ok commands =>
      rw [parsed] at fed
      have done := session.run_done commands steps _ after fed
      have fed : (Machine.start commands session.globals session.world).control ≠ .done (.failed (.input cause)) := by
        intro starved
        cases starved
      obtain ⟨earlier, _, awaits, starved⟩ := Machine.run_starves steps _ cause fed (by rw [done])
      have same := Machine.run_supply Device.encoded InputError.encoded earlier
        (.start commands session.globals session.world) fun _ _ _ => Device.encoded_answers _
      have leaves := (Machine.run_grows earlier (.start commands session.globals session.world)).input
      have entry : (Machine.start commands session.globals session.world).world.device = .script pending := scripted
      rw [entry] at leaves
      generalize came : (Machine.start commands session.globals session.world).run earlier = reached
        at awaits starved same leaves
      cases device : reached.world.device with
      | bytes unread =>
          rw [device] at leaves
          cases leaves
      | script unread =>
          rw [device] at starved
          cases unread with
          | cons c rest => cases starved
          | nil =>
              cases starved
              rw [reached.supply_awaiting Device.encoded InputError.encoded awaits, device] at same
              have twin : (Machine.start commands session.encoded.globals session.encoded.world).run earlier =
                  reached.receive (.bytes []) := same
              refine ⟨rfl, commands, earlier, parsed, ?_⟩
              simp only [came, twin]
              exact ⟨awaits, device, trivial, reached.step_drained .scriptEnded awaits (by rw [device]; rfl),
                (reached.receive (.bytes [])).step_drained .bytesEnded awaits rfl⟩

theorem ends_alike (session after : Session) (source : String) (exit : Exit) (pending : List Char)
    (scripted : session.world.device = .script pending) (ended : session.Ends source exit after) :
    Turn.Alike session session.encoded ⟨source, exit, after⟩ (Turn.encoded ⟨source, exit, after⟩) := by
  obtain ⟨unread, device⟩ := ends_script session after source exit pending scripted ended
  refine ⟨rfl, rfl, rfl, rfl, rfl, ⟨unread, device, ?_⟩, ?_⟩
  · change after.world.device.encoded = _
    rw [device]
    rfl
  · cases exit with
    | fellThrough => exact .inl ⟨rfl, fun _ => nofun⟩
    | returned value => exact .inl ⟨rfl, fun _ => nofun⟩
    | failed error =>
        cases error with
        | input cause =>
            obtain ⟨rfl, starved⟩ := ends_starved session after source cause pending scripted ended
            exact .inr ⟨rfl, rfl, starved⟩
        | _ => exact .inl ⟨rfl, fun _ => nofun⟩

theorem takes_paired (session : Session) (turns : List Turn) (pending : List Char)
    (scripted : session.world.device = .script pending) (taken : session.Takes turns) :
    Paired session session.encoded turns (turns.map Turn.encoded) := by
  induction turns generalizing session pending with
  | nil => trivial
  | cons turn more ih =>
      obtain ⟨ended, others⟩ := taken
      obtain ⟨unread, device⟩ := ends_script session turn.after turn.source turn.exit pending scripted ended
      exact ⟨ends_alike session turn.after turn.source turn.exit pending scripted ended, ih turn.after unread device others⟩

theorem start_encoded (text : String) : (start (.script text.toList)).encoded = start (.bytes text.toUTF8.data.toList) := by
  rw [encode_string]
  rfl

/-- A text serves as a script as well as in its bytes: turn by turn sources do the same, and where one of them runs out
of input, both do. -/
theorem takes_interchanged (text : String) :
    (∀ turns, (start (.script text.toList)).Takes turns →
      ∃ twins, (start (.bytes text.toUTF8.data.toList)).Takes twins ∧
        Paired (start (.script text.toList)) (start (.bytes text.toUTF8.data.toList)) turns twins) ∧
    (∀ twins, (start (.bytes text.toUTF8.data.toList)).Takes twins →
      ∃ turns, (start (.script text.toList)).Takes turns ∧
        Paired (start (.script text.toList)) (start (.bytes text.toUTF8.data.toList)) turns twins) ∧
    InputError.scriptEnded.kind = .unexpectedEof ∧ InputError.bytesEnded.kind = .unexpectedEof ∧
    InputError.scriptEnded.message ≠ InputError.bytesEnded.message := by
  rw [← start_encoded]
  refine ⟨?_, ?_, rfl, rfl, by decide⟩
  · intro turns taken
    exact ⟨turns.map Turn.encoded, (takes_encoded _ _).mpr ⟨turns, taken, rfl⟩, takes_paired _ turns _ rfl taken⟩
  · intro twins taken
    obtain ⟨turns, scripted, rfl⟩ := (takes_encoded _ twins).mp taken
    exact ⟨turns, scripted, takes_paired _ turns _ rfl scripted⟩

theorem takes_interchanged_loop :
    ∃ first second third : Session, ∃ twins,
      (start (.bytes [0xc3, 0xa9, 0x2e])).Takes twins ∧
      Paired (start (.script ['é', '.'])) (start (.bytes [0xc3, 0xa9, 0x2e]))
        [⟨"new :c ''\nread :c\nlog :c", .fellThrough, first⟩, ⟨"log 1 +", .failed (.shape 1 .emptyExpression), second⟩,
          ⟨"while ?true\n  read [0]", .failed (.input .scriptEnded), third⟩] twins ∧
      third.world.output = "é" := by
  let first : Session :=
    ⟨Scope.empty.insert "c" (.text "é"), { World.start (.script ['.']) with output := "é" }⟩
  let third : Session :=
    ⟨first.globals, { first.world with memory := Memory.blank.store 0 (.text "."), device := .script [] }⟩
  have one : (start (.script "é.".toList)).Ends "new :c ''\nread :c\nlog :c" .fellThrough first :=
    ⟨4, by with_unfolding_all rfl⟩
  have two : first.Ends "log 1 +" (.failed (.shape 1 .emptyExpression)) first := ⟨0, by with_unfolding_all rfl⟩
  have three : first.Ends "while ?true\n  read [0]" (.failed (.input .scriptEnded)) third :=
    ⟨7, by with_unfolding_all rfl⟩
  obtain ⟨twins, taken, paired⟩ := (takes_interchanged "é.").1
    [⟨_, .fellThrough, first⟩, ⟨_, .failed (.shape 1 .emptyExpression), first⟩, ⟨_, .failed (.input .scriptEnded), third⟩]
    ⟨one, two, three, trivial⟩
  have bytes : "é.".toUTF8.data.toList = [0xc3, 0xa9, 0x2e] := by decide
  rw [bytes] at taken paired
  exact ⟨first, first, third, twins, taken, paired, rfl⟩

end Session

end Offside
