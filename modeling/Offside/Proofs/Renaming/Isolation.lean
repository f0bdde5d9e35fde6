import Mathlib.Data.List.Count
import Offside.Proofs.Renaming.Placement

set_option autoImplicit false

namespace Offside

namespace Command

-- The commands with every variable qualified by its scope. All renamed versions are images of this one.
def qualified (commands : List Command) : List Command := renameAll qualify 0 1 commands

def settle (maps : Nat → String → String) (name : String) : String := maps (unqualify name).1 (unqualify name).2

theorem settle_qualify (maps : Nat → String → String) (scope : Nat) (name : String) :
    settle maps (qualify scope name) = maps scope name := by
  rw [settle, unqualify_qualify]

theorem relabel_qualified (maps : Nat → String → String) (commands : List Command) :
    relabelAll (settle maps) (qualified commands) = renameAll maps 0 1 commands := by
  rw [qualified, relabel_rename_all]
  simp only [settle_qualify]

theorem settle_faithful (maps : Nat → String → String) (injective : ∀ scope, Function.Injective (maps scope)) (owner : Nat)
    (first second : String) (firstOwned : Owned owner first) (secondOwned : Owned owner second)
    (same : settle maps first = settle maps second) : first = second := by
  obtain ⟨plain, rfl⟩ := firstOwned
  obtain ⟨other, rfl⟩ := secondOwned
  rw [settle_qualify, settle_qualify] at same
  rw [injective owner same]

theorem sites_qualified (commands : List Command) : Qualified (sitesAll 0 1 (qualified commands)) := by
  refine ⟨sites_all_body 0 1 (qualified commands), ?_, ?_⟩
  · intro site present name member
    rw [qualified, sites_rename_all] at present
    obtain ⟨origin, _, rfl⟩ := List.mem_map.mp present
    obtain ⟨scope, row, line, head, body⟩ := origin
    change name ∈ (head.rename (qualify scope) (qualify row)).names at member
    rw [Head.names_rename] at member
    obtain ⟨plain, _, rfl⟩ := List.mem_map.mp member
    exact ⟨plain, rfl⟩
  · intro site present called params defined param member
    rw [qualified, sites_rename_all] at present
    obtain ⟨origin, _, rfl⟩ := List.mem_map.mp present
    obtain ⟨scope, row, line, head, body⟩ := origin
    change head.rename (qualify scope) (qualify row) = .define called params at defined
    cases head with
    | define name own =>
        cases defined
        obtain ⟨plain, _, rfl⟩ := List.mem_map.mp member
        exact ⟨plain, rfl⟩
    | _ => cases defined

end Command

namespace Exit

theorem relabel_blameless (map : String → String) (exit : Exit) (blameless : exit.blamed = none) :
    exit.relabel map = exit := by
  cases exit with
  | fellThrough => rfl
  | returned value => rfl
  | failed error =>
      cases error with
      | fault line cause =>
          cases cause with
          | notDeclared name => cases blameless
          | alreadyDeclared name => cases blameless
          | _ => rfl
      | _ => rfl

end Exit

theorem traced_owned (commands : List Command) (owner : Nat) (exit : Exit)
    (traced : Traced (Command.sitesAll 0 1 (Command.qualified commands)) owner exit) :
    exit.blamed = none ∨ ∃ name, exit.blamed = some (qualify owner name) := by
  have qualified := Command.sites_qualified commands
  cases traced with
  | unblamed _ blameless => exact .inl blameless
  | unknown site name present belongs member =>
      obtain ⟨plain, rfl⟩ := qualified.names site present name (Head.vars_names _ member)
      exact .inr ⟨plain, congrArg (fun scope => some (qualify scope plain)) belongs⟩
  | known site name value present belongs head =>
      have member : name ∈ site.command.head.names := by
        rw [head]
        exact List.mem_cons_self
      obtain ⟨plain, rfl⟩ := qualified.names site present name member
      exact .inr ⟨plain, congrArg (fun scope => some (qualify scope plain)) belongs⟩
  | duplicate call definition called name arguments capture params _ _ present head belongs twice =>
      obtain ⟨plain, rfl⟩ := qualified.params definition present called params head name twice.mem
      exact .inr ⟨plain, congrArg (fun scope => some (qualify scope plain)) belongs⟩

def plain (name : String) : String := Command.settle (fun _ name => name) name

theorem plain_qualify (scope : Nat) (name : String) : plain (qualify scope name) = name := Command.settle_qualify _ scope name

theorem duplicate_qualified (owner : Nat) (name : String) (params : List String)
    (twice : List.Duplicate name (params.map (qualify owner))) :
    ∃ own, name = qualify owner own ∧ List.Duplicate own params := by
  obtain ⟨own, _, rfl⟩ := List.mem_map.mp twice.mem
  rw [List.duplicate_iff_two_le_count, List.count_map_of_injective _ _ (qualify_injective owner),
    ← List.duplicate_iff_two_le_count] at twice
  exact ⟨own, rfl, twice⟩

theorem traced_plain (commands : List Command) (owner : Nat) (exit : Exit)
    (traced : Traced (Command.sitesAll 0 1 (Command.qualified commands)) owner exit) :
    Traced (Command.sitesAll 0 1 commands) owner (exit.relabel plain) := by
  rw [Command.qualified, Command.sites_rename_all] at traced
  cases traced with
  | unblamed _ blameless =>
      rw [exit.relabel_blameless plain blameless]
      exact .unblamed exit blameless
  | unknown site name present belongs member =>
      obtain ⟨⟨scope, row, line, head, body⟩, listed, rfl⟩ := List.mem_map.mp present
      change name ∈ (head.rename (qualify scope) (qualify row)).vars at member
      rw [Head.vars_rename] at member
      obtain ⟨own, ownMember, rfl⟩ := List.mem_map.mp member
      change Traced _ owner (.failed (.fault line (.notDeclared (plain (qualify scope own)))))
      rw [plain_qualify]
      exact .unknown ⟨scope, row, line, head, body⟩ own listed belongs ownMember
  | known site name value present belongs declares =>
      obtain ⟨⟨scope, row, line, head, body⟩, listed, rfl⟩ := List.mem_map.mp present
      change head.rename (qualify scope) (qualify row) = .declare name value at declares
      cases head with
      | declare own initial =>
          cases declares
          change Traced _ owner (.failed (.fault line (.alreadyDeclared (plain (qualify scope own)))))
          rw [plain_qualify]
          exact .known ⟨scope, row, line, .declare own initial, body⟩ own initial listed belongs rfl
      | _ => cases declares
  | duplicate call definition called name arguments capture params callPresent calls present defines belongs twice =>
      obtain ⟨⟨scope, row, line, head, body⟩, listed, rfl⟩ := List.mem_map.mp callPresent
      obtain ⟨⟨outside, place, number, definer, code⟩, defined, rfl⟩ := List.mem_map.mp present
      change head.rename (qualify scope) (qualify row) = .call called arguments capture at calls
      change definer.rename (qualify outside) (qualify place) = .define called params at defines
      cases head with
      | call callee operands target =>
          cases definer with
          | define known own =>
              cases calls
              cases defines
              obtain ⟨param, rfl, ownTwice⟩ := duplicate_qualified place name own twice
              change Traced _ owner (.failed (.fault line (.alreadyDeclared (plain (qualify place param)))))
              rw [plain_qualify]
              exact .duplicate ⟨scope, row, line, .call called operands target, body⟩
                ⟨outside, place, number, .define called own, code⟩ called param operands target own listed rfl defined rfl
                belongs ownTwice
          | _ => cases defines
      | _ => cases calls

theorem Exit.relabel_settle (maps : Nat → String → String) (owner : Nat) (exit : Exit)
    (owned : exit.blamed = none ∨ ∃ name, exit.blamed = some (qualify owner name)) :
    exit.relabel (Command.settle maps) = (exit.relabel plain).relabel (maps owner) := by
  rcases owned with blameless | ⟨name, blamed⟩
  · rw [exit.relabel_blameless _ blameless, exit.relabel_blameless plain blameless, exit.relabel_blameless _ blameless]
  · cases exit with
    | fellThrough => cases blamed
    | returned value => cases blamed
    | failed error =>
        cases error with
        | fault line cause =>
            cases cause with
            | notDeclared found =>
                cases blamed
                simp only [relabel, Error.relabel, Fault.relabel, Command.settle_qualify, plain_qualify]
            | alreadyDeclared found =>
                cases blamed
                simp only [relabel, Error.relabel, Fault.relabel, Command.settle_qualify, plain_qualify]
            | _ => cases blamed
        | _ => cases blamed

namespace Session

def relabel (map : String → String) (session : Session) : Session := ⟨session.globals.relabel map, session.world.relabel map⟩

theorem start_placed (commands : List Command) (device : Device) :
    ∃ owner, (Machine.start (Command.qualified commands) (start device).globals (start device).world).Placed
      (Command.sitesAll 0 1 (Command.qualified commands)) owner :=
  ⟨0, Command.sites_all_member 0 1 (Command.qualified commands), nofun, trivial, nofun⟩

theorem run_settled (commands : List Command) (device : Device) (steps : Nat) (maps : Nat → String → String)
    (injective : ∀ scope, Function.Injective (maps scope)) :
    (Session.start device).run steps (Command.renameAll maps 0 1 commands) =
      ((Session.start device).run steps (Command.qualified commands)).map fun (exit, after) =>
        (exit.relabel (Command.settle maps), after.relabel (Command.settle maps)) := by
  have qualified := Command.sites_qualified commands
  have apart := Machine.placed_apart _ qualified _ (Command.settle_faithful maps injective)
  have same := Machine.run_relabel (Command.settle maps) _ (Machine.step_placed _ qualified) apart steps _
    (start_placed commands device)
  have started : (Machine.start (Command.qualified commands) (start device).globals (start device).world).relabel
      (Command.settle maps) =
      Machine.start (Command.renameAll maps 0 1 commands) (start device).globals (start device).world := by
    rw [← Command.relabel_qualified maps commands]
    rfl
  rw [started] at same
  rw [Session.run, Session.run, same]
  simp only [Machine.exit_relabel, Option.map_map]
  rfl

theorem run_traced (commands : List Command) (device : Device) (steps : Nat) (exit : Exit) (after : Session)
    (ended : (Session.start device).run steps (Command.qualified commands) = some (exit, after)) :
    ∃ owner, Traced (Command.sitesAll 0 1 (Command.qualified commands)) owner exit := by
  have placed := Machine.run_keeps _ (Machine.step_placed _ (Command.sites_qualified commands)) steps _
    (start_placed commands device)
  rw [run_done (start device) (Command.qualified commands) steps exit after ended] at placed
  obtain ⟨_, final⟩ := placed
  exact final.control

def observed (result : Exit × Session) : Exit × String × Memory × Device :=
  (result.1, result.2.world.output, result.2.world.memory, result.2.world.device)

/-- The variables of each program are its own: renaming them, differently for each scope, changes nothing but the name
that a failure blames, which follows the map of the scope it belongs to. -/
theorem run_renamed (commands : List Command) (device : Device) (steps : Nat) :
    ∃ owner, (∀ exit after, (Session.start device).run steps commands = some (exit, after) →
        Traced (Command.sitesAll 0 1 commands) owner exit) ∧
      ∀ maps : Nat → String → String, (∀ scope, Function.Injective (maps scope)) →
        ((Session.start device).run steps (Command.renameAll maps 0 1 commands)).map observed =
          ((Session.start device).run steps commands).map fun (exit, after) => observed (exit.relabel (maps owner), after) := by
  -- The commands themselves are renamed by maps that change nothing. The owner is found in the qualified run, which is
  -- the same for all maps.
  have original := run_settled commands device steps (fun _ name => name) fun _ => Function.injective_id
  rw [Command.rename_all_same] at original
  cases ended : (Session.start device).run steps (Command.qualified commands) with
  | none =>
      rw [ended, Option.map_none] at original
      refine ⟨0, ?_, ?_⟩
      · intro exit after halted
        rw [original] at halted
        cases halted
      · intro maps injective
        rw [run_settled commands device steps maps injective, ended, original]
        rfl
  | some result =>
      obtain ⟨exit, after⟩ := result
      obtain ⟨owner, traced⟩ := run_traced commands device steps exit after ended
      rw [ended, Option.map_some] at original
      refine ⟨owner, ?_, ?_⟩
      · intro found later halted
        rw [original] at halted
        cases halted
        exact traced_plain commands owner exit traced
      · intro maps injective
        have settled := exit.relabel_settle maps owner (traced_owned commands owner exit traced)
        rw [run_settled commands device steps maps injective, ended, original]
        exact congrArg (fun final => some (final, after.world.output, after.world.memory, after.world.device)) settled

theorem run_renamed_duplicate :
    let commands : List Command := [
      ⟨1, .define "f" ["x"], [
        ⟨2, .declare "y" (.var "x"), []⟩,
        ⟨3, .define "g" ["x", "x"], [⟨4, .give (some (.var "x")), []⟩]⟩,
        ⟨5, .log (.var "y"), []⟩,
        ⟨6, .call "g" [.var "x", .var "y"] (some "y"), []⟩]⟩,
      ⟨7, .declare "x" (.integer 1), []⟩,
      ⟨8, .call "f" [.var "x"] none, []⟩]
    let maps : Nat → String → String := fun scope name => String.ofList (List.replicate scope '+' ++ name.toList)
    ((start (.script [])).run 30 commands).map Prod.fst = some (.failed (.fault 6 (.alreadyDeclared "x"))) ∧
      ((start (.script [])).run 30 (Command.renameAll maps 0 1 commands)).map Prod.fst =
        some (.failed (.fault 6 (.alreadyDeclared "+++x"))) ∧
      ∃ owner, Traced (Command.sitesAll 0 1 commands) owner (.failed (.fault 6 (.alreadyDeclared "x"))) ∧
        ((start (.script [])).run 30 (Command.renameAll maps 0 1 commands)).map observed =
          ((start (.script [])).run 30 commands).map fun (exit, after) => observed (exit.relabel (maps owner), after) := by
  intro commands maps
  have failed : ((start (.script [])).run 30 commands).map Prod.fst = some (.failed (.fault 6 (.alreadyDeclared "x"))) := by
    decide +kernel
  have renamed : ((start (.script [])).run 30 (Command.renameAll maps 0 1 commands)).map Prod.fst =
      some (.failed (.fault 6 (.alreadyDeclared "+++x"))) := by
    decide +kernel
  have injective : ∀ scope, Function.Injective (maps scope) := by
    intro scope first second same
    have texts := congrArg String.toList same
    simp only [maps, String.toList_ofList, List.append_cancel_left_eq] at texts
    exact String.toList_inj.mp texts
  obtain ⟨owner, traced, followed⟩ := run_renamed commands (.script []) 30
  obtain ⟨⟨exit, after⟩, ended, same⟩ := Option.map_eq_some_iff.mp failed
  cases same
  exact ⟨failed, renamed, owner, traced _ after ended, followed maps injective⟩

end Session

end Offside
