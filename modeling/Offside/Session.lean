import Offside.Command.Block
import Offside.Machine

set_option autoImplicit false

namespace Offside

structure Session where
  globals : Scope
  world : World

namespace Session

def start (device : Device) : Session := ⟨.empty, .start device⟩

-- Runs commands to their end; none if that takes more steps than given.
def run (steps : Nat) (commands : List Command) (session : Session) : Option (Exit × Session) :=
  let machine := (Machine.start commands session.globals session.world).run steps
  machine.exit?.map fun exit => (exit, ⟨machine.scope, machine.world⟩)

def feed (steps : Nat) (source : String) (session : Session) : Option (Exit × Session) :=
  match Command.ofSource source with
  | .ok commands => session.run steps commands
  | .error error => some (.failed error, session)

def program (session : Session) (name : String) : Option Program := session.world.programs.find name

def cell (session : Session) (index : Value) : Except Fault Value := session.world.memory.read index

def outputSince (session earlier : Session) : String :=
  String.ofList (session.world.output.toList.drop earlier.world.output.length)

end Session

end Offside
