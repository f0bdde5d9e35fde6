import Offside.Expr
import Offside.Memory
import Offside.Scope.Access
import Offside.Value.Operation

set_option autoImplicit false

namespace Offside

namespace Expr

def evaluate (scope : Scope) (memory : Memory) : Expr → Except Fault Value
  | .text value => .ok (.text value)
  | .integer value => .ok (.integer value)
  | .boolean value => .ok (.boolean value)
  | .var name => scope.lookup name
  | .cell index =>
      match evaluate scope memory index with
      | .ok address => memory.read address
      | .error fault => .error fault
  | .binary left operator right =>
      match evaluate scope memory left with
      | .ok before =>
          match evaluate scope memory right with
          | .ok after => before.operate operator after
          | .error fault => .error fault
      | .error fault => .error fault

def condition (scope : Scope) (memory : Memory) (expr : Expr) : Except Fault Bool :=
  match expr.evaluate scope memory with
  | .ok (.boolean value) => .ok value
  | .ok _ => .error .conditionNotBoolean
  | .error fault => .error fault

end Expr

inductive Place where
  | var (name : String)
  | cell (address : Nat)
deriving DecidableEq, Repr

namespace Target

def locate (scope : Scope) (memory : Memory) : Target → Except Fault Place
  | .var name => if (scope.find name).isSome then .ok (.var name) else .error (.notDeclared name)
  | .cell index =>
      match index.evaluate scope memory with
      | .ok value => (Memory.address value).map .cell
      | .error fault => .error fault

end Target

end Offside
