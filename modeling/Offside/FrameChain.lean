import Offside.Error

set_option autoImplicit false

namespace Offside

class FrameChain (Chain : Type) where
  empty : Chain
  find : Chain → String → Option Value
  insert : Chain → String → Value → Chain
  update : Chain → String → Value → Chain
  extend : Chain → Chain
  leave : Chain → Chain

namespace FrameChain

variable {Chain : Type} [FrameChain Chain]

def lookup (chain : Chain) (name : String) : Except Fault Value :=
  match find chain name with
  | some value => .ok value
  | none => .error (.notDeclared name)

def assign (chain : Chain) (name : String) (value : Value) : Except Fault Chain :=
  if (find chain name).isSome then .ok (update chain name value) else .error (.notDeclared name)

-- A name is declared at most once among the visible frames.
def declare (chain : Chain) (name : String) (value : Value) : Except Fault Chain :=
  if (find chain name).isSome then .error (.alreadyDeclared name) else .ok (insert chain name value)

end FrameChain

end Offside
