import Offside.FrameChain
import Offside.Scope

set_option autoImplicit false

namespace Offside.Scope

instance : FrameChain Scope := ⟨empty, find, insert, update, extend, leave⟩

def lookup (scope : Scope) (name : String) : Except Fault Value := FrameChain.lookup scope name

def assign (scope : Scope) (name : String) (value : Value) : Except Fault Scope := FrameChain.assign scope name value

def declare (scope : Scope) (name : String) (value : Value) : Except Fault Scope := FrameChain.declare scope name value

theorem lookup_find (scope : Scope) (name : String) :
    scope.lookup name =
      match scope.find name with
      | some value => .ok value
      | none => .error (.notDeclared name) := rfl

theorem assign_update (scope : Scope) (name : String) (value : Value) :
    scope.assign name value =
      if (scope.find name).isSome then .ok (scope.update name value) else .error (.notDeclared name) := rfl

theorem declare_insert (scope : Scope) (name : String) (value : Value) :
    scope.declare name value =
      if (scope.find name).isSome then .error (.alreadyDeclared name) else .ok (scope.insert name value) := rfl

end Offside.Scope
