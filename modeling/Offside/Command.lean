import Offside.Expr

set_option autoImplicit false

namespace Offside

inductive Head where
  | log (value : Expr)
  | read (target : Target)
  | assign (target : Target) (value : Expr)
  | declare (name : String) (value : Expr)
  | branch (condition : Expr)
  | loop (condition : Expr)
  | define (name : String) (params : List String)
  | call (name : String) (arguments : List Expr) (capture : Option String)
  | give (value : Option Expr)
deriving DecidableEq, Repr

namespace Head

def keyword : Head → Keyword
  | .log _ => .log
  | .read _ => .read
  | .assign _ _ => .assign
  | .declare _ _ => .declare
  | .branch _ => .branch
  | .loop _ => .loop
  | .define _ _ => .define
  | .call _ _ _ => .call
  | .give _ => .give

end Head

-- A command with its block, which is empty unless the head opens one.
structure Command where
  line : Nat
  head : Head
  body : List Command
deriving Repr

end Offside
