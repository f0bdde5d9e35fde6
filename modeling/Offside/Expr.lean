import Offside.Symbol

set_option autoImplicit false

namespace Offside

inductive Expr where
  | text (value : String)
  | integer (value : Int64)
  | boolean (value : Bool)
  | var (name : String)
  | cell (index : Expr)
  | binary (left : Expr) (operator : Operator) (right : Expr)
deriving DecidableEq, Repr

inductive Target where
  | var (name : String)
  | cell (index : Expr)
deriving DecidableEq, Repr

end Offside
