import Offside.Keyword
import Offside.Operator

set_option autoImplicit false

namespace Offside

-- What one word of a row means. Names stand without their sigil and may be empty.
inductive Symbol where
  | indent (depth : Nat)
  | keyword (keyword : Keyword)
  | text (value : String)
  | integer (value : Int64)
  | boolean (value : Bool)
  | var (name : String)
  | program (name : String)
  | cell (index : Symbol)
  | operator (operator : Operator)
deriving DecidableEq, Repr

namespace Symbol

def isValue : Symbol → Bool
  | .text _ | .integer _ | .boolean _ | .var _ => true
  | .cell index => isValue index
  | .indent _ | .keyword _ | .program _ | .operator _ => false

end Symbol

end Offside
