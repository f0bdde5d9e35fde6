import Offside.Error

set_option autoImplicit false

namespace Offside.Value

-- The length of a text in characters; one beyond the integers counts as the largest integer.
def textLength (text : String) : Int64 := Int64.ofInt (min (text.length : Int) Int64.maxValue.toInt)

def characterAt (text : String) (index : Int64) : Except Fault Value :=
  let found := if 0 ≤ index then text.toList[index.toInt.toNat]? else none
  match found with
  | some c => .ok (.text (String.singleton c))
  | none => .error (.characterOutOfRange index text.length)

-- Integers wrap around at 64 bits and division truncates. A text or boolean on the left of a plus is joined with
-- whatever is printed on its right; an integer on the left is not.
def operate (left : Value) (operator : Operator) (right : Value) : Except Fault Value :=
  match left, operator, right with
  | .text a, .plus, b => .ok (.text (a ++ b.shown))
  | .text a, .equal, .text b => .ok (.boolean (a = b))
  | .text a, .notEqual, .text b => .ok (.boolean (a ≠ b))
  | .text a, .less, .integer b => .ok (.boolean (textLength a < b))
  | .text a, .modulo, .integer b => characterAt a b
  | .integer a, .plus, .integer b => .ok (.integer (a + b))
  | .integer a, .minus, .integer b => .ok (.integer (a - b))
  | .integer a, .times, .integer b => .ok (.integer (a * b))
  | .integer a, .divide, .integer b => if b = 0 then .error .divisionByZero else .ok (.integer (a / b))
  | .integer a, .modulo, .integer b => if b = 0 then .error .divisionByZero else .ok (.integer (a % b))
  | .integer a, .equal, .integer b => .ok (.boolean (a = b))
  | .integer a, .notEqual, .integer b => .ok (.boolean (a ≠ b))
  | .integer a, .less, .integer b => .ok (.boolean (a < b))
  | .integer a, .less, .text b => .ok (.boolean (a < textLength b))
  | .boolean a, .and, .boolean b => .ok (.boolean (a && b))
  | .boolean a, .or, .boolean b => .ok (.boolean (a || b))
  | .boolean a, .equal, .boolean b => .ok (.boolean (a = b))
  | .boolean a, .notEqual, .boolean b => .ok (.boolean (a ≠ b))
  | .boolean a, .plus, b => .ok (.text ((Value.boolean a).shown ++ b.shown))
  | left, operator, right => .error (.unsupported left.kind operator right.kind)

end Offside.Value
