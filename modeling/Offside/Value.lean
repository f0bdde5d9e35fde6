import Offside.Text.Numeral

set_option autoImplicit false

namespace Offside

inductive Kind where
  | text
  | integer
  | boolean
deriving DecidableEq, Repr

namespace Kind

def name : Kind → String
  | .text => "text"
  | .integer => "integer"
  | .boolean => "boolean"

end Kind

inductive Value where
  | text (value : String)
  | integer (value : Int64)
  | boolean (value : Bool)
deriving DecidableEq, Repr

namespace Value

def kind : Value → Kind
  | .text _ => .text
  | .integer _ => .integer
  | .boolean _ => .boolean

def shown : Value → String
  | .text value => value
  | .integer value => String.ofList (Numeral.ofInteger value)
  | .boolean true => "true"
  | .boolean false => "false"

def quoted : Value → String
  | .text value => "'" ++ value ++ "'"
  | value => value.shown

def blank : Value := .text ""

end Value

end Offside
