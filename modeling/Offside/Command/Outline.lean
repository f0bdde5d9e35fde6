import Offside.Command
import Offside.Text.Spelling

set_option autoImplicit false

namespace Offside

inductive Outline where
  | atom (text : String)
  | tuple (name : String) (parts : List Outline)
  | record (name : String) (fields : List Outline)
  | field (name : String) (content : Outline)
  | list (items : List Outline)

namespace Outline

def step : String := "    "

mutual

def write (margin : String) : Outline → String
  | .atom text => text
  | .tuple name parts => name ++ "(\n" ++ writeParts (margin ++ step) parts ++ margin ++ ")"
  | .record name fields => name ++ " \x7b\n" ++ writeParts (margin ++ step) fields ++ margin ++ "\x7d"
  | .field name content => name ++ ": " ++ write margin content
  | .list [] => "[]"
  | .list (first :: more) => "[\n" ++ writeParts (margin ++ step) (first :: more) ++ margin ++ "]"

def writeParts (margin : String) : List Outline → String
  | [] => ""
  | part :: more => margin ++ write margin part ++ ",\n" ++ writeParts margin more

end

def ofText (text : String) : Outline := .atom (String.ofList (Spelling.ofText text.toList))

def ofOption : Option Outline → Outline
  | none => .atom "None"
  | some content => .tuple "Some" [content]

def ofOperator (operator : Operator) : Outline :=
  .atom <|
    match operator with
    | .and => "And"
    | .or => "Or"
    | .equal => "Equal"
    | .notEqual => "NotEqual"
    | .less => "Less"
    | .plus => "Plus"
    | .minus => "Minus"
    | .divide => "Divide"
    | .times => "Times"
    | .modulo => "Modulo"

def ofBool (value : Bool) : Outline := .atom (if value then "true" else "false")

def ofExpr : Expr → Outline
  | .text value => .tuple "String" [ofText value]
  | .integer value => .tuple "Integer" [.atom (String.ofList (Numeral.ofInteger value))]
  | .boolean value => .tuple "Boolean" [ofBool value]
  | .var name => .tuple "Variable" [ofText name]
  | .cell index => .tuple "HeapAccess" [ofExpr index]
  | .binary left operator right =>
      .record "Binary"
        [.field "left" (ofExpr left), .field "operator" (ofOperator operator), .field "right" (ofExpr right)]

def ofTarget : Target → Outline
  | .var name => .tuple "Variable" [ofText name]
  | .cell index => .tuple "HeapAccess" [ofExpr index]

def ofHead (body : Outline) : Head → Outline
  | .log value => .tuple "Print" [ofExpr value]
  | .read target => .tuple "Read" [ofTarget target]
  | .assign target value => .record "Assign" [.field "target" (ofTarget target), .field "value" (ofExpr value)]
  | .declare name value => .record "Declare" [.field "name" (ofText name), .field "initializer" (ofExpr value)]
  | .branch condition => .record "If" [.field "condition" (ofExpr condition), .field "body" body]
  | .loop condition => .record "While" [.field "condition" (ofExpr condition), .field "body" body]
  | .define name params =>
      .record "Program"
        [.field "name" (ofText name), .field "params" (.list (params.map ofText)), .field "body" body]
  | .call name arguments capture =>
      .record "Call"
        [.field "name" (ofText name), .field "arguments" (.list (arguments.map ofExpr)),
          .field "capture" (ofOption (capture.map ofText))]
  | .give value => .tuple "Return" [ofOption (value.map ofExpr)]

mutual

def ofCommand : Command → Outline
  | ⟨line, head, body⟩ =>
      .record "Command"
        [.field "command_type" (ofHead (.list (ofCommands body)) head),
          .field "line" (.atom (String.ofList (Numeral.ofNat line)))]

def ofCommands : List Command → List Outline
  | [] => []
  | command :: more => ofCommand command :: ofCommands more

end

def ofProgram (commands : List Command) : String := (Outline.list (ofCommands commands)).write ""

end Outline

end Offside
