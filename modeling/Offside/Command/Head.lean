import Offside.Command
import Offside.Expr.Infix

set_option autoImplicit false

namespace Offside.Head

def readOf : List Symbol → Except ShapeError Head
  | [] => .error .expectedTarget
  | [symbol] => (Target.ofSymbol symbol).map .read
  | symbol :: _ :: _ => do
      let _ ← Target.ofSymbol symbol
      .error (.unexpectedSymbols .read)

def assignOf : List Symbol → Except ShapeError Head
  | [] => .error .expectedTarget
  | symbol :: rest => do
      let target ← Target.ofSymbol symbol
      let value ← Expr.ofSymbols rest
      .ok (.assign target value)

def declareOf : List Symbol → Except ShapeError Head
  | .var name :: rest => (Expr.ofSymbols rest).map (.declare name)
  | _ => .error .expectedVariable

def param : Symbol → Except ShapeError String
  | .var name => .ok name
  | _ => .error .expectedVariable

def defineOf : List Symbol → Except ShapeError Head
  | .program name :: rest => (rest.mapM param).map (.define name)
  | _ => .error .expectedProgram

def callOf (capture : Option String) : List Symbol → Except ShapeError Head
  | .program name :: rest => (rest.mapM Expr.ofSymbol).map fun arguments => .call name arguments capture
  | _ => .error .expectedProgram

def giveOf (rest : List Symbol) : Except ShapeError Head :=
  if rest = [] then .ok (.give none) else (Expr.ofSymbols rest).map fun value => .give (some value)

def ofSymbols : List Symbol → Except ShapeError Head
  | .keyword .log :: rest => (Expr.ofSymbols rest).map .log
  | .keyword .read :: rest => readOf rest
  | .keyword .assign :: rest => assignOf rest
  | .keyword .declare :: rest => declareOf rest
  | .keyword .branch :: rest => (Expr.ofSymbols rest).map .branch
  | .keyword .loop :: rest => (Expr.ofSymbols rest).map .loop
  | .keyword .define :: rest => defineOf rest
  | .keyword .call :: .var capture :: rest => callOf (some capture) rest
  | .keyword .call :: rest => callOf none rest
  | .keyword .give :: rest => giveOf rest
  | _ => .error .unknownCommand

end Offside.Head
