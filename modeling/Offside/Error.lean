import Offside.Symbol.Lexer
import Offside.Value

set_option autoImplicit false

namespace Offside

inductive ShapeError where
  | indentation (expected found : Nat)
  | unexpectedIndent
  | missingBlock (keyword : Keyword)
  | unknownCommand
  | emptyExpression
  | missingOperator
  | expectedValue
  | expectedTarget
  | expectedVariable
  | expectedProgram
  | unexpectedSymbols (keyword : Keyword)
deriving DecidableEq, Repr

inductive Fault where
  | notDeclared (name : String)
  | alreadyDeclared (name : String)
  | conditionNotBoolean
  | unsupported (left : Kind) (operator : Operator) (right : Kind)
  | indexNotInteger
  | indexOutOfRange (index : Int64)
  | undefinedProgram (name : String)
  | argumentCount (name : String) (expected found : Nat)
  | divisionByZero
  | characterOutOfRange (index : Int64) (length : Nat)
deriving DecidableEq, Repr

-- Why no character can be read: the script has ended, the bytes end before a character does, or the bytes of a
-- character encode none.
inductive InputError where
  | scriptEnded
  | bytesEnded
  | notUtf8
deriving DecidableEq, Repr

inductive InputFailure where
  | unexpectedEof
  | invalidData
deriving DecidableEq, Repr

inductive FileError where
  | missing
  | notDirectory
  | nameTooLong
  | isDirectory
  | notUtf8
deriving DecidableEq, Repr

inductive Error where
  | word (line : Nat) (cause : WordError)
  | shape (line : Nat) (cause : ShapeError)
  | fault (line : Nat) (cause : Fault)
  | input (cause : InputError)
  | file (cause : FileError)
deriving DecidableEq, Repr

namespace WordError

def message : WordError → String
  | .unrecognised word =>
      "unrecognised symbol `" ++ word ++ "`, did you mean the variable `:" ++ word ++ "` or the string `'" ++
        word ++ "'`?"
  | .malformedBoolean word => "boolean literal should be `?true` or `?false`, found `" ++ word ++ "`"
  | .malformedText word => "malformed string literal `" ++ word ++ "`"

end WordError

def written (number : Nat) : String := String.ofList (Numeral.ofNat number)

namespace ShapeError

def message : ShapeError → String
  | .indentation expected found =>
      "block is not indented properly, expected " ++ written expected ++ " spaces but found " ++ written found
  | .unexpectedIndent => "the indentation unexpectedly increased"
  | .missingBlock keyword => "expected an indented block after `" ++ keyword.lexeme ++ "`"
  | .unknownCommand => "a line must start with a command keyword"
  | .emptyExpression => "expected an expression"
  | .missingOperator => "expected an operator between values"
  | .expectedValue => "expected a literal, variable or heap access"
  | .expectedTarget => "expected a variable or heap access to write to"
  | .expectedVariable => "expected a variable name"
  | .expectedProgram => "expected a program name"
  | .unexpectedSymbols keyword => "unexpected symbols after `" ++ keyword.lexeme ++ "`"

end ShapeError

namespace Fault

def message : Fault → String
  | .notDeclared name => "variable `:" ++ name ++ "` is not declared, did you declare it first?"
  | .alreadyDeclared name => "variable `:" ++ name ++ "` is already declared"
  | .conditionNotBoolean => "condition did not evaluate to a boolean"
  | .unsupported left operator right =>
      "cannot use `" ++ operator.lexeme ++ "` on " ++ left.name ++ " and " ++ right.name
  | .indexNotInteger => "tried to access the heap with a value that is not an integer"
  | .indexOutOfRange index => "heap index " ++ String.ofList (Numeral.ofInteger index) ++ " is out of range"
  | .undefinedProgram name => "tried to call `$" ++ name ++ "` but it has not been created"
  | .argumentCount name expected found =>
      "`$" ++ name ++ "` expects " ++ written expected ++ " parameters but was called with " ++ written found
  | .divisionByZero => "division by zero"
  | .characterOutOfRange index length =>
      "character index " ++ String.ofList (Numeral.ofInteger index) ++
        " is out of range for a text of length " ++ written length

end Fault

namespace InputError

def kind : InputError → InputFailure
  | .scriptEnded | .bytesEnded => .unexpectedEof
  | .notUtf8 => .invalidData

def message : InputError → String
  | .scriptEnded => "unexpected end of file"
  | .bytesEnded => "failed to fill whole buffer"
  | .notUtf8 => "input is not valid UTF-8"

end InputError

namespace FileError

def message : FileError → String
  | .missing => "No such file or directory (os error 2)"
  | .notDirectory => "Not a directory (os error 20)"
  | .nameTooLong => "File name too long (os error 36)"
  | .isDirectory => "Is a directory (os error 21)"
  | .notUtf8 => "stream did not contain valid UTF-8"

end FileError

namespace Error

def message : Error → String
  | .word line cause => "tokenizer error on line " ++ written line ++ ": " ++ cause.message
  | .shape line cause => "parser error on line " ++ written line ++ ": " ++ cause.message
  | .fault line cause => "runtime error on line " ++ written line ++ ": " ++ cause.message
  | .input cause => "io error: " ++ cause.message
  | .file cause => "io error: " ++ cause.message

end Error

end Offside
