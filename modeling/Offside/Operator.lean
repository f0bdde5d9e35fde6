set_option autoImplicit false

namespace Offside

inductive Operator where
  | and
  | or
  | equal
  | notEqual
  | less
  | plus
  | minus
  | divide
  | times
  | modulo
deriving DecidableEq, Repr

namespace Operator

def all : List Operator :=
  [.and, .or, .equal, .notEqual, .less, .plus, .minus, .divide, .times, .modulo]

-- The higher the rank, the tighter the operator binds.
def rank : Operator → Nat
  | .and => 0
  | .or => 1
  | .equal => 2
  | .notEqual => 3
  | .less => 4
  | .plus => 5
  | .minus => 6
  | .divide => 7
  | .times => 8
  | .modulo => 9

def lexeme : Operator → String
  | .and => "&"
  | .or => "|"
  | .equal => "=="
  | .notEqual => "!="
  | .less => "<"
  | .plus => "+"
  | .minus => "-"
  | .divide => "/"
  | .times => "*"
  | .modulo => "%"

def ofLexeme (word : List Char) : Option Operator := all.find? fun operator => operator.lexeme.toList = word

theorem of_lexeme_lexeme (operator : Operator) : ofLexeme operator.lexeme.toList = some operator := by
  cases operator <;> decide

theorem lexeme_of_found (word : List Char) (operator : Operator) (found : ofLexeme word = some operator) :
    operator.lexeme.toList = word := by
  simpa using List.find?_some found

end Operator

end Offside
