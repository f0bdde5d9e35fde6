set_option autoImplicit false

namespace Offside

inductive Keyword where
  | log
  | read
  | assign
  | declare
  | branch
  | loop
  | define
  | call
  | give
deriving DecidableEq, Repr

namespace Keyword

def all : List Keyword := [.log, .read, .assign, .declare, .branch, .loop, .define, .call, .give]

def lexeme : Keyword → String
  | .log => "log"
  | .read => "read"
  | .assign => "="
  | .declare => "new"
  | .branch => "if"
  | .loop => "while"
  | .define => "program"
  | .call => "call"
  | .give => "return"

def ofLexeme (word : List Char) : Option Keyword := all.find? fun keyword => keyword.lexeme.toList = word

def opensBlock : Keyword → Bool
  | .branch | .loop | .define => true
  | _ => false

theorem of_lexeme_lexeme (keyword : Keyword) : ofLexeme keyword.lexeme.toList = some keyword := by
  cases keyword <;> decide

theorem lexeme_of_found (word : List Char) (keyword : Keyword) (found : ofLexeme word = some keyword) :
    keyword.lexeme.toList = word := by
  simpa using List.find?_some found

end Keyword

end Offside
