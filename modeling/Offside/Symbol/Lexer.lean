import Offside.Symbol
import Offside.Text.Literal
import Offside.Text.Numeral

set_option autoImplicit false

namespace Offside

inductive WordError where
  | unrecognised (word : String)
  | malformedBoolean (word : String)
  | malformedText (word : String)
deriving DecidableEq, Repr

namespace Symbol

def bracketed : List Char → Option (List Char)
  | '[' :: rest => if rest.getLast? = some ']' then some rest.dropLast else none
  | _ => none

theorem bracketed_shorter (word inner : List Char) (found : bracketed word = some inner) :
    inner.length < word.length := by
  unfold bracketed at found
  split at found
  · split at found
    · cases found
      simp only [List.length_dropLast, List.length_cons]
      omega
    · contradiction
  · contradiction

def ofFlag (word flag : List Char) : Except WordError Symbol :=
  if flag = "true".toList then .ok (.boolean true)
  else if flag = "false".toList then .ok (.boolean false)
  else .error (.malformedBoolean (String.ofList word))

def ofLiteral (word : List Char) : Except WordError Symbol :=
  match Literal.decode word with
  | some value => .ok (.text (String.ofList value))
  | none => .error (.malformedText (String.ofList word))

def ofNumeral (word : List Char) : Except WordError Symbol :=
  match Numeral.integer word with
  | some value => .ok (.integer value)
  | none => .error (.unrecognised (String.ofList word))

def ofMarked (word : List Char) : Except WordError Symbol :=
  match word with
  | ':' :: name => .ok (.var (String.ofList name))
  | '$' :: name => .ok (.program (String.ofList name))
  | '?' :: flag => ofFlag word flag
  | '\'' :: _ => ofLiteral word
  | _ => ofNumeral word

-- Keywords and operators are whole words; what brackets enclose is a word again.
def ofWord (word : List Char) : Except WordError Symbol :=
  match Keyword.ofLexeme word, Operator.ofLexeme word with
  | some known, _ => .ok (.keyword known)
  | none, some known => .ok (.operator known)
  | none, none =>
      match _ : bracketed word with
      | some inner => (ofWord inner).map .cell
      | none => ofMarked word
termination_by word.length
decreasing_by exact bracketed_shorter word inner ‹_›

end Symbol

end Offside
