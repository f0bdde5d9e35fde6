import Offside.Text.Numeral

set_option autoImplicit false

namespace Offside.Quoted

def escape (c : Char) : Option Char :=
  if c = 'a' then some '\x07'
  else if c = 'b' then some '\x08'
  else if c = 'v' then some '\x0b'
  else if c = 'f' then some '\x0c'
  else if c = 'n' then some '\n'
  else if c = 'r' then some '\r'
  else if c = 't' then some '\t'
  else if c = 'e' ∨ c = 'E' then some '\x1b'
  else if c = '\\' ∨ c = '\'' ∨ c = '"' ∨ c = '$' ∨ c = '\u0060' ∨ c = ' ' then some c
  else none

-- What follows the opening double quote, up to a closing one that ends the text. A scalar value in braces reaches to
-- the next closing brace, or to the end of the text where there is none.
def inside : List Char → Option (List Char)
  | [] => none
  | '"' :: rest => if rest = [] then some [] else none
  | '\\' :: 'u' :: '\x7b' :: rest =>
      match Numeral.scalar (rest.takeWhile (· ≠ '\x7d')) with
      | some c => (inside ((rest.dropWhile (· ≠ '\x7d')).drop 1)).map (c :: ·)
      | none => none
  | '\\' :: c :: rest =>
      match escape c with
      | some meant => (inside rest).map (meant :: ·)
      | none => none
  | ['\\'] => none
  | c :: rest => (inside rest).map (c :: ·)
termination_by text => text.length
decreasing_by all_goals grind [List.dropWhile_sublist, List.Sublist.length_le]

def decode : List Char → Option (List Char)
  | '"' :: rest => inside rest
  | _ => none

end Offside.Quoted
