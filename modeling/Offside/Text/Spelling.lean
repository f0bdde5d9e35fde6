import Offside.Text.Glyph
import Offside.Text.Numeral

set_option autoImplicit false

namespace Offside.Spelling

def ofChar (c : Char) : List Char :=
  if c = '\n' then ['\\', 'n']
  else if c = '\r' then ['\\', 'r']
  else if c = '\t' then ['\\', 't']
  else if c = '\x00' then ['\\', '0']
  else if c = '"' ∨ c = '\\' then ['\\', c]
  else if Glyph.visible c then [c]
  else ['\\', 'u', '\x7b'] ++ Numeral.digits 16 c.toNat ++ ['\x7d']

def ofText (text : List Char) : List Char := ['"'] ++ text.flatMap ofChar ++ ['"']

end Offside.Spelling
