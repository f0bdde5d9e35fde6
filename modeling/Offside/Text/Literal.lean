import Offside.Text.Quoted

set_option autoImplicit false

namespace Offside.Literal

-- Rewrites what stands between apostrophes as the inside of a double-quoted text: an escaped apostrophe needs no
-- backslash there, a bare double quote does. Nothing can follow a backslash that ends the text.
def requote : List Char → Option (List Char)
  | [] => some []
  | '\\' :: '\'' :: rest => (requote rest).map ('\'' :: ·)
  | '\\' :: c :: rest => (requote rest).map ('\\' :: c :: ·)
  | ['\\'] => none
  | '"' :: rest => (requote rest).map ('\\' :: '"' :: ·)
  | c :: rest => (requote rest).map (c :: ·)

def body : List Char → Option (List Char)
  | '\'' :: rest => if rest.getLast? = some '\'' then some rest.dropLast else none
  | _ => none

-- The text that a literal denotes. A literal whose closing apostrophe follows a backslash is not closed.
def decode (word : List Char) : Option (List Char) :=
  match body word with
  | some inner =>
      if inner.getLast? = some '\\' then none
      else (requote inner).bind fun requoted => Quoted.decode ('"' :: requoted ++ ['"'])
  | none => none

end Offside.Literal
