import Offside.Text.Numeral

set_option autoImplicit false

namespace Offside.Prompt

def label (entry : Nat) : String := "mork [" ++ String.ofList (Numeral.ofNat entry) ++ "]"

def left (entry : Nat) : String := label entry

def right : String := ""

def indicator : String := "❯ "

def multiline (entry : Nat) : String := String.ofList (List.replicate (label entry).length ' ') ++ "| "

def search (failing : Bool) (term : String) : String :=
  "(" ++ (if failing then "failing " else "") ++ "reverse-search: " ++ term ++ ") "

end Offside.Prompt
