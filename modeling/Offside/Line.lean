import Offside.Error
import Offside.Text.Row
import Offside.Text.Run

set_option autoImplicit false

namespace Offside

-- A row that holds symbols, under its number in the source. Rows are numbered from one.
structure Line where
  number : Nat
  symbols : List Symbol
deriving DecidableEq, Repr

namespace Line

def indent (line : Line) : Nat :=
  match line.symbols with
  | .indent depth :: _ => depth
  | _ => 0

def content (line : Line) : List Symbol := line.symbols.drop 1

def symbolsOfWords (words : List (List Char)) : Except WordError (List Symbol) := words.mapM Symbol.ofWord

def ofRow (number : Nat) (row : List Char) : Except Error (Option Line) :=
  if Row.isVoid (Row.dropReturn row) then .ok none
  else
    match symbolsOfWords (Run.words (Row.dropReturn row)) with
    | .ok symbols => .ok (some ⟨number, .indent (Row.indent (Row.dropReturn row)) :: symbols⟩)
    | .error cause => .error (.word number cause)

def ofRows (number : Nat) : List (List Char) → Except Error (List Line)
  | [] => .ok []
  | row :: more => do
      let line ← ofRow number row
      let lines ← ofRows (number + 1) more
      .ok (line.toList ++ lines)

def ofSource (source : String) : Except Error (List Line) := ofRows 1 (Row.cut source.toList)

end Line

end Offside
