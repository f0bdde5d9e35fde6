import Offside.Symbol.Lexer
import Offside.Text.Row
import Offside.Text.Run

set_option autoImplicit false

namespace Offside

inductive Colour where
  | white
  | red
  | yellow
  | lightBlue
  | lightCyan
  | lightGreen
  | lightPurple
  | lightGray
  | darkGray
deriving DecidableEq, Repr

structure Piece where
  colour : Colour
  italic : Bool
  text : List Char
deriving DecidableEq, Repr

namespace Piece

def plain (colour : Colour) (text : List Char) : Piece := ⟨colour, false, text⟩

def colourOfSymbol : Symbol → Colour
  | .keyword _ => .lightBlue
  | .text _ | .integer _ | .boolean _ => .yellow
  | .var _ => .lightCyan
  | .program _ => .lightGreen
  | .cell _ => .lightPurple
  | .operator _ => .darkGray
  | .indent _ => .white

def colourOfWord (word : List Char) : Colour :=
  match Symbol.ofWord word with
  | .ok symbol => colourOfSymbol symbol
  | .error _ => .red

def ofRun : Run → Piece
  | .gap text => plain .white text
  | .word text => plain (colourOfWord text) text

def ofContent (content : List Char) : List Piece :=
  if Row.isComment content then [⟨.lightGray, true, content⟩] else (Run.ofRow content).map ofRun

def ofEnding (ending : List Char) : List Piece := if ending = [] then [] else [plain .white ending]

def ofRow (row : List Char) : List Piece :=
  match Row.partEnd row with
  | (content, ending) => ofContent content ++ ofEnding ending

def ofEntry (entry : String) : List Piece := (Row.ended entry.toList).flatMap ofRow

end Piece

end Offside
