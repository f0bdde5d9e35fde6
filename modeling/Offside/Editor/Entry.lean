import Offside.Keyword
import Offside.Text.Blank
import Offside.Text.Row

set_option autoImplicit false

namespace Offside.Entry

def firstWord (row : List Char) : List Char := (row.dropWhile Row.isSpace).takeWhile fun c => !Row.isSpace c

def opensBlock (row : List Char) : Bool := (Keyword.ofLexeme (firstWord row)).any Keyword.opensBlock

def endsBlank (rows : List (List Char)) : Bool := rows.getLast?.all Blank.allBlank

-- An entry with a row that opens a block is complete once its last row is blank.
def isComplete (entry : String) : Bool :=
  let rows := Row.cut entry.toList
  !rows.any opensBlock || endsBlank rows

end Offside.Entry
