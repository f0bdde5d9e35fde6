set_option autoImplicit false

namespace Offside.Row

def cut : List Char → List (List Char)
  | [] => [[]]
  | c :: rest =>
      if c = '\n' then [] :: cut rest
      else
        match cut rest with
        | [] => [[c]]
        | row :: more => (c :: row) :: more

-- The rows with their line feeds kept; after a last line feed no further row begins.
def ended : List Char → List (List Char)
  | [] => []
  | c :: rest =>
      if c = '\n' then [c] :: ended rest
      else
        match ended rest with
        | [] => [[c]]
        | row :: more => (c :: row) :: more

def dropReturn (row : List Char) : List Char :=
  if row.getLast? = some '\r' then row.dropLast else row

def isLineEnd (c : Char) : Bool := c = '\n' || c = '\r'

def partEnd (row : List Char) : List Char × List Char :=
  let reversed := row.reverse
  ((reversed.dropWhile isLineEnd).reverse, (reversed.takeWhile isLineEnd).reverse)

def isComment (row : List Char) : Bool := row.head? = some '#'

def isSpace (c : Char) : Bool := c = ' '

def indent (row : List Char) : Nat := (row.takeWhile isSpace).length

def isVoid (row : List Char) : Bool := isComment row || row.all isSpace

theorem cut_ne_nil (text : List Char) : cut text ≠ [] := by
  cases text with
  | nil => exact List.cons_ne_nil _ _
  | cons c rest =>
      rw [cut]
      split
      · exact List.cons_ne_nil _ _
      · split <;> exact List.cons_ne_nil _ _

theorem ended_join (text : List Char) : (ended text).flatten = text := by
  induction text with
  | nil => rfl
  | cons c rest ih =>
      rw [ended]
      split
      · rw [List.flatten_cons, ih, List.singleton_append]
      · generalize ended rest = rows at ih
        subst ih
        cases rows <;> rfl

theorem part_end_join (row : List Char) : (partEnd row).1 ++ (partEnd row).2 = row := by
  rw [partEnd, ← List.reverse_append, List.takeWhile_append_dropWhile, List.reverse_reverse]

end Offside.Row
