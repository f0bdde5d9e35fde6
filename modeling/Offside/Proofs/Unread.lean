import Offside.Proofs.Shapes
import Offside.Proofs.Survival

set_option autoImplicit false

namespace Offside

namespace Line

theorem of_rows_unread (number : Nat) (rows : List (List Char)) (error : Error) (failed : ofRows number rows = .error error) :
    (Exit.failed error).isUnread = true := by
  obtain ⟨place, row, _, here, _⟩ := of_rows_failed number rows error failed
  obtain ⟨cause, rfl, _⟩ := of_row_failed (number + place) row error here
  rfl

end Line

theorem Command.of_source_unread (source : String) (error : Error) (failed : ofSource source = .error error) :
    (Exit.failed error).isUnread = true := by
  rcases of_source_failed source error failed with unread | ⟨lines, _, failed⟩
  · exact Line.of_rows_unread 1 _ error unread
  · rcases of_lines_failed lines error failed with ⟨first, _, rfl⟩ | ⟨line, _, cause, rfl, _⟩
    · rfl
    · rfl

end Offside
