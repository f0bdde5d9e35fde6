import Mathlib.Data.List.Basic
import Offside.Command

set_option autoImplicit false

namespace Offside

namespace Command

mutual

def size : Command → Nat
  | ⟨_, _, body⟩ => sizes body + 1

def sizes : List Command → Nat
  | [] => 0
  | command :: more => command.size + sizes more

end

end Command

-- Where a command stands. Commands are counted in the order in which they are written, one row each; a scope goes by
-- the row of the definition that it is the body of, the outermost one by zero.
structure Site where
  scope : Nat
  row : Nat
  command : Command

def Head.inner (scope row : Nat) : Head → Nat
  | .define _ _ => row
  | _ => scope

namespace Command

mutual

def sites (scope row : Nat) : Command → List Site
  | ⟨line, head, body⟩ => ⟨scope, row, ⟨line, head, body⟩⟩ :: sitesAll (head.inner scope row) (row + 1) body

def sitesAll (scope row : Nat) : List Command → List Site
  | [] => []
  | command :: more => sites scope row command ++ sitesAll scope (row + command.size) more

end

mutual

theorem sites_rows (scope row : Nat) (command : Command) :
    (command.sites scope row).map Site.row = List.range' row command.size := by
  cases command with
  | mk line head body =>
      rw [sites, size, List.map_cons, sites_all_rows (head.inner scope row) (row + 1) body, List.range'_succ]

theorem sites_all_rows (scope row : Nat) (commands : List Command) :
    (sitesAll scope row commands).map Site.row = List.range' row (sizes commands) := by
  cases commands with
  | nil => rfl
  | cons command more =>
      rw [sitesAll, sizes, List.map_append, sites_rows scope row command,
        sites_all_rows scope (row + command.size) more, List.range'_append_1]

end

theorem sites_self (scope row : Nat) (command : Command) : ⟨scope, row, command⟩ ∈ command.sites scope row := by
  cases command with
  | mk line head body =>
      rw [sites]
      exact List.mem_cons_self

theorem sites_all_member (scope row : Nat) (commands : List Command) (command : Command) (member : command ∈ commands) :
    ∃ found, ⟨scope, found, command⟩ ∈ sitesAll scope row commands := by
  induction commands generalizing row with
  | nil => cases member
  | cons first more ih =>
      rw [sitesAll]
      rcases List.mem_cons.mp member with rfl | later
      · exact ⟨row, List.mem_append_left _ (sites_self scope row command)⟩
      · obtain ⟨found, present⟩ := ih (row + first.size) later
        exact ⟨found, List.mem_append_right _ present⟩

mutual

theorem sites_body (scope row : Nat) (command : Command) (site : Site) (present : site ∈ command.sites scope row)
    (inner : Command) (member : inner ∈ site.command.body) :
    ∃ found, ⟨site.command.head.inner site.scope site.row, found, inner⟩ ∈ command.sites scope row := by
  cases command with
  | mk line head body =>
      rw [sites] at present ⊢
      rcases List.mem_cons.mp present with rfl | below
      · obtain ⟨found, listed⟩ := sites_all_member (head.inner scope row) (row + 1) body inner member
        exact ⟨found, List.mem_cons_of_mem _ listed⟩
      · obtain ⟨found, listed⟩ := sites_all_body (head.inner scope row) (row + 1) body site below inner member
        exact ⟨found, List.mem_cons_of_mem _ listed⟩

theorem sites_all_body (scope row : Nat) (commands : List Command) (site : Site)
    (present : site ∈ sitesAll scope row commands) (inner : Command) (member : inner ∈ site.command.body) :
    ∃ found, ⟨site.command.head.inner site.scope site.row, found, inner⟩ ∈ sitesAll scope row commands := by
  cases commands with
  | nil => cases present
  | cons command more =>
      rw [sitesAll] at present ⊢
      rcases List.mem_append.mp present with first | later
      · obtain ⟨found, listed⟩ := sites_body scope row command site first inner member
        exact ⟨found, List.mem_append_left _ listed⟩
      · obtain ⟨found, listed⟩ := sites_all_body scope (row + command.size) more site later inner member
        exact ⟨found, List.mem_append_right _ listed⟩

end

end Command

end Offside
