import Offside.Proofs.Listing

set_option autoImplicit false

namespace Offside.Block

theorem within_level (depth : Nat) (first : Line) (rest : List Line) (level : first.indent = depth) :
    within depth (first :: rest) = first :: within depth rest := by
  simp [within, level]

theorem join_nothing (size : Nat) (front : Except Error (List Command × Nat)) : join size front (.ok ([], 0)) = front := by
  cases front with
  | error failure => rfl
  | ok read =>
      obtain ⟨commands, taken⟩ := read
      simp [join, Except.bind, Except.map]

theorem commands_within (depth : Nat) (lines : List Line) :
    commands depth lines = commands depth (within depth lines) := by
  have whole : lines = within depth lines ++ lines.drop (within depth lines).length :=
    (List.prefix_iff_eq_append.mp (List.takeWhile_prefix _)).symm
  have ended := within_ended depth lines
  have shallow : ∀ first ∈ (lines.drop (within depth lines).length).head?, first.indent ≤ depth := by
    intro first next
    exact Nat.le_of_lt (ended first next)
  calc
    commands depth lines = commands depth (within depth lines ++ lines.drop (within depth lines).length) := by rw [← whole]
    _ = join (within depth lines).length (commands depth (within depth lines)) (.ok ([], 0)) := by
      rw [commands_append depth _ _ shallow, commands_outside depth _ ended]
    _ = commands depth (within depth lines) := join_nothing _ _

theorem commands_size (depth : Nat) (lines : List Line) (read : List Command) (taken : Nat)
    (result : commands depth lines = .ok (read, taken)) : taken = Command.sizes read := by
  have laid := commands_lays depth lines read taken result
  have fits := commands_taken_le depth lines read taken result
  rw [lays_size depth _ read laid, List.length_take, Nat.min_eq_left fits]

/-- A block is decided by its own lines, which end before the first one that is less deep, and it uses up exactly these.
-/
theorem of_lines_within (depth : Nat) (first : Line) (rest : List Line) (level : first.indent = depth) :
    ofLines depth (first :: rest) = ofLines depth (within depth (first :: rest)) ∧
      ∀ read taken, ofLines depth (first :: rest) = .ok (read, taken) →
        taken = (within depth (first :: rest)).length ∧ 1 ≤ taken ∧ taken ≤ (first :: rest).length ∧
          taken = Command.sizes read := by
  have block : ofLines depth (first :: rest) = commands depth (first :: rest) := by rw [ofLines, if_pos level]
  constructor
  · rw [block, commands_within, within_level depth first rest level, ofLines, if_pos level]
  · intro read taken result
    rw [block] at result
    have size := commands_taken depth (first :: rest) read taken result
    refine ⟨size, ?_, commands_taken_le depth _ read taken result, commands_size depth _ read taken result⟩
    rw [size, within_level depth first rest level, List.length_cons]
    exact Nat.le_add_left 1 _

theorem of_lines_within_nested :
    let first : Line := ⟨3, [.indent 2, .keyword .loop, .boolean true]⟩
    let inner : List Line := [⟨4, [.indent 5, .keyword .give]⟩, ⟨6, [.indent 2, .keyword .log, .integer 1]⟩]
    let later : List Line := [⟨7, [.keyword .log]⟩, ⟨8, [.indent 2, .operator .plus]⟩]
    let read : List Command := [⟨3, .loop (.boolean true), [⟨4, .give none, []⟩]⟩, ⟨6, .log (.integer 1), []⟩]
    first.indent = 2 ∧ within 2 (first :: (inner ++ later)) = first :: inner ∧
      ofLines 2 (first :: (inner ++ later)) = .ok (read, 3) ∧ Command.sizes read = 3 := by
  intro first inner later read
  have level : first.indent = 2 := rfl
  have inside : within 2 (first :: (inner ++ later)) = first :: inner := by decide
  obtain ⟨same, taken⟩ := of_lines_within 2 first (inner ++ later) level
  have result : ofLines 2 (first :: (inner ++ later)) = .ok (read, 3) := by
    rw [same, inside]
    with_unfolding_all rfl
  exact ⟨level, inside, result, (taken read 3 result).2.2.2.symm⟩

end Offside.Block
