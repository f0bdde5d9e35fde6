import Offside.Proofs.Blocks
import Offside.Proofs.Rows
import Offside.Proofs.Sites
import Offside.Proofs.Writing.Head
import Offside.Proofs.Writing.Row

set_option autoImplicit false

namespace Offside

namespace Command

mutual

def isWritable : Command → Bool
  | ⟨_, head, body⟩ => head.isWritable && (body.isEmpty != head.keyword.opensBlock) && areWritable body

def areWritable : List Command → Bool
  | [] => true
  | command :: more => command.isWritable && areWritable more

end

mutual

def numbered (row : Nat) : Command → Command
  | ⟨_, head, body⟩ => ⟨row, head, numberedAll (row + 1) body⟩

def numberedAll (row : Nat) : List Command → List Command
  | [] => []
  | command :: more => numbered row command :: numberedAll (row + command.size) more

end

mutual

def rows (depth : Nat) : Command → List (List Char)
  | ⟨_, head, body⟩ => Row.write depth (head.symbols.map Symbol.write) :: rowsAll (depth + 1) body

def rowsAll (depth : Nat) : List Command → List (List Char)
  | [] => []
  | command :: more => rows depth command ++ rowsAll depth more

end

def write (commands : List Command) : String := String.ofList (['\n'].intercalate (rowsAll 0 commands))

mutual

def lines (depth : Nat) : Command → List Line
  | ⟨line, head, body⟩ => ⟨line, .indent depth :: head.symbols⟩ :: linesAll (depth + 1) body

def linesAll (depth : Nat) : List Command → List Line
  | [] => []
  | command :: more => lines depth command ++ linesAll depth more

end

mutual

theorem rows_length (depth : Nat) : (command : Command) → (rows depth command).length = command.size
  | ⟨_, _, body⟩ => by rw [rows, size, List.length_cons, rows_all_length (depth + 1) body]

theorem rows_all_length (depth : Nat) : (commands : List Command) → (rowsAll depth commands).length = sizes commands
  | [] => rfl
  | command :: more => by rw [rowsAll, sizes, List.length_append, rows_length depth command, rows_all_length depth more]

end

theorem head_row (head : Head) (writable : head.isWritable = true) (number depth : Nat) :
    '\n' ∉ Row.write depth (head.symbols.map Symbol.write) ∧
      Line.ofRow number (Row.write depth (head.symbols.map Symbol.write)) =
        .ok (some ⟨number, .indent depth :: head.symbols⟩) := by
  have operands := head.operands_writable writable
  refine ⟨Row.write_one_row depth _ (Line.written_tidy _ ?_), Line.of_row_write number depth head.keyword _ operands⟩
  exact List.forall_mem_cons.mpr ⟨rfl, operands⟩

mutual

theorem rows_one_row (depth : Nat) : (command : Command) → (writable : command.isWritable = true) →
    ∀ row ∈ rows depth command, '\n' ∉ row
  | ⟨_, head, body⟩, writable => by
      simp only [isWritable, Bool.and_eq_true] at writable
      obtain ⟨⟨headWritable, _⟩, bodyWritable⟩ := writable
      exact List.forall_mem_cons.mpr ⟨(head_row head headWritable 0 depth).1, rows_all_one_row (depth + 1) body bodyWritable⟩

theorem rows_all_one_row (depth : Nat) : (commands : List Command) → (writable : areWritable commands = true) →
    ∀ row ∈ rowsAll depth commands, '\n' ∉ row
  | [], _ => List.forall_mem_nil _
  | command :: more, writable => by
      obtain ⟨first, others⟩ := Bool.and_eq_true_iff.mp writable
      exact List.forall_mem_append.mpr ⟨rows_one_row depth command first, rows_all_one_row depth more others⟩

end

mutual

theorem of_rows_rows (depth row : Nat) : (command : Command) → (writable : command.isWritable = true) →
    Line.ofRows row (rows depth command) = .ok (lines depth (numbered row command))
  | ⟨_, head, body⟩, writable => by
      simp only [isWritable, Bool.and_eq_true] at writable
      obtain ⟨⟨headWritable, _⟩, bodyWritable⟩ := writable
      rw [rows, Line.of_rows_cons, (head_row head headWritable row depth).2,
        of_rows_rows_all (depth + 1) (row + 1) body bodyWritable]
      rfl

theorem of_rows_rows_all (depth row : Nat) : (commands : List Command) → (writable : areWritable commands = true) →
    Line.ofRows row (rowsAll depth commands) = .ok (linesAll depth (numberedAll row commands))
  | [], _ => rfl
  | command :: more, writable => by
      obtain ⟨first, others⟩ := Bool.and_eq_true_iff.mp writable
      rw [rowsAll, Line.of_rows_append, of_rows_rows depth row command first, rows_length,
        of_rows_rows_all depth (row + command.size) more others]
      rfl

end

mutual

theorem numbered_writable (row : Nat) : (command : Command) → (numbered row command).isWritable = command.isWritable
  | ⟨_, head, body⟩ => by
      have empty : (numberedAll (row + 1) body).isEmpty = body.isEmpty := by cases body <;> rfl
      rw [numbered, isWritable, isWritable, empty, numbered_all_writable (row + 1) body]

theorem numbered_all_writable (row : Nat) : (commands : List Command) →
    areWritable (numberedAll row commands) = areWritable commands
  | [] => rfl
  | command :: more => by
      rw [numberedAll, areWritable, areWritable, numbered_writable row command,
        numbered_all_writable (row + command.size) more]

end

mutual

theorem lines_length (depth : Nat) : (command : Command) → (lines depth command).length = command.size
  | ⟨_, _, body⟩ => by rw [lines, size, List.length_cons, lines_all_length (depth + 1) body]

theorem lines_all_length (depth : Nat) : (commands : List Command) → (linesAll depth commands).length = sizes commands
  | [] => rfl
  | command :: more => by
      rw [linesAll, sizes, List.length_append, lines_length depth command, lines_all_length depth more]

end

theorem lines_all_shallow (depth : Nat) (commands : List Command) (below : List Line)
    (outside : ∀ first ∈ below.head?, first.indent ≤ depth) :
    ∀ first ∈ (linesAll depth commands ++ below).head?, first.indent ≤ depth := by
  cases commands with
  | nil => exact outside
  | cons command more =>
      obtain ⟨line, head, body⟩ := command
      intro first present
      cases present
      exact Nat.le_refl depth

mutual

-- A command is read back from its lines, whatever follows, unless that is deep enough to belong to its block.
theorem commands_lines (depth : Nat) : (command : Command) → (writable : command.isWritable = true) →
    (below : List Line) → (outside : ∀ first ∈ below.head?, first.indent ≤ depth) →
    Block.commands depth (lines depth command ++ below) =
      Block.prepend command (sizes command.body) (Block.commands depth below)
  | ⟨line, head, body⟩, writable, below, outside => by
      simp only [isWritable, Bool.and_eq_true, bne_iff_ne] at writable
      obtain ⟨⟨headWritable, placed⟩, bodyWritable⟩ := writable
      have formed := head.of_symbols_symbols headWritable
      rw [lines, List.cons_append]
      cases opens : head.keyword.opensBlock with
      | false =>
          cases body with
          | nil => exact Block.commands_plain depth ⟨line, .indent depth :: head.symbols⟩ below head rfl formed opens
          | cons first more => exact absurd opens.symm placed
      | true =>
          have found : Block.depthBelow ⟨line, .indent depth :: head.symbols⟩ (linesAll (depth + 1) body ++ below) =
              some (depth + 1) := by
            cases body with
            | nil => exact absurd opens.symm placed
            | cons first more =>
                cases first with
                | mk number inner block => exact if_pos (Nat.lt_succ_self depth)
          have read := commands_lines_all (depth + 1) body bodyWritable below fun first present =>
            Nat.lt_succ_of_le (outside first present)
          rw [Block.commands_block depth ⟨line, .indent depth :: head.symbols⟩ _ head (depth + 1) rfl formed opens found,
            read]
          change Block.prepend _ _ (Block.commands depth ((linesAll (depth + 1) body ++ below).drop (sizes body))) = _
          rw [List.drop_left' (lines_all_length (depth + 1) body)]

theorem commands_lines_all (depth : Nat) : (commands : List Command) → (writable : areWritable commands = true) →
    (below : List Line) → (outside : ∀ first ∈ below.head?, first.indent < depth) →
    Block.commands depth (linesAll depth commands ++ below) = .ok (commands, sizes commands)
  | [], _, below, outside => Block.commands_outside depth below outside
  | command :: more, writable, below, outside => by
      obtain ⟨first, others⟩ := Bool.and_eq_true_iff.mp writable
      have shallow := lines_all_shallow depth more below fun line present => Nat.le_of_lt (outside line present)
      rw [linesAll, List.append_assoc, commands_lines depth command first _ shallow,
        commands_lines_all depth more others below outside]
      obtain ⟨line, head, body⟩ := command
      simp only [Block.prepend, Except.map, sizes, size]
      congr 2
      omega

end

/-- Reading undoes writing, up to the numbers of the lines. -/
theorem of_source_write (commands : List Command) (writable : areWritable commands = true) :
    ofSource (write commands) = .ok (numberedAll 1 commands) := by
  cases commands with
  | nil => with_unfolding_all rfl
  | cons command more =>
      have nonempty : rowsAll 0 (command :: more) ≠ [] := by
        obtain ⟨line, head, body⟩ := command
        exact List.cons_ne_nil _ _
      have rows : Row.cut (write (command :: more)).toList = rowsAll 0 (command :: more) := by
        rw [write, String.toList_ofList]
        exact Row.cut_intercalate _ nonempty (rows_all_one_row 0 (command :: more) writable)
      have numbered := numbered_all_writable 1 (command :: more)
      have parsed := commands_lines_all 0 (numberedAll 1 (command :: more)) (numbered.trans writable) [] (by simp)
      have level := lines_all_shallow 0 (numberedAll 1 (command :: more)) [] (by simp)
      rw [List.append_nil] at parsed level
      rw [ofSource, Line.ofSource, rows, of_rows_rows_all 0 1 (command :: more) writable]
      exact of_lines_read _ _ _ (fun first present => Nat.le_zero.mp (level first present)) parsed

theorem of_source_write_nested :
    let commands : List Command :=
      [⟨0, .define "" ["new", "x]"], [⟨0, .loop (.binary (.binary (.var "x]") .minus (.integer 1)) .minus (.integer 2)),
          [⟨0, .assign (.cell (.cell (.var "x]"))) (.text "it's \\n\n'\r"), []⟩]⟩,
        ⟨0, .give (some (.integer Int64.minValue)), []⟩]⟩,
        ⟨0, .call "" [.cell (.cell (.integer 3)), .boolean true] (some ""), []⟩]
    areWritable commands = true ∧
      write commands =
        "program $ :new :x]\n while :x] - 1 - 2\n  = [[:x]]] 'it\\'s \\u\x7b5c\x7dn\\n\\'\r'\n" ++
          " return -9223372036854775808\ncall : $ [[3]] ?true" ∧
      ofSource (write commands) = .ok (numberedAll 1 commands) := by
  intro commands
  have writable : areWritable commands = true := by with_unfolding_all rfl
  exact ⟨writable, by decide +kernel, of_source_write commands writable⟩

end Command

end Offside
