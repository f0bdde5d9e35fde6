import Offside.Proofs.Blocks

set_option autoImplicit false

namespace Offside

def Error.renumber (number : Nat → Nat) : Error → Error
  | .word line cause => .word (number line) cause
  | .shape line cause => .shape (number line) cause
  | .fault line cause => .fault (number line) cause
  | .input cause => .input cause
  | .file cause => .file cause

def Line.renumber (number : Nat → Nat) (line : Line) : Line := { line with number := number line.number }

mutual

def Command.renumber (number : Nat → Nat) : Command → Command
  | ⟨line, head, body⟩ => ⟨number line, head, renumberAll number body⟩

def Command.renumberAll (number : Nat → Nat) : List Command → List Command
  | [] => []
  | command :: more => command.renumber number :: renumberAll number more

end

namespace Command

theorem renumber_all_append (number : Nat → Nat) (front back : List Command) :
    renumberAll number (front ++ back) = renumberAll number front ++ renumberAll number back := by
  induction front with
  | nil => rfl
  | cons command more ih => rw [List.cons_append, renumberAll, renumberAll, ih, List.cons_append]

mutual

theorem renumber_renumber (outer inner : Nat → Nat) (command : Command) :
    (command.renumber inner).renumber outer = command.renumber fun line => outer (inner line) := by
  cases command with
  | mk line head body => rw [renumber, renumber, renumber, renumber_all_renumber_all outer inner body]

theorem renumber_all_renumber_all (outer inner : Nat → Nat) (commands : List Command) :
    renumberAll outer (renumberAll inner commands) = renumberAll (fun line => outer (inner line)) commands := by
  cases commands with
  | nil => rfl
  | cons command more =>
      rw [renumberAll, renumberAll, renumberAll, renumber_renumber outer inner command,
        renumber_all_renumber_all outer inner more]

end

mutual

theorem renumber_same (command : Command) : command.renumber (fun line => line) = command := by
  cases command with
  | mk line head body => rw [renumber, renumber_all_same body]

theorem renumber_all_same (commands : List Command) : renumberAll (fun line => line) commands = commands := by
  cases commands with
  | nil => rfl
  | cons command more => rw [renumberAll, renumber_same command, renumber_all_same more]

end

end Command

namespace Line

theorem indent_renumber (number : Nat → Nat) (line : Line) : (line.renumber number).indent = line.indent := rfl

end Line

namespace Block

theorem depth_below_renumber (number : Nat → Nat) (line : Line) (lines : List Line) :
    depthBelow (line.renumber number) (lines.map (Line.renumber number)) = depthBelow line lines := by
  cases lines <;> rfl

def renumber (number : Nat → Nat) (read : Except Error (List Command × Nat)) : Except Error (List Command × Nat) :=
  (read.map fun (commands, taken) => (Command.renumberAll number commands, taken)).mapError (Error.renumber number)

theorem renumber_prepend (number : Nat → Nat) (command : Command) (taken : Nat)
    (read : Except Error (List Command × Nat)) :
    renumber number (prepend command taken read) = prepend (command.renumber number) taken (renumber number read) := by
  cases read <;> rfl

theorem commands_renumber (number : Nat → Nat) (depth : Nat) (lines : List Line) :
    commands depth (lines.map (Line.renumber number)) = renumber number (commands depth lines) := by
  induction depth, lines using reading with
  | nil depth =>
      rw [List.map_nil, commands_nil]
      rfl
  | above depth line rest less =>
      rw [List.map_cons, commands_above depth (line.renumber number) _ less, commands_above depth line rest less]
      rfl
  | deeper depth line rest more =>
      rw [List.map_cons, commands_deeper depth (line.renumber number) _ more, commands_deeper depth line rest more]
      rfl
  | unformed depth line rest cause level failed =>
      rw [List.map_cons, commands_unformed depth (line.renumber number) _ cause level failed,
        commands_unformed depth line rest cause level failed]
      rfl
  | missing depth line rest head level formed opens absent =>
      have still := (depth_below_renumber number line rest).trans absent
      rw [List.map_cons, commands_missing depth (line.renumber number) _ head level formed opens still,
        commands_missing depth line rest head level formed opens absent]
      rfl
  | block depth line rest head below level formed opens found inner outer =>
      have still := (depth_below_renumber number line rest).trans found
      rw [List.map_cons, commands_block depth (line.renumber number) _ head below level formed opens still, inner,
        commands_block depth line rest head below level formed opens found]
      cases commands below rest with
      | error failure => rfl
      | ok block =>
          obtain ⟨body, taken⟩ := block
          have more := outer taken
          rw [List.map_drop] at more
          simp only [renumber, Except.map, Except.mapError, Except.bind]
          rw [more]
          exact (renumber_prepend number ⟨line.number, head, body⟩ taken (commands depth (rest.drop taken))).symm
  | plain depth line rest head level formed closed ih =>
      rw [List.map_cons, commands_plain depth (line.renumber number) _ head level formed closed, ih,
        commands_plain depth line rest head level formed closed, renumber_prepend]
      rfl

end Block

namespace Command

theorem of_lines_map_renumber (number : Nat → Nat) (lines : List Line) :
    ofLines (lines.map (Line.renumber number)) =
      ((ofLines lines).map (renumberAll number)).mapError (Error.renumber number) := by
  cases lines with
  | nil => rfl
  | cons first rest =>
      have same := Block.commands_renumber number 0 (first :: rest)
      rw [List.map_cons] at same
      rw [ofLines, ofLines, List.map_cons, Block.ofLines, Block.ofLines, same, Line.indent_renumber]
      by_cases level : first.indent = 0
      · simp only [level, if_true]
        cases Block.commands 0 (first :: rest) <;> rfl
      · simp only [level, if_false]
        rfl

theorem of_lines_renumber (number : Nat → Nat) (lines : List Line) (commands : List Command)
    (read : ofLines lines = .ok commands) :
    ofLines (lines.map (Line.renumber number)) = .ok (renumberAll number commands) := by
  rw [of_lines_map_renumber, read]
  rfl

end Command

end Offside
