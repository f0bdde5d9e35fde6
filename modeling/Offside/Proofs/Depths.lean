import Mathlib.Order.Monotone.Basic
import Offside.Proofs.Shapes

set_option autoImplicit false

namespace Offside

theorem deepen_zero (deepen : Nat → Nat) (increasing : StrictMono deepen) (base : deepen 0 = 0) (depth : Nat) :
    deepen depth = 0 ↔ depth = 0 := by
  constructor
  · exact fun flat => increasing.injective (flat.trans base.symm)
  · exact fun flat => (congrArg deepen flat).trans base

def ShapeError.reindent (deepen : Nat → Nat) : ShapeError → ShapeError
  | .indentation expected found => .indentation (deepen expected) (deepen found)
  | cause => cause

def Error.reindent (deepen : Nat → Nat) : Error → Error
  | .shape line cause => .shape line (cause.reindent deepen)
  | error => error

theorem ShapeError.reindent_same (cause : ShapeError) : cause.reindent (fun depth => depth) = cause := by
  cases cause <;> rfl

theorem Error.reindent_same (failure : Error) : failure.reindent (fun depth => depth) = failure := by
  cases failure with
  | shape line cause => exact congrArg (Error.shape line) cause.reindent_same
  | _ => rfl

theorem ShapeError.reindent_own (deepen : Nat → Nat) (cause : ShapeError) (own : cause.isOwn = true) :
    cause.reindent deepen = cause := by
  cases cause with
  | indentation expected found => cases own
  | _ => rfl

namespace Line

def reindent (deepen : Nat → Nat) (line : Line) : Line :=
  match line.symbols with
  | .indent depth :: rest => ⟨line.number, .indent (deepen depth) :: rest⟩
  | _ => line

theorem number_reindent (deepen : Nat → Nat) (line : Line) : (line.reindent deepen).number = line.number := by
  unfold reindent
  split <;> rfl

theorem content_reindent (deepen : Nat → Nat) (line : Line) : (line.reindent deepen).content = line.content := by
  unfold reindent
  split
  · next depth rest shape => simp [content, shape]
  · rfl

theorem indent_reindent (deepen : Nat → Nat) (base : deepen 0 = 0) (line : Line) :
    (line.reindent deepen).indent = deepen line.indent := by
  unfold reindent
  split
  · next depth rest shape => simp [indent, shape]
  · next unmarked =>
      have flat : line.indent = 0 := by
        unfold indent
        split
        · next depth rest shape => exact absurd shape (unmarked depth rest)
        · rfl
      rw [flat, base]

end Line

namespace Block

variable (deepen : Nat → Nat) (increasing : StrictMono deepen) (base : deepen 0 = 0)

include increasing base

theorem depth_below_reindent (line : Line) (lines : List Line) :
    depthBelow (line.reindent deepen) (lines.map (Line.reindent deepen)) = (depthBelow line lines).map deepen := by
  cases lines with
  | nil => rfl
  | cons next more =>
      simp only [List.map_cons, depthBelow, Line.indent_reindent deepen base, increasing.lt_iff_lt]
      split <;> rfl

-- Depths are only compared, so all of them can be spread out without changing what is read.
theorem commands_reindent (depth : Nat) (lines : List Line) :
    commands (deepen depth) (lines.map (Line.reindent deepen)) = commands depth lines := by
  have deep := Line.indent_reindent deepen base
  have content := Line.content_reindent deepen
  have number := Line.number_reindent deepen
  induction depth, lines using reading with
  | nil depth => rw [List.map_nil, commands_nil, commands_nil]
  | above depth line rest less =>
      have still : (line.reindent deepen).indent < deepen depth := by rwa [deep, increasing.lt_iff_lt]
      rw [List.map_cons, commands_above _ _ _ still, commands_above depth line rest less]
  | deeper depth line rest more =>
      have still : deepen depth < (line.reindent deepen).indent := by rwa [deep, increasing.lt_iff_lt]
      rw [List.map_cons, commands_deeper _ _ _ still, commands_deeper depth line rest more, number]
  | unformed depth line rest cause level failed =>
      have still : (line.reindent deepen).indent = deepen depth := by rw [deep, level]
      rw [List.map_cons, commands_unformed _ _ _ cause still (by rwa [content]),
        commands_unformed depth line rest cause level failed, number]
  | missing depth line rest head level formed opens absent =>
      have still : (line.reindent deepen).indent = deepen depth := by rw [deep, level]
      have none := depth_below_reindent deepen increasing base line rest
      rw [absent, Option.map_none] at none
      rw [List.map_cons, commands_missing _ _ _ head still (by rwa [content]) opens none,
        commands_missing depth line rest head level formed opens absent, number]
  | block depth line rest head below level formed opens found inner outer =>
      have still : (line.reindent deepen).indent = deepen depth := by rw [deep, level]
      have some := depth_below_reindent deepen increasing base line rest
      rw [found, Option.map_some] at some
      rw [List.map_cons, commands_block _ _ _ head _ still (by rwa [content]) opens some, inner,
        commands_block depth line rest head below level formed opens found, number]
      simp only [← List.map_drop, outer]
  | plain depth line rest head level formed closed ih =>
      have still : (line.reindent deepen).indent = deepen depth := by rw [deep, level]
      rw [List.map_cons, commands_plain _ _ _ head still (by rwa [content]) closed, ih,
        commands_plain depth line rest head level formed closed, number]

omit increasing base

theorem commands_unindented (depth : Nat) (lines : List Line) (failure : Error)
    (failed : commands depth lines = .error failure) : failure.reindent deepen = failure := by
  obtain ⟨line, _, cause, rfl, blames⟩ := commands_failed depth lines failure failed
  cases blames with
  | deeper => rfl
  | unformed cause unread =>
      exact congrArg (Error.shape line.number) (cause.reindent_own deepen (Head.own_symbols line.content cause unread))
  | missing head formed opens => rfl

end Block

namespace Command

theorem of_lines_reindent (deepen : Nat → Nat) (increasing : StrictMono deepen) (base : deepen 0 = 0) (lines : List Line) :
    ofLines (lines.map (Line.reindent deepen)) = (ofLines lines).mapError (Error.reindent deepen) := by
  cases lines with
  | nil => rfl
  | cons first rest =>
      have level : (first.reindent deepen).indent = 0 ↔ first.indent = 0 := by
        rw [Line.indent_reindent deepen base, deepen_zero deepen increasing base]
      have same := Block.commands_reindent deepen increasing base 0 (first :: rest)
      rw [base] at same
      rw [ofLines, ofLines, List.map_cons, Block.ofLines, Block.ofLines]
      by_cases flat : first.indent = 0
      · rw [if_pos (level.mpr flat), if_pos flat, ← List.map_cons, same]
        cases read : Block.commands 0 (first :: rest) with
        | ok parsed => rfl
        | error failure => exact congrArg Except.error (Block.commands_unindented deepen 0 _ failure read).symm
      · rw [if_neg (fun still => flat (level.mp still)), if_neg flat, Line.indent_reindent deepen base,
          Line.number_reindent]
        simp [Except.map, Except.mapError, Error.reindent, ShapeError.reindent, base]

end Command

end Offside
