import Offside.Editor.Highlight
import Offside.Proofs.Spacing

set_option autoImplicit false

namespace Offside

namespace Row

def fed : List (List Char) → List (List Char)
  | [] => []
  | [row] => [row]
  | row :: next :: more => (row ++ ['\n']) :: fed (next :: more)

end Row

namespace Run

end Run

namespace Piece

def isFiller (piece : Piece) : Bool :=
  piece.colour = .white && piece.text.all fun c => Row.isSpace c || Row.isLineEnd c

def visible (pieces : List Piece) : List Piece := pieces.filter fun piece => !piece.isFiller

structure Colours (word : List Char) (piece : Piece) : Prop where
  text : piece.text = word
  upright : piece.italic = false
  symbol : ∀ symbol, Symbol.ofWord word = .ok symbol → piece.colour = colourOfSymbol symbol ∧ piece.colour ≠ .red
  failed : ∀ cause, Symbol.ofWord word = .error cause → piece.colour = .red

end Piece

namespace Piece

theorem of_run_text (run : Run) : (ofRun run).text = run.text := by cases run <;> rfl

theorem of_row_whole (row : List Char) : (ofRow row).flatMap text = row := by
  have content : ∀ content, (ofContent content).flatMap text = content := by
    intro content
    unfold ofContent
    split
    · simp
    · rw [List.flatMap_map, List.flatMap_congr fun run _ => of_run_text run]
      exact Run.of_row_text content
  have ending : ∀ ending, (ofEnding ending).flatMap text = ending := by
    intro ending
    unfold ofEnding
    split
    · next empty => exact empty.symm
    · simp [plain]
  rw [ofRow, List.flatMap_append, content, ending, Row.part_end_join]

structure Shows (row : List Char) (pieces : List Piece) : Prop where
  whole : pieces.flatMap text = row ∨ pieces.flatMap text = row ++ ['\n']
  comment : Row.isComment row = true → ∃ ending, (∀ c ∈ ending, Row.isLineEnd c = true) ∧
    pieces = ⟨.lightGray, true, Row.dropReturn row⟩ :: ofEnding ending
  words : Row.isComment row = false → List.Forall₂ Colours (Run.words (Row.dropReturn row)) (visible pieces)
  line : ∀ number line, Line.ofRow number row = .ok (some line) →
    Line.symbolsOfWords ((visible pieces).map text) = .ok line.content

end Piece

end Offside
