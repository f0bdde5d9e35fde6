import Mathlib.Data.List.Basic
import Offside.Proofs.Rows
import Offside.Source.Join

set_option autoImplicit false

namespace Offside

namespace Source

def breaksOff (text : List Char) : Bool := text ≠ [] ∧ text.getLast? ≠ some '\n'

-- How many rows a text fills. A row that it only opens, by a line feed at its end, is left to what follows.
def extent (text : String) : Nat := text.toList.count '\n' + if breaksOff text.toList then 1 else 0

theorem extent_empty : extent "" = 0 := rfl

theorem breaks_off_feed (front back : List Char) : breaksOff (front ++ '\n' :: back) = breaksOff back := by
  cases back with
  | nil => simp [breaksOff]
  | cons c rest => simp [breaksOff, List.getLast?_append, List.getLast?_cons]

theorem extent_feed (text : String) (front : List Char) (shape : text.toList = front ++ ['\n']) :
    extent text = (Row.cut front).length := by
  simp [extent, shape, breaksOff, Row.cut_length]

theorem extent_open (text : String) (broken : breaksOff text.toList = true) :
    extent text = (Row.cut text.toList).length := by
  simp [extent, broken, Row.cut_length]

theorem append_cases (source : String) :
    source = "" ∨ (∃ front, source.toList = front ++ ['\n'] ∧ ∀ text, append source text = source ++ text) ∨
      (breaksOff source.toList = true ∧ ∀ text, append source text = source ++ "\n" ++ text) := by
  cases last : source.toList.getLast? with
  | none => exact .inl (String.toList_injective (List.getLast?_eq_none_iff.mp last))
  | some c =>
      have nonempty : source.toList ≠ [] := by
        intro empty
        rw [empty] at last
        cases last
      by_cases feed : c = '\n'
      · subst feed
        obtain ⟨front, shape⟩ := List.getLast?_eq_some_iff.mp last
        exact .inr (.inl ⟨front, shape, fun text => by simp [append, last]⟩)
      · refine .inr (.inr ⟨?_, fun text => by simp [append, last, feed]⟩)
        have unended : source.toList.getLast? ≠ some '\n' := by simpa [last] using feed
        exact decide_eq_true ⟨nonempty, unended⟩

theorem extent_append (source text : String) : extent (append source text) = extent source + extent text := by
  have fed : ∀ front, (front ++ '\n' :: text.toList).count '\n' = (Row.cut front).length + text.toList.count '\n' := by
    intro front
    rw [Row.cut_length, List.count_append, List.count_cons_self]
    omega
  rcases append_cases source with rfl | ⟨front, shape, joined⟩ | ⟨broken, joined⟩
  · simp [append, extent, breaksOff]
  · have whole : (append source text).toList = front ++ '\n' :: text.toList := by simp [joined, shape]
    rw [extent_feed source front shape, extent, whole, breaks_off_feed, fed, extent, Nat.add_assoc]
  · have whole : (append source text).toList = source.toList ++ '\n' :: text.toList := by simp [joined]
    rw [extent_open source broken, extent, whole, breaks_off_feed, fed, extent, Nat.add_assoc]

end Source

namespace Line

def ofTexts (above : Nat) : List String → Except Error (List Line)
  | [] => .ok []
  | text :: more =>
      followedBy (renumberRead (fun line => above + line) (ofSource text)) (ofTexts (above + Source.extent text) more)

theorem of_source_empty : ofSource "" = .ok [] := rfl

theorem of_source_append (source text : String) :
    ofSource (Source.append source text) =
      followedBy (ofSource source) (renumberRead (fun line => Source.extent source + line) (ofSource text)) := by
  rcases Source.append_cases source with rfl | ⟨front, shape, joined⟩ | ⟨broken, joined⟩
  · have alone : Source.append "" text = text := rfl
    simp only [Source.extent_empty, Nat.zero_add]
    rw [alone, renumber_read_same, of_source_empty, nothing_followed_by]
  · have whole : (Source.append source text).toList = front ++ '\n' :: text.toList := by simp [joined, shape]
    -- The row that the last line feed opens is empty as long as nothing follows.
    have closed : ofRows 1 (Row.cut (front ++ ['\n'])) = ofRows 1 (Row.cut front) := by
      rw [of_rows_feed]
      exact followed_by_nothing _
    rw [ofSource, whole, of_rows_feed, ofSource, shape, closed, Source.extent_feed source front shape, ofSource]
  · have whole : (Source.append source text).toList = source.toList ++ '\n' :: text.toList := by simp [joined]
    rw [ofSource, whole, of_rows_feed, Source.extent_open source broken, ofSource, ofSource]

theorem of_join_onto (source : String) (texts : List String) :
    (Source.joinOnto source (texts.map .ok)).bind ofSource =
      followedBy (ofSource source) (ofTexts (Source.extent source) texts) := by
  induction texts generalizing source with
  | nil => exact (followed_by_nothing _).symm
  | cons text more ih =>
      rw [List.map_cons, Source.joinOnto, ih, of_source_append, followed_by_assoc, Source.extent_append, ofTexts]

/-- Joined texts hold the lines of each text, numbered on from text to text. -/
theorem of_join (texts : List String) : (Source.join (texts.map .ok)).bind ofSource = ofTexts 0 texts := by
  rw [Source.join, of_join_onto, of_source_empty, nothing_followed_by, Source.extent_empty]

end Line

end Offside
