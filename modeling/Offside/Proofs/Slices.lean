import Mathlib.Data.List.Chain
import Offside.Proofs.Colours

set_option autoImplicit false

namespace Offside

namespace Span

def part : Nat → List Char → Option (List Char × List Char)
  | 0, text => some ([], text)
  | _ + 1, [] => none
  | offset + 1, c :: rest =>
      if c.utf8Size ≤ offset + 1 then
        (part (offset + 1 - c.utf8Size) rest).map fun (front, back) => (c :: front, back)
      else none

-- The text between two byte offsets; none if they are no places between characters, or not in this order.
def slice (start stop : Nat) (text : List Char) : Option (List Char) :=
  (part stop text).bind fun (front, _) => (part start front).map Prod.snd

theorem byte_size_append (front back : List Char) : byteSize (front ++ back) = byteSize front + byteSize back := by
  induction front with
  | nil => simp [byteSize]
  | cons c rest ih => simp [byteSize, ih, Nat.add_assoc]

theorem byte_size_zero (text : List Char) (empty : byteSize text = 0) : text = [] := by
  cases text with
  | nil => rfl
  | cons c rest =>
      have positive := c.utf8Size_pos
      rw [byteSize] at empty
      omega

theorem part_join (front back : List Char) : part (byteSize front) (front ++ back) = some (front, back) := by
  induction front with
  | nil => rw [byteSize, List.nil_append, part]
  | cons c rest ih =>
      have positive := c.utf8Size_pos
      obtain ⟨before, size⟩ : ∃ before, c.utf8Size + byteSize rest = before + 1 :=
        ⟨c.utf8Size + byteSize rest - 1, by omega⟩
      have fits : c.utf8Size ≤ before + 1 := by omega
      have further : before + 1 - c.utf8Size = byteSize rest := by omega
      rw [byteSize, size, List.cons_append, part, if_pos fits, further, ih]
      rfl

theorem part_sound (offset : Nat) (text front back : List Char) (parted : part offset text = some (front, back)) :
    text = front ++ back ∧ byteSize front = offset := by
  fun_induction part offset text generalizing front back with
  | case1 text =>
      cases parted
      exact ⟨rfl, rfl⟩
  | case2 offset => cases parted
  | case3 offset c rest fits ih =>
      obtain ⟨⟨first, _⟩, found, same⟩ := Option.map_eq_some_iff.mp parted
      cases same
      obtain ⟨rfl, size⟩ := ih first back found
      refine ⟨rfl, ?_⟩
      rw [byteSize, size]
      omega
  | case4 offset c rest large => cases parted

theorem slice_iff (start stop : Nat) (text piece : List Char) :
    slice start stop text = some piece ↔
      ∃ front back, text = front ++ piece ++ back ∧ byteSize front = start ∧ byteSize (front ++ piece) = stop := by
  constructor
  · intro sliced
    obtain ⟨⟨longer, back⟩, outer, inner⟩ := Option.bind_eq_some_iff.mp sliced
    obtain ⟨⟨front, rest⟩, found, rfl⟩ := Option.map_eq_some_iff.mp inner
    obtain ⟨rfl, size⟩ := part_sound stop text longer back outer
    obtain ⟨rfl, first⟩ := part_sound start longer front rest found
    exact ⟨front, back, rfl, first, size⟩
  · rintro ⟨front, back, rfl, rfl, rfl⟩
    rw [slice, part_join, Option.bind_some]
    dsimp only
    rw [part_join]
    rfl

example : slice 1 3 ['a', 'é', 'b'] = some ['é'] ∧ slice 2 4 ['a', 'é', 'b'] = none := by decide

end Span

namespace Run

def isWord : Run → Bool
  | .word _ => true
  | .gap _ => false

def Alternating (runs : List Run) : Prop := runs.IsChain fun run next => run.isWord ≠ next.isWord

theorem attach_alternating (separating : Bool) (c : Char) (runs : List Run) (alternating : Alternating runs) :
    Alternating (attach separating c runs) := by
  cases runs with
  | nil => cases separating <;> exact List.isChain_singleton _
  | cons run more =>
      have kept := List.isChain_cons.mp alternating
      cases run with
      | gap text =>
          cases separating with
          | true => exact List.isChain_cons.mpr kept
          | false => exact List.isChain_cons_cons.mpr ⟨by simp [isWord], alternating⟩
      | word text =>
          cases separating with
          | true => exact List.isChain_cons_cons.mpr ⟨by simp [isWord], alternating⟩
          | false => exact List.isChain_cons.mpr kept

theorem scan_alternating (quoting : Quoting) (row : List Char) : Alternating (scan quoting row) := by
  induction row generalizing quoting with
  | nil => exact List.isChain_nil
  | cons c rest ih => exact attach_alternating _ c _ (ih _)

theorem flush_word (text : List Char) (flush : text.head? ≠ some ' ') : ∀ run ∈ (ofRow text).head?, run.isWord = true := by
  cases text with
  | nil => simp [ofRow, scan]
  | cons c rest =>
      have apart : Quoting.outside.separates c = false := by simpa [Quoting.separates] using flush
      have start : startsWord (ofRow (c :: rest)) = true := by rw [ofRow, scan, starts_word_attach, apart, Bool.not_false]
      obtain ⟨word, more, runs⟩ := starts_word_ok _ start
      simp [runs, isWord]

theorem of_row_indented (spaces text : List Char) (spaced : ∀ c ∈ spaces, c = ' ') (flush : text.head? ≠ some ' ') :
    ofRow (spaces ++ text) = if spaces = [] then ofRow text else .gap spaces :: ofRow text := by
  induction spaces with
  | nil => rfl
  | cons c more ih =>
      obtain ⟨rfl, rest⟩ := List.forall_mem_cons.mp spaced
      have runs : ofRow (' ' :: more ++ text) = attach true ' ' (ofRow (more ++ text)) := rfl
      rw [runs, ih rest, if_neg (List.cons_ne_nil _ _)]
      by_cases single : more = []
      · rw [if_pos single, single]
        have first := flush_word text flush
        cases words : ofRow text with
        | nil => rfl
        | cons run others =>
            cases run with
            | word word => rfl
            | gap gap =>
                rw [words] at first
                cases first _ rfl
      · rw [if_neg single]
        rfl

end Run

namespace Piece

def sliceGap (row : List Char) (start stop : Nat) : Option (List Piece) :=
  if start < stop then (Span.slice start stop row).map fun text => [plain .white text] else some []

-- The words of a row and the gaps around them from an offset on. The words stand as far behind their offsets as the row
-- is indented.
def sliceWords (row : List Char) (indent written : Nat) : List Span → Option (List Piece)
  | [] => sliceGap row written (Span.byteSize row)
  | span :: more => do
      let gap ← sliceGap row written (indent + span.start)
      let word ← Span.slice (indent + span.start) (indent + span.stop) row
      let others ← sliceWords row indent (indent + span.stop) more
      some (gap ++ plain (colourOfWord word) word :: others)

def sliceContent (content : List Char) : Option (List Piece) :=
  if Row.isComment content then some [⟨.lightGray, true, content⟩]
  else
    let text := content.dropWhile Row.isSpace
    sliceWords content (Span.byteSize content - Span.byteSize text) 0 (Span.ofRow text)

def sliceRow (row : List Char) : Option (List Piece) := do
  let content := (Row.partEnd row).1
  let pieces ← sliceContent content
  let ending ← sliceGap row (Span.byteSize content) (Span.byteSize row)
  some (pieces ++ ending)

def sliceEntry (entry : String) : Option (List Piece) := ((Row.ended entry.toList).mapM sliceRow).map List.flatten

theorem slice_gap (front text back : List Char) :
    sliceGap (front ++ text ++ back) (Span.byteSize front) (Span.byteSize (front ++ text)) = some (ofEnding text) := by
  have size := Span.byte_size_append front text
  rw [sliceGap, ofEnding]
  by_cases empty : text = []
  · have nothing : ¬Span.byteSize front < Span.byteSize (front ++ text) := by
      rw [empty, List.append_nil]
      exact Nat.lt_irrefl _
    rw [if_neg nothing, if_pos empty]
  · have something : Span.byteSize front < Span.byteSize (front ++ text) := by
      have positive : Span.byteSize text ≠ 0 := fun zero => empty (Span.byte_size_zero text zero)
      omega
    have sliced := (Span.slice_iff _ _ _ text).mpr ⟨front, back, rfl, rfl, rfl⟩
    rw [if_pos something, if_neg empty, sliced]
    rfl

-- A gap that has been passed waits for the word behind it, or for the end of the row.
theorem slice_words (row front pending : List Char) (runs : List Run) (indent offset : Nat)
    (whole : row = front ++ pending ++ runs.flatMap Run.text) (size : Span.byteSize (front ++ pending) = indent + offset)
    (apart : pending = [] ∨ ∀ run ∈ runs.head?, run.isWord = true) (alternating : Run.Alternating runs)
    (nonempty : ∀ run ∈ runs, run.text ≠ []) :
    sliceWords row indent (Span.byteSize front) (Span.scan offset runs) = some (ofEnding pending ++ runs.map ofRun) := by
  induction runs generalizing front pending offset with
  | nil =>
      have gap := slice_gap front pending []
      rw [List.append_nil] at gap
      rw [List.flatMap_nil, List.append_nil] at whole
      rw [whole, Span.scan, sliceWords, gap, List.map_nil, List.append_nil]
  | cons run more ih =>
      obtain ⟨first, others⟩ := List.forall_mem_cons.mp nonempty
      obtain ⟨next, rest⟩ := List.isChain_cons.mp alternating
      cases run with
      | gap text =>
          have passed : pending = [] := apart.resolve_right fun word => by cases word _ rfl
          subst passed
          have further : Span.byteSize (front ++ text) = indent + (offset + Span.byteSize text) := by
            rw [List.append_nil] at size
            rw [Span.byte_size_append, size, Nat.add_assoc]
          have words : ∀ run ∈ more.head?, run.isWord = true := fun run member => by simpa [Run.isWord] using next run member
          have joined : row = front ++ text ++ more.flatMap Run.text := by simpa [Run.text] using whole
          have onward := ih front text (offset + Span.byteSize text) joined further (.inr words) rest others
          have shown : ofEnding text = [plain .white text] := if_neg first
          rw [shown] at onward
          exact onward
      | word text =>
          have behind : row = front ++ pending ++ text ++ more.flatMap Run.text := by simpa [Run.text] using whole
          have further : Span.byteSize (front ++ pending ++ text) = indent + (offset + Span.byteSize text) := by
            rw [Span.byte_size_append, size, Nat.add_assoc]
          have gap := slice_gap front pending (text ++ more.flatMap Run.text)
          rw [← List.append_assoc, ← behind, size] at gap
          have word := (Span.slice_iff _ _ row text).mpr ⟨front ++ pending, more.flatMap Run.text, behind, size, further⟩
          have onward := ih (front ++ pending ++ text) [] (offset + Span.byteSize text) (by simpa using behind)
            (by simpa using further) (.inl rfl) rest others
          rw [further] at onward
          simp only [Span.scan, Run.text, sliceWords, gap, word, onward]
          rfl

theorem slice_content (content : List Char) : sliceContent content = some (ofContent content) := by
  rw [sliceContent, ofContent]
  by_cases comment : Row.isComment content = true
  · rw [if_pos comment, if_pos comment]
  · rw [if_neg comment, if_neg comment]
    have joined : content.takeWhile Row.isSpace ++ content.dropWhile Row.isSpace = content := List.takeWhile_append_dropWhile
    have flush := Row.content_flush content
    have spaced : ∀ c ∈ content.takeWhile Row.isSpace, c = ' ' := by
      intro c member
      simpa [Row.isSpace] using List.mem_takeWhile_imp member
    generalize content.takeWhile Row.isSpace = spaces at joined spaced
    generalize content.dropWhile Row.isSpace = text at joined flush
    have indent : Span.byteSize content - Span.byteSize text = Span.byteSize spaces := by
      rw [← joined, Span.byte_size_append, Nat.add_sub_cancel]
    have whole : content = [] ++ spaces ++ (Run.ofRow text).flatMap Run.text := by rw [Run.of_row_text, List.nil_append, joined]
    have sliced := slice_words content [] spaces (Run.ofRow text) (Span.byteSize spaces) 0 whole rfl
      (.inr (Run.flush_word text flush)) (Run.scan_alternating .outside text) (Run.scan_nonempty .outside text)
    dsimp only
    rw [indent]
    refine sliced.trans ?_
    rw [← joined, Run.of_row_indented spaces text spaced flush, ofEnding]
    by_cases level : spaces = []
    · rw [if_pos level, if_pos level, List.nil_append]
    · rw [if_neg level, if_neg level]
      rfl

theorem slice_row (row : List Char) : sliceRow row = some (ofRow row) := by
  have joined := Row.part_end_join row
  have ending := slice_gap (Row.partEnd row).1 (Row.partEnd row).2 []
  rw [List.append_nil, joined] at ending
  rw [sliceRow, ofRow]
  simp only [slice_content, ending]
  rfl

theorem slice_entry (entry : String) : sliceEntry entry = some (ofEntry entry) := by
  have rows : (Row.ended entry.toList).mapM sliceRow = some ((Row.ended entry.toList).map ofRow) := by
    rw [funext slice_row]
    exact List.mapM_pure
  rw [sliceEntry, rows, ofEntry, List.flatMap_def, Option.map_some]

theorem content_nonempty (content : List Char) : ∀ piece ∈ ofContent content, piece.text ≠ [] := by
  rw [ofContent]
  by_cases comment : Row.isComment content = true
  · rw [if_pos comment, List.forall_mem_singleton]
    rintro rfl
    cases comment
  · rw [if_neg comment, List.forall_mem_map]
    intro run member
    rw [of_run_text]
    exact Run.scan_nonempty .outside content run member

theorem row_nonempty (row : List Char) : ∀ piece ∈ ofRow row, piece.text ≠ [] := by
  rw [ofRow, List.forall_mem_append]
  refine ⟨content_nonempty _, ?_⟩
  rw [ofEnding]
  by_cases empty : (Row.partEnd row).2 = []
  · rw [if_pos empty]
    exact List.forall_mem_nil _
  · rw [if_neg empty, List.forall_mem_singleton]
    exact empty

/-- Every slice that is taken of an entry on the way to its pieces exists. The pieces put together are the entry, and
none of them is empty. -/
theorem of_entry_sliced (entry : String) :
    sliceEntry entry = some (ofEntry entry) ∧ (ofEntry entry).flatMap text = entry.toList ∧
      ∀ piece ∈ ofEntry entry, piece.text ≠ [] := by
  refine ⟨slice_entry entry, ?_, ?_⟩
  · rw [ofEntry, List.flatMap_assoc, List.flatMap_congr fun row _ => of_row_whole row, List.flatMap_id', Row.ended_join]
  · intro piece member
    obtain ⟨row, _, inside⟩ := List.mem_flatMap.mp member
    exact row_nonempty row piece inside

end Piece

end Offside
