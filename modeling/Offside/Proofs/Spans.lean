import Offside.Proofs.Apostrophes
import Offside.Proofs.Encoding
import Offside.Proofs.Slices
import Offside.Proofs.Sweep

set_option autoImplicit false

namespace Offside

namespace Literal

-- A text behind which no literal is open. A literal opens at any apostrophe behind such a text, and closes at the first
-- one from there on that no backslash stands right before.
inductive Closed : List Char → Prop where
  | start : Closed []
  | passed (front : List Char) (c : Char) (closed : Closed front) (other : c ≠ '\'') : Closed (front ++ [c])
  | quoted (front inside : List Char) (closed : Closed front) (guarded : Guarded inside)
      (ended : inside.getLast? ≠ some '\\') : Closed (front ++ '\'' :: (inside ++ ['\'']))

def Opened (text : List Char) : Prop := ∃ front inside, text = front ++ '\'' :: inside ∧ Closed front ∧ Guarded inside

theorem guarded_front (front back : List Char) (guarded : Guarded (front ++ back)) : Guarded front := by
  intro before after same
  apply guarded before (after ++ back)
  rw [same, List.append_assoc, List.cons_append]

theorem guarded_after (inside : List Char) (guarded : Guarded inside) :
    (Quoting.inside false).after inside = .inside (inside.getLast? = some '\\') := by
  induction inside using List.reverseRecOn with
  | nil => rfl
  | append_singleton front c ih =>
      have kept : c = '\'' → front.getLast? = some '\\' := by
        rintro rfl
        exact guarded front [] rfl
      rw [Quoting.after_append, ih (guarded_front front [c] guarded)]
      exact next_stays front c kept

theorem closed_after (text : List Char) (closed : Closed text) : Quoting.outside.after text = .outside := by
  induction closed with
  | start => rfl
  | passed front c _ other ih =>
      rw [Quoting.after_append, ih]
      exact if_neg other
  | quoted front inside _ guarded ended ih =>
      rw [Quoting.after_append, ih]
      change (Quoting.inside false).after (inside ++ ['\'']) = _
      rw [Quoting.after_append, guarded_after inside guarded]
      exact next_closes inside ended

theorem opened_after (text : List Char) (opened : Opened text) : ∃ last, Quoting.outside.after text = .inside last := by
  obtain ⟨front, inside, rfl, closed, guarded⟩ := opened
  rw [Quoting.after_append, closed_after front closed]
  exact ⟨_, guarded_after inside guarded⟩

inductive Stands : List Char → Quoting → Prop where
  | outside (text : List Char) (closed : Closed text) : Stands text .outside
  | inside (front inside : List Char) (closed : Closed front) (guarded : Guarded inside) :
      Stands (front ++ '\'' :: inside) (.inside (inside.getLast? = some '\\'))

theorem stands_next (text : List Char) (quoting : Quoting) (c : Char) (stands : Stands text quoting) :
    Stands (text ++ [c]) (quoting.next c) := by
  cases stands with
  | outside _ closed =>
      by_cases apostrophe : c = '\''
      · subst apostrophe
        exact .inside text [] closed guarded_nil
      · have stays : Quoting.outside.next c = .outside := if_neg apostrophe
        rw [stays]
        exact .outside _ (.passed text c closed apostrophe)
  | inside front inside closed guarded =>
      rw [List.append_assoc, List.cons_append]
      by_cases closes : c = '\'' ∧ inside.getLast? ≠ some '\\'
      · obtain ⟨rfl, ended⟩ := closes
        rw [next_closes inside ended]
        exact .outside _ (.quoted front inside closed guarded ended)
      · have kept : c = '\'' → inside.getLast? = some '\\' := by
          intro apostrophe
          by_contra ended
          exact closes ⟨apostrophe, ended⟩
        rw [next_stays inside c kept]
        exact .inside front _ closed (guarded_snoc inside c guarded kept)

theorem stands_after (text : List Char) : Stands text (Quoting.outside.after text) := by
  induction text using List.reverseRecOn with
  | nil => exact .outside [] .start
  | append_singleton text c ih =>
      rw [Quoting.after_append]
      exact stands_next text _ c ih

theorem opened_iff (text : List Char) : Opened text ↔ (Quoting.outside.after text).separates ' ' = false := by
  constructor
  · intro opened
    obtain ⟨last, inside⟩ := opened_after text opened
    rw [inside]
    rfl
  · intro kept
    have stands := stands_after text
    generalize Quoting.outside.after text = quoting at kept stands
    cases stands with
    | outside _ closed => cases kept
    | inside front inside closed guarded => exact ⟨front, inside, rfl, closed, guarded⟩

end Literal

namespace Run

theorem first_word (row : List Char) (nonempty : row ≠ []) (flush : row.head? ≠ some ' ') :
    ∃ word, words word = [word] ∧
      (row = word ∨ ∃ rest, row = word ++ ' ' :: rest ∧ Quoting.outside.after word = .outside) := by
  have whole := of_row_text row
  have scanned : scan .outside row = ofRow row := rfl
  have alternating := scan_alternating .outside row
  have first := flush_word row flush
  rw [scanned] at alternating
  generalize ofRow row = runs at whole scanned alternating first
  cases runs with
  | nil => exact absurd whole.symm nonempty
  | cons run more =>
      cases run with
      | gap spaces => cases first _ rfl
      | word word =>
          cases more with
          | nil =>
              have alone : word = row := by simpa [text] using whole
              refine ⟨word, ?_, .inl alone.symm⟩
              rw [alone, words, ofRow, scanned, alone]
              rfl
          | cons next back =>
              cases next with
              | word other => exact absurd rfl (List.isChain_cons_cons.mp alternating).1
              | gap spaces =>
                  obtain ⟨alone, closed, more, rfl⟩ := scan_gap .outside row [.word word] back spaces scanned
                  rw [List.flatMap_singleton, text] at alone closed
                  refine ⟨word, by rw [words, ofRow, alone]; rfl, .inr ⟨more ++ back.flatMap text, ?_, closed⟩⟩
                  simpa [text] using whole.symm

-- The words of a row, with single spaces between them, are found again. None of them but the last can leave a literal open.
theorem words_join_words (row : List Char) : words (join (words row)) = words row := by
  induction size : row.length using Nat.strongRecOn generalizing row with
  | ind length ih =>
      cases row with
      | nil => rfl
      | cons c tail =>
          by_cases space : c = ' '
          · subst space
            rw [words_space]
            exact ih tail.length (by rw [← size]; exact Nat.lt_succ_self _) tail rfl
          · obtain ⟨word, single, whole | ⟨rest, whole, closed⟩⟩ :=
              first_word (c :: tail) (List.cons_ne_nil c tail) (by simpa using space)
            · rw [whole, single, join_singleton, single]
            · have shorter : rest.length < length := by
                rw [← size, whole, List.length_append, List.length_cons]
                omega
              have later := ih rest.length shorter rest rfl
              rw [whole, words_across word rest closed, single]
              cases others : words rest with
              | nil => rw [List.append_nil, join_singleton, single]
              | cons next more =>
                  rw [others] at later
                  rw [List.singleton_append, join_cons, words_across word _ closed, later, single, List.singleton_append]

end Run

namespace Span

def Covered (spans : List Span) (place : Nat) : Prop := ∃ span ∈ spans, span.start ≤ place ∧ place < span.stop

theorem covered_cons (span : Span) (more : List Span) (place : Nat) :
    Covered (span :: more) place ↔ (span.start ≤ place ∧ place < span.stop) ∨ Covered more place := by
  simp [Covered]

theorem scan_texts (offset : Nat) (runs : List Run) : (scan offset runs).map text = runs.filterMap Run.word? := by
  induction runs generalizing offset with
  | nil => rfl
  | cons run more ih =>
      cases run with
      | gap spaces => exact ih _
      | word word => exact congrArg (word :: ·) (ih _)

theorem scan_member (offset : Nat) (runs : List Run) (span : Span) (member : span ∈ scan offset runs) :
    ∃ front back, runs = front ++ .word span.text :: back ∧ span.start = offset + byteSize (front.flatMap Run.text) ∧
      span.stop = span.start + byteSize span.text := by
  induction runs generalizing offset with
  | nil => cases member
  | cons run more ih =>
      have here : (∃ word, run = .word word ∧ span = ⟨offset, offset + byteSize word, word⟩) ∨
          span ∈ scan (offset + byteSize run.text) more := by
        cases run with
        | gap spaces => exact .inr member
        | word word => exact (List.mem_cons.mp member).imp_left fun same => ⟨word, rfl, same⟩
      rcases here with ⟨word, rfl, rfl⟩ | later
      · exact ⟨[], more, rfl, rfl, rfl⟩
      · obtain ⟨front, back, rfl, start, stop⟩ := ih _ later
        refine ⟨run :: front, back, rfl, ?_, stop⟩
        rw [start, List.flatMap_cons, byte_size_append, Nat.add_assoc]

theorem scan_behind (offset : Nat) (runs : List Run) (place : Nat) (covered : Covered (scan offset runs) place) :
    offset ≤ place := by
  obtain ⟨span, member, low, _⟩ := covered
  obtain ⟨_, _, _, start, _⟩ := scan_member offset runs span member
  omega

theorem covered_attach (separating : Bool) (c : Char) (runs : List Run) (offset place : Nat) :
    Covered (scan offset (Run.attach separating c runs)) place ↔
      (separating = false ∧ offset ≤ place ∧ place < offset + c.utf8Size) ∨
        Covered (scan (offset + c.utf8Size) runs) place := by
  cases separating with
  | true =>
      rw [scan_space]
      simp
  | false =>
      cases runs with
      | nil => simp [Run.attach, scan, covered_cons, Run.text, byteSize]
      | cons run more =>
          cases run with
          | gap spaces => simp [Run.attach, scan, covered_cons, Run.text, byteSize]
          | word word =>
              have longer : scan offset (Run.attach false c (.word word :: more)) =
                  ⟨offset, offset + c.utf8Size + byteSize word, c :: word⟩ ::
                    scan (offset + c.utf8Size + byteSize word) more := by
                simp [Run.attach, scan, Run.text, byteSize, Nat.add_assoc]
              have shorter : scan (offset + c.utf8Size) (.word word :: more) =
                  ⟨offset + c.utf8Size, offset + c.utf8Size + byteSize word, word⟩ ::
                    scan (offset + c.utf8Size + byteSize word) more := rfl
              rw [longer, shorter, covered_cons, covered_cons, ← or_assoc]
              apply or_congr_left
              simp only [true_and]
              omega

theorem covered_character (quoting : Quoting) (front : List Char) (c : Char) (back : List Char) (offset inner : Nat)
    (inside : inner < c.utf8Size) :
    Covered (scan offset (Run.scan quoting (front ++ c :: back))) (offset + byteSize front + inner) ↔
      (quoting.after front).separates c = false := by
  induction front generalizing quoting offset with
  | nil =>
      have others : ¬Covered (scan (offset + c.utf8Size) (Run.scan (quoting.next c) back)) (offset + inner) := by
        intro covered
        have behind := scan_behind _ _ _ covered
        omega
      rw [List.nil_append, Run.scan, covered_attach, byteSize, Nat.add_zero]
      simp [others, inside, Quoting.after]
  | cons d rest ih =>
      rw [List.cons_append, Run.scan, covered_attach, byteSize, ← Nat.add_assoc, ih]
      exact or_iff_right (by omega)

theorem byte_character (row : List Char) (place : Nat) (within : place < byteSize row) :
    ∃ front c back inner, row = front ++ c :: back ∧ inner < c.utf8Size ∧ place = byteSize front + inner := by
  induction row generalizing place with
  | nil => cases within
  | cons c rest ih =>
      by_cases here : place < c.utf8Size
      · exact ⟨[], c, rest, place, rfl, here, (Nat.zero_add place).symm⟩
      · rw [byteSize] at within
        obtain ⟨front, d, back, inner, rfl, inside, further⟩ := ih (place - c.utf8Size) (by omega)
        refine ⟨c :: front, d, back, inner, rfl, inside, ?_⟩
        rw [byteSize]
        omega

theorem scan_later (offset : Nat) (runs : List Run) (gap : ∀ run ∈ runs.head?, run.isWord = false)
    (nonempty : ∀ run ∈ runs, run.text ≠ []) : ∀ span ∈ scan offset runs, offset < span.start := by
  intro span member
  obtain ⟨front, back, rfl, start, _⟩ := scan_member offset runs span member
  cases front with
  | nil => cases gap _ rfl
  | cons run more =>
      have positive : byteSize run.text ≠ 0 := fun zero => nonempty run List.mem_cons_self (byte_size_zero _ zero)
      rw [start, List.flatMap_cons, byte_size_append]
      omega

theorem scan_apart (offset : Nat) (runs : List Run) (alternating : Run.Alternating runs)
    (nonempty : ∀ run ∈ runs, run.text ≠ []) : (scan offset runs).Pairwise fun span next => span.stop < next.start := by
  induction runs generalizing offset with
  | nil => exact .nil
  | cons run more ih =>
      obtain ⟨next, rest⟩ := List.isChain_cons.mp alternating
      obtain ⟨_, others⟩ := List.forall_mem_cons.mp nonempty
      have apart := ih (offset + byteSize run.text) rest others
      cases run with
      | gap spaces => exact apart
      | word word =>
          have gap : ∀ run ∈ more.head?, run.isWord = false := fun run member => by simpa [Run.isWord] using next run member
          exact List.pairwise_cons.mpr ⟨scan_later _ more gap others, apart⟩

structure Parts (row : List Char) (spans : List Span) : Prop where
  nonempty : ∀ span ∈ spans, span.start < span.stop
  within : ∀ span ∈ spans, span.stop ≤ byteSize row
  sliced : ∀ span ∈ spans, slice span.start span.stop row = some span.text
  apart : spans.Pairwise fun span next => span.stop < next.start
  -- Every byte outside of the spans is a space.
  spaces : ∀ place < byteSize row, ¬Covered spans place → (encode row)[place]? = some 0x20
  -- A space is inside of one exactly where a literal is open.
  quoted : ∀ front back, row = front ++ ' ' :: back → (Covered spans (byteSize front) ↔ Literal.Opened front)

theorem of_row_placed (row : List Char) (span : Span) (member : span ∈ ofRow row) :
    ∃ front back, row = front ++ span.text ++ back ∧ span.text ≠ [] ∧ byteSize front = span.start ∧
      byteSize (front ++ span.text) = span.stop := by
  obtain ⟨front, back, runs, start, stop⟩ := scan_member 0 _ span member
  have present : .word span.text ∈ Run.ofRow row := by simp [runs]
  have nonempty : span.text ≠ [] := Run.scan_nonempty .outside row _ present
  refine ⟨front.flatMap Run.text, back.flatMap Run.text, ?_, nonempty, by omega, by rw [byte_size_append]; omega⟩
  have whole := Run.of_row_text row
  rw [runs] at whole
  simpa [Run.text] using whole.symm

theorem parts_of_row (row : List Char) : Parts row (ofRow row) := by
  refine ⟨?_, ?_, ?_, ?_, ?_, ?_⟩
  · intro span member
    obtain ⟨front, back, _, nonempty, start, stop⟩ := of_row_placed row span member
    have positive : byteSize span.text ≠ 0 := fun zero => nonempty (byte_size_zero _ zero)
    rw [byte_size_append] at stop
    omega
  · intro span member
    obtain ⟨front, back, whole, _, _, stop⟩ := of_row_placed row span member
    rw [whole, byte_size_append, stop]
    exact Nat.le_add_right _ _
  · intro span member
    obtain ⟨front, back, whole, _, start, stop⟩ := of_row_placed row span member
    exact (slice_iff _ _ row span.text).mpr ⟨front, back, whole, start, stop⟩
  · exact scan_apart 0 _ (Run.scan_alternating .outside row) (Run.scan_nonempty .outside row)
  · intro place within uncovered
    obtain ⟨front, c, back, inner, rfl, inside, rfl⟩ := byte_character row place within
    have covered := covered_character .outside front c back 0 inner inside
    rw [Nat.zero_add] at covered
    have separates := Bool.of_not_eq_false fun kept => uncovered (covered.mpr kept)
    obtain ⟨_, rfl⟩ := (Quoting.separates_iff _ c).mp separates
    have first : inner = 0 := Nat.lt_one_iff.mp inside
    rw [character_byte front ' ' back inner inside, first]
    rfl
  · rintro front back rfl
    have covered := covered_character .outside front ' ' back 0 0 (by decide)
    rw [Nat.zero_add, Nat.add_zero] at covered
    exact covered.trans (Literal.opened_iff front).symm

theorem parts_covered (row : List Char) (spans : List Span) (parts : Parts row spans) (place : Nat) :
    Covered spans place ↔ ∃ front c back inner, row = front ++ c :: back ∧ inner < c.utf8Size ∧
      place = byteSize front + inner ∧ (c = ' ' → Literal.Opened front) := by
  constructor
  · intro covered
    have within : place < byteSize row := by
      obtain ⟨span, member, _, high⟩ := covered
      exact Nat.lt_of_lt_of_le high (parts.within span member)
    obtain ⟨front, c, back, inner, whole, inside, rfl⟩ := byte_character row place within
    refine ⟨front, c, back, inner, whole, inside, rfl, ?_⟩
    rintro rfl
    have first : inner = 0 := Nat.lt_one_iff.mp inside
    rw [first] at covered
    exact (parts.quoted front back whole).mp covered
  · rintro ⟨front, c, back, inner, whole, inside, rfl, opened⟩
    by_cases space : c = ' '
    · subst space
      have first : inner = 0 := Nat.lt_one_iff.mp inside
      rw [first]
      exact (parts.quoted front back whole).mpr (opened rfl)
    · by_contra uncovered
      have within : byteSize front + inner < byteSize row := by
        rw [whole, byte_size_append, byteSize]
        omega
      have byte := parts.spaces _ within uncovered
      rw [whole, character_byte front c back inner inside] at byte
      exact space (space_byte c (List.mem_of_getElem? byte))

structure Separate (spans : List Span) : Prop where
  nonempty : ∀ span ∈ spans, span.start < span.stop
  apart : spans.Pairwise fun span next => span.stop < next.start

theorem separate_cons (span : Span) (more : List Span) (separate : Separate (span :: more)) :
    span.start < span.stop ∧ (∀ place, Covered more place → span.stop < place) ∧ Separate more := by
  obtain ⟨first, others⟩ := List.forall_mem_cons.mp separate.nonempty
  obtain ⟨later, apart⟩ := List.pairwise_cons.mp separate.apart
  refine ⟨first, ?_, others, apart⟩
  rintro place ⟨next, member, low, _⟩
  exact Nat.lt_of_lt_of_le (later next member) low

theorem separate_nothing (spans : List Span) (separate : Separate spans) (nothing : ∀ place, ¬Covered spans place) :
    spans = [] := by
  cases spans with
  | nil => rfl
  | cons span more =>
      have positive := (separate_cons span more separate).1
      exact absurd ((covered_cons span more span.start).mpr (.inl ⟨Nat.le_refl _, positive⟩)) (nothing span.start)

theorem separate_rest (span : Span) (more : List Span) (separate : Separate (span :: more)) (place : Nat) :
    Covered more place ↔ Covered (span :: more) place ∧ span.stop < place := by
  rw [covered_cons]
  constructor
  · intro covered
    exact ⟨.inr covered, (separate_cons span more separate).2.1 place covered⟩
  · rintro ⟨⟨_, high⟩ | covered, behind⟩
    · exact absurd high (Nat.lt_asymm behind)
    · exact covered

-- The first byte that is covered starts the first span, and the next one that is not ends it.
theorem separate_first (span other : Span) (more rest : List Span) (separate : Separate (span :: more))
    (further : Separate (other :: rest)) (covers : ∀ place, Covered (span :: more) place → Covered (other :: rest) place) :
    other.start ≤ span.start ∧ (other.start = span.start → span.stop ≤ other.stop) := by
  have inside : ∀ place, span.start ≤ place → place < span.stop →
      (other.start ≤ place ∧ place < other.stop) ∨ other.stop < place := by
    intro place low high
    have covered := covers place ((covered_cons span more place).mpr (.inl ⟨low, high⟩))
    exact ((covered_cons other rest place).mp covered).imp_right ((separate_cons other rest further).2.1 place)
  have positive := (separate_cons span more separate).1
  have otherPositive := (separate_cons other rest further).1
  constructor
  · have start := inside span.start (Nat.le_refl _) positive
    omega
  · intro same
    by_contra longer
    have stop := inside other.stop (by omega) (by omega)
    omega

theorem separate_bounds (spans others : List Span) (separate : Separate spans) (further : Separate others)
    (same : ∀ place, Covered spans place ↔ Covered others place) : spans.map bounds = others.map bounds := by
  induction spans generalizing others with
  | nil =>
      have nothing : others = [] := separate_nothing others further fun place covered => by
        simpa [Covered] using (same place).mpr covered
      rw [nothing]
  | cons span more ih =>
      cases others with
      | nil => cases separate_nothing _ separate fun place covered => by simpa [Covered] using (same place).mp covered
      | cons other rest =>
          have forth := separate_first span other more rest separate further fun place => (same place).mp
          have back := separate_first other span rest more further separate fun place => (same place).mpr
          have starts : span.start = other.start := Nat.le_antisymm back.1 forth.1
          have stops : span.stop = other.stop := Nat.le_antisymm (forth.2 starts.symm) (back.2 starts)
          have rests : ∀ place, Covered more place ↔ Covered rest place := by
            intro place
            rw [separate_rest span more separate, separate_rest other rest further, same, stops]
          have later := ih rest (separate_cons span more separate).2.2 (separate_cons other rest further).2.2 rests
          rw [List.map_cons, List.map_cons, bounds, bounds, starts, stops, later]

def ofBounds (row : List Char) (ends : Nat × Nat) : Span := ⟨ends.1, ends.2, (slice ends.1 ends.2 row).getD []⟩

theorem parts_bounds (row : List Char) (spans : List Span) (parts : Parts row spans) :
    (spans.map bounds).map (ofBounds row) = spans := by
  rw [List.map_map]
  conv_rhs => rw [← List.map_id spans]
  apply List.map_congr_left
  intro span member
  rw [Function.comp_apply, bounds, ofBounds, parts.sliced span member]
  rfl

theorem parts_unique (row : List Char) (spans others : List Span) (parts : Parts row spans) (further : Parts row others) :
    spans = others := by
  have same : ∀ place, Covered spans place ↔ Covered others place := by
    intro place
    rw [parts_covered row spans parts, parts_covered row others further]
  have ends := separate_bounds spans others ⟨parts.nonempty, parts.apart⟩ ⟨further.nonempty, further.apart⟩ same
  rw [← parts_bounds row spans parts, ends, parts_bounds row others further]

/-- The words of a row are the only spans that part it, and one pass over the row finds their bounds. With single spaces
between them, the same words are found again. -/
theorem of_row_parted (row : List Char) :
    (∀ spans, Parts row spans ↔ spans = ofRow row) ∧ Cursor.begin.sweep 0 row = (ofRow row).map bounds ∧
      (ofRow (Run.join ((ofRow row).map text))).map text = (ofRow row).map text := by
  have texts : ∀ row, (ofRow row).map text = Run.words row := fun row => scan_texts 0 (Run.ofRow row)
  refine ⟨fun spans => ⟨fun parts => parts_unique row _ _ parts (parts_of_row row), ?_⟩, sweep_of_row row, ?_⟩
  · rintro rfl
    exact parts_of_row row
  · rw [texts, texts]
    exact Run.words_join_words row

end Span

end Offside
