import Mathlib.Data.List.Basic
import Mathlib.Data.List.TakeWhile
import Offside.Line
import Offside.Proofs.Writing.Word

set_option autoImplicit false

namespace Offside

namespace Run

theorem words_attach_space (c : Char) (runs : List Run) :
    (attach true c runs).filterMap word? = runs.filterMap word? := by
  cases runs with
  | nil => rfl
  | cons run more => cases run <;> rfl

theorem words_space (rest : List Char) : words (' ' :: rest) = words rest :=
  words_attach_space ' ' (scan .outside rest)

theorem words_indented (depth : Nat) (rest : List Char) : words (List.replicate depth ' ' ++ rest) = words rest := by
  induction depth with
  | zero => rfl
  | succ depth ih => rw [List.replicate_succ, List.cons_append, words_space, ih]

theorem scan_word (quoting : Quoting) (word rest : List Char) (nonempty : word ≠ []) (unbroken : quoting.Unbroken word)
    (apart : ∀ text, (scan (quoting.after word) rest).head? ≠ some (.word text)) :
    scan quoting (word ++ rest) = .word word :: scan (quoting.after word) rest := by
  induction word generalizing quoting with
  | nil => exact absurd rfl nonempty
  | cons c more ih =>
      rw [List.cons_append, scan, unbroken.1]
      cases more with
      | nil =>
          change attach false c (scan (quoting.next c) rest) = .word [c] :: scan (quoting.next c) rest
          change ∀ text, (scan (quoting.next c) rest).head? ≠ some (.word text) at apart
          cases runs : scan (quoting.next c) rest with
          | nil => rfl
          | cons run others =>
              cases run with
              | gap spaces => rfl
              | word text =>
                  rw [runs] at apart
                  exact absurd rfl (apart text)
      | cons d others =>
          rw [ih (quoting.next c) (List.cons_ne_nil d others) unbroken.2 apart]
          rfl

theorem scan_begins (quoting : Quoting) (front back : List Char) (nonempty : front ≠ []) (unbroken : quoting.Unbroken front) :
    ∃ text more, scan quoting (front ++ back) = .word (front ++ text) :: more := by
  induction front generalizing quoting with
  | nil => exact absurd rfl nonempty
  | cons c rest ih =>
      rw [List.cons_append, scan, unbroken.1]
      cases rest with
      | nil =>
          rw [List.nil_append]
          cases scan (quoting.next c) back with
          | nil => exact ⟨[], [], rfl⟩
          | cons run more =>
              cases run with
              | gap spaces => exact ⟨[], _, rfl⟩
              | word text => exact ⟨text, more, rfl⟩
      | cons d others =>
          obtain ⟨text, more, scanned⟩ := ih (quoting.next c) (List.cons_ne_nil d others) unbroken.2
          exact ⟨text, more, by rw [scanned]; rfl⟩

theorem words_begin (front back : List Char) (nonempty : front ≠ []) (unbroken : Quoting.outside.Unbroken front) :
    ∃ text more, words (front ++ back) = (front ++ text) :: more := by
  obtain ⟨text, more, scanned⟩ := scan_begins .outside front back nonempty unbroken
  exact ⟨text, more.filterMap word?, by rw [words, ofRow, scanned]; rfl⟩

theorem words_unbroken (word : List Char) (nonempty : word ≠ []) (unbroken : Quoting.outside.Unbroken word) :
    words word = [word] := by
  have scanned := scan_word .outside word [] nonempty unbroken (by simp [scan])
  rw [List.append_nil] at scanned
  rw [words, ofRow, scanned]
  rfl

theorem words_cons (word rest : List Char) (tidy : Tidy word) : words (word ++ ' ' :: rest) = word :: words rest := by
  have apart : ∀ text, (scan (Quoting.outside.after word) (' ' :: rest)).head? ≠ some (.word text) := by
    rw [tidy.closed]
    change ∀ text, (attach true ' ' (scan .outside rest)).head? ≠ some (.word text)
    cases scan .outside rest with
    | nil => simp [attach]
    | cons run more => cases run <;> simp [attach]
  have spaced := words_space rest
  rw [words, ofRow] at spaced
  rw [words, ofRow, scan_word .outside word _ tidy.nonempty tidy.unbroken apart, tidy.closed, List.filterMap_cons, spaced]
  rfl

def join (words : List (List Char)) : List Char := [' '].intercalate words

theorem join_cons (word next : List Char) (more : List (List Char)) :
    join (word :: next :: more) = word ++ ' ' :: join (next :: more) := by
  simp [join, List.intercalate_cons_cons]

theorem join_singleton (word : List Char) : join [word] = word := List.intercalate_singleton

theorem join_head (word : List Char) (more : List (List Char)) (nonempty : word ≠ []) :
    (join (word :: more)).head? = word.head? := by
  cases more with
  | nil => rw [join_singleton]
  | cons next others => rw [join_cons, List.head?_append_of_ne_nil _ nonempty]

theorem words_join (words : List (List Char)) (tidy : ∀ word ∈ words, Tidy word) : Run.words (join words) = words := by
  induction words with
  | nil => rfl
  | cons word more ih =>
      obtain ⟨first, others⟩ := List.forall_mem_cons.mp tidy
      cases more with
      | nil =>
          rw [join_singleton]
          exact words_unbroken word first.nonempty first.unbroken
      | cons next rest => rw [join_cons, words_cons word _ first, ih others]

theorem join_one_row (words : List (List Char)) (tidy : ∀ word ∈ words, Tidy word) : '\n' ∉ join words := by
  induction words with
  | nil => simp [join]
  | cons word more ih =>
      obtain ⟨first, others⟩ := List.forall_mem_cons.mp tidy
      cases more with
      | nil =>
          rw [join_singleton]
          exact first.oneRow
      | cons next rest =>
          rw [join_cons]
          simp [first.oneRow, ih others]

theorem join_ended (words : List (List Char)) (tidy : ∀ word ∈ words, Tidy word) :
    (join words).getLast? ≠ some '\r' := by
  induction words with
  | nil => simp [join]
  | cons word more ih =>
      obtain ⟨first, others⟩ := List.forall_mem_cons.mp tidy
      cases more with
      | nil =>
          rw [join_singleton]
          exact first.ended
      | cons next rest =>
          have nonempty : join (next :: rest) ≠ [] := by
            intro empty
            have nextTidy := others next List.mem_cons_self
            have head := join_head next rest nextTidy.nonempty
            rw [empty, List.head?_nil] at head
            exact nextTidy.nonempty (List.head?_eq_none_iff.mp head.symm)
          rw [join_cons, List.getLast?_append_of_ne_nil _ (List.cons_ne_nil _ _), List.getLast?_cons_of_ne_nil nonempty]
          exact ih others

end Run

namespace Row

def write (depth : Nat) (words : List (List Char)) : List Char := List.replicate depth ' ' ++ Run.join words

theorem write_one_row (depth : Nat) (words : List (List Char)) (tidy : ∀ word ∈ words, Tidy word) :
    '\n' ∉ write depth words := by
  have spaces : '\n' ∉ List.replicate depth ' ' := by simp
  simp [write, spaces, Run.join_one_row words tidy]

theorem indent_content (row : List Char) : row = List.replicate (indent row) ' ' ++ row.dropWhile isSpace := by
  have spaces : row.takeWhile isSpace = List.replicate (indent row) ' ' := by
    apply List.eq_replicate_of_mem
    intro c member
    simpa [isSpace] using List.mem_takeWhile_imp member
  rw [← spaces, List.takeWhile_append_dropWhile]

theorem content_flush (row : List Char) : (row.dropWhile isSpace).head? ≠ some ' ' := by
  intro space
  have stopped := List.head?_dropWhile_not isSpace row
  rw [space] at stopped
  cases stopped

theorem indent_indented (depth : Nat) (content : List Char) (flush : content.head? ≠ some ' ') :
    indent (List.replicate depth ' ' ++ content) = depth := by
  have spaces : ∀ space ∈ List.replicate depth ' ', isSpace space = true := by
    intro space member
    rw [List.eq_of_mem_replicate member]
    rfl
  rw [indent, List.takeWhile_append_of_pos spaces]
  cases content with
  | nil => simp
  | cons c rest =>
      have stop : ¬ isSpace c = true := by simpa [isSpace] using flush
      rw [List.takeWhile_cons_of_neg stop, List.append_nil, List.length_replicate]

theorem void_indented (depth : Nat) (content : List Char) (flush : content.head? ≠ some ' ') :
    isVoid (List.replicate depth ' ' ++ content) = (content.isEmpty || (depth == 0 && isComment content)) := by
  cases content with
  | nil => simp [isVoid, isSpace]
  | cons c rest =>
      have visible : c ≠ ' ' := by simpa using flush
      cases depth with
      | zero => simp [isVoid, isSpace, visible]
      | succ depth => simp [isVoid, isComment, isSpace, visible, List.replicate_succ]

end Row

namespace Line

theorem symbols_of_written (symbols : List Symbol) (writable : ∀ symbol ∈ symbols, symbol.isWritable = true) :
    symbolsOfWords (symbols.map Symbol.write) = .ok symbols := by
  induction symbols with
  | nil => rfl
  | cons symbol more ih =>
      obtain ⟨first, others⟩ := List.forall_mem_cons.mp writable
      have rest := ih others
      rw [symbolsOfWords] at rest
      rw [symbolsOfWords, List.map_cons, List.mapM_cons, Symbol.of_word_write symbol first, rest]
      rfl

theorem written_tidy (symbols : List Symbol) (writable : ∀ symbol ∈ symbols, symbol.isWritable = true) :
    ∀ word ∈ symbols.map Symbol.write, Tidy word := by
  intro word member
  obtain ⟨symbol, present, rfl⟩ := List.mem_map.mp member
  exact Symbol.write_tidy symbol (writable symbol present)

theorem of_row_write (number depth : Nat) (keyword : Keyword) (rest : List Symbol)
    (writable : ∀ symbol ∈ rest, symbol.isWritable = true) :
    ofRow number (Row.write depth ((.keyword keyword :: rest).map Symbol.write)) =
      .ok (some ⟨number, .indent depth :: .keyword keyword :: rest⟩) := by
  have allWritable : ∀ symbol ∈ Symbol.keyword keyword :: rest, symbol.isWritable = true :=
    List.forall_mem_cons.mpr ⟨rfl, writable⟩
  have tidy := written_tidy (.keyword keyword :: rest) allWritable
  obtain ⟨c, first, visible, code⟩ : ∃ c, keyword.lexeme.toList.head? = some c ∧ c ≠ ' ' ∧ c ≠ '#' := by
    cases keyword <;> exact ⟨_, rfl, by decide, by decide⟩
  have nonempty : (Symbol.keyword keyword).write ≠ [] := by cases keyword <;> decide
  have head : (Run.join ((.keyword keyword :: rest).map Symbol.write)).head? = some c := by
    rw [List.map_cons, Run.join_head _ _ nonempty]
    exact first
  have content : Run.join ((.keyword keyword :: rest).map Symbol.write) ≠ [] := by
    intro empty
    rw [empty] at head
    cases head
  have kept : Row.dropReturn (Row.write depth ((.keyword keyword :: rest).map Symbol.write)) =
      Row.write depth ((.keyword keyword :: rest).map Symbol.write) := by
    rw [Row.dropReturn, if_neg]
    rw [Row.write, List.getLast?_append_of_ne_nil _ content]
    exact Run.join_ended _ tidy
  have flush : (Run.join ((.keyword keyword :: rest).map Symbol.write)).head? ≠ some ' ' := by
    rw [head]
    simpa using visible
  have shown : Row.isVoid (Row.write depth ((.keyword keyword :: rest).map Symbol.write)) = false := by
    rw [Row.write, Row.void_indented depth _ flush, List.isEmpty_eq_false_iff.mpr content, Row.isComment, head]
    simp [code]
  have words : Run.words (Row.write depth ((.keyword keyword :: rest).map Symbol.write)) =
      (.keyword keyword :: rest).map Symbol.write := by
    rw [Row.write, Run.words_indented, Run.words_join _ tidy]
  have deep : Row.indent (Row.write depth ((.keyword keyword :: rest).map Symbol.write)) = depth :=
    Row.indent_indented depth _ flush
  simp only [ofRow, kept, shown, words, deep, symbols_of_written _ allWritable, Bool.false_eq_true, if_false]

end Line

end Offside
