import Offside.Proofs.Writing.Literal
import Offside.Symbol.Lexer
import Offside.Text.Run

set_option autoImplicit false

namespace Offside

namespace Quoting

def after (quoting : Quoting) (text : List Char) : Quoting := text.foldl next quoting

def Unbroken : Quoting → List Char → Prop
  | _, [] => True
  | quoting, c :: rest => quoting.separates c = false ∧ Unbroken (quoting.next c) rest

theorem separates_iff (quoting : Quoting) (c : Char) : quoting.separates c = true ↔ quoting = .outside ∧ c = ' ' := by
  cases quoting <;> simp [separates]

theorem after_append (quoting : Quoting) (front back : List Char) :
    quoting.after (front ++ back) = (quoting.after front).after back := List.foldl_append

theorem unbroken_append (quoting : Quoting) (front back : List Char) (first : quoting.Unbroken front)
    (second : (quoting.after front).Unbroken back) : quoting.Unbroken (front ++ back) := by
  induction front generalizing quoting with
  | nil => exact second
  | cons c rest ih => exact ⟨first.1, ih (quoting.next c) first.2 second⟩

end Quoting

def isOrdinary (c : Char) : Bool := c ≠ ' ' ∧ c ≠ '\'' ∧ c ≠ '\n' ∧ c ≠ '\r'

structure Tidy (word : List Char) : Prop where
  nonempty : word ≠ []
  unbroken : Quoting.outside.Unbroken word
  closed : Quoting.outside.after word = .outside
  oneRow : '\n' ∉ word
  ended : word.getLast? ≠ some '\r'

theorem ordinary_outside (word : List Char) (ordinary : ∀ c ∈ word, isOrdinary c) :
    Quoting.outside.Unbroken word ∧ Quoting.outside.after word = .outside := by
  induction word with
  | nil => exact ⟨trivial, rfl⟩
  | cons c rest ih =>
      obtain ⟨here, others⟩ := List.forall_mem_cons.mp ordinary
      obtain ⟨space, apostrophe, _, _⟩ : c ≠ ' ' ∧ c ≠ '\'' ∧ c ≠ '\n' ∧ c ≠ '\r' := by simpa [isOrdinary] using here
      have stays : Quoting.outside.next c = .outside := if_neg apostrophe
      obtain ⟨unbroken, closed⟩ := ih others
      refine ⟨⟨by simpa [Quoting.separates] using space, by rwa [stays]⟩, ?_⟩
      rw [Quoting.after, List.foldl_cons, stays]
      exact closed

theorem ordinary_tidy (word : List Char) (nonempty : word ≠ []) (ordinary : ∀ c ∈ word, isOrdinary c) : Tidy word := by
  obtain ⟨unbroken, closed⟩ := ordinary_outside word ordinary
  refine ⟨nonempty, unbroken, closed, ?_, ?_⟩
  · intro feed
    exact absurd (ordinary '\n' feed) (by decide)
  · intro last
    exact absurd (ordinary '\r' (List.mem_of_getLast? last)) (by decide)

namespace Literal

theorem escape_inside (c : Char) : (Quoting.inside false).after (escape c) = .inside false := by
  by_cases apostrophe : c = '\''
  · subst apostrophe
    rfl
  · by_cases backslash : c = '\\'
    · subst backslash
      rfl
    · by_cases feed : c = '\n'
      · subst feed
        rfl
      · simp [escape, apostrophe, backslash, feed, Quoting.after, Quoting.next]

theorem escape_unbroken (c : Char) : (Quoting.inside false).Unbroken (escape c) := by
  by_cases apostrophe : c = '\''
  · subst apostrophe
    exact ⟨rfl, rfl, trivial⟩
  · by_cases backslash : c = '\\'
    · subst backslash
      exact ⟨rfl, rfl, rfl, rfl, rfl, rfl, trivial⟩
    · by_cases feed : c = '\n'
      · subst feed
        exact ⟨rfl, rfl, trivial⟩
      · simp [escape, apostrophe, backslash, feed, Quoting.Unbroken, Quoting.separates]

theorem escapes_inside (text : List Char) :
    (Quoting.inside false).Unbroken (text.flatMap escape) ∧
      (Quoting.inside false).after (text.flatMap escape) = .inside false := by
  induction text with
  | nil => exact ⟨trivial, rfl⟩
  | cons c rest ih =>
      rw [List.flatMap_cons, Quoting.after_append, escape_inside]
      exact ⟨Quoting.unbroken_append _ _ _ (escape_unbroken c) (by rw [escape_inside]; exact ih.1), ih.2⟩

theorem escape_one_row (c : Char) : '\n' ∉ escape c := by
  by_cases apostrophe : c = '\''
  · simp [escape, apostrophe]
  · by_cases backslash : c = '\\'
    · simp [escape, backslash]
    · by_cases feed : c = '\n'
      · simp [escape, feed]
      · simp [escape, apostrophe, backslash, feed, Ne.symm feed]

theorem write_tidy (text : List Char) : Tidy (write text) := by
  obtain ⟨unbroken, inside⟩ := escapes_inside text
  have opened : Quoting.outside.next '\'' = .inside false := rfl
  refine ⟨by simp [write], ?_, ?_, ?_, ?_⟩
  · refine ⟨rfl, Quoting.unbroken_append _ _ _ ?_ ?_⟩
    · rw [opened]
      exact unbroken
    · rw [opened, inside]
      exact ⟨rfl, trivial⟩
  · change (Quoting.inside false).after (text.flatMap escape ++ ['\'']) = .outside
    rw [Quoting.after_append, inside]
    rfl
  · simp [write, escape_one_row]
  · rw [write, List.getLast?_concat]
    decide

end Literal

namespace Numeral

theorem digit_ordinary (value : Nat) (bounded : value < 10) : isOrdinary (digitChar value) = true := by
  have checked : ∀ value ∈ List.range 10, isOrdinary (digitChar value) = true := by decide
  exact checked value (List.mem_range.mpr bounded)

theorem digits_ordinary (value : Nat) : ∀ c ∈ digits 10 value, isOrdinary c := by
  induction value using Nat.strongRecOn with
  | ind value ih =>
      intro c member
      rw [digits] at member
      split at member
      · next small =>
          rw [List.mem_singleton.mp member]
          exact digit_ordinary value (by omega)
      · next large =>
          rcases List.mem_append.mp member with front | last
          · exact ih (value / 10) (Nat.div_lt_self (by omega) (by omega)) c front
          · rw [List.mem_singleton.mp last]
            exact digit_ordinary (value % 10) (Nat.mod_lt _ (by omega))

theorem of_integer_tidy (value : Int64) : Tidy (ofInteger value) := by
  rw [ofInteger]
  cases value.toInt with
  | ofNat size => exact ordinary_tidy _ (digits_ne_nil 10 size) (digits_ordinary size)
  | negSucc size =>
      refine ordinary_tidy _ (List.cons_ne_nil _ _) (List.forall_mem_cons.mpr ⟨by decide, ?_⟩)
      exact digits_ordinary (size + 1)

end Numeral

namespace Symbol

def write : Symbol → List Char
  | .indent depth => List.replicate depth ' '
  | .keyword known => known.lexeme.toList
  | .text value => Literal.write value.toList
  | .integer value => Numeral.ofInteger value
  | .boolean true => "?true".toList
  | .boolean false => "?false".toList
  | .var name => ':' :: name.toList
  | .program name => '$' :: name.toList
  | .cell index => '[' :: write index ++ [']']
  | .operator known => known.lexeme.toList

def isWritable : Symbol → Bool
  | .indent _ => false
  | .var name | .program name => name.toList.all isOrdinary
  | .cell index => isWritable index
  | .keyword _ | .text _ | .integer _ | .boolean _ | .operator _ => true

theorem name_tidy (mark : Char) (name : String) (markOrdinary : isOrdinary mark = true)
    (ordinary : name.toList.all isOrdinary = true) : Tidy (mark :: name.toList) :=
  ordinary_tidy _ (List.cons_ne_nil _ _) (List.forall_mem_cons.mpr ⟨markOrdinary, List.all_eq_true.mp ordinary⟩)

theorem cell_tidy (word : List Char) (tidy : Tidy word) : Tidy ('[' :: word ++ [']']) := by
  refine ⟨List.cons_ne_nil _ _, ?_, ?_, ?_, ?_⟩
  · refine ⟨rfl, Quoting.unbroken_append _ _ _ tidy.unbroken ?_⟩
    change (Quoting.outside.after word).Unbroken [']']
    rw [tidy.closed]
    exact ⟨rfl, trivial⟩
  · change Quoting.outside.after (word ++ [']']) = .outside
    rw [Quoting.after_append, tidy.closed]
    rfl
  · simp [tidy.oneRow]
  · rw [List.getLast?_concat]
    decide

theorem write_tidy (symbol : Symbol) (writable : symbol.isWritable = true) : Tidy symbol.write := by
  induction symbol with
  | indent depth => cases writable
  | keyword known => cases known <;> exact ordinary_tidy _ (by decide) (List.all_eq_true.mp (by decide))
  | text value => exact Literal.write_tidy value.toList
  | integer value => exact Numeral.of_integer_tidy value
  | boolean value => cases value <;> exact ordinary_tidy _ (by decide) (List.all_eq_true.mp (by decide))
  | var name => exact name_tidy ':' name (by decide) writable
  | program name => exact name_tidy '$' name (by decide) writable
  | cell index ih => exact cell_tidy index.write (ih writable)
  | operator known => cases known <;> exact ordinary_tidy _ (by decide) (List.all_eq_true.mp (by decide))

def marks : List Char := [':', '$', '?', '\'', '[']

theorem keyword_unmarked (mark : Char) (rest : List Char) (known : mark ∈ marks) :
    Keyword.ofLexeme (mark :: rest) = none := by
  cases found : Keyword.ofLexeme (mark :: rest) with
  | none => rfl
  | some keyword =>
      have first := congrArg List.head? (Keyword.lexeme_of_found _ keyword found)
      rw [List.head?_cons] at first
      have unmarked : (marks.all fun mark => decide (keyword.lexeme.toList.head? ≠ some mark)) = true := by
        cases keyword <;> decide
      exact absurd first (of_decide_eq_true (List.all_eq_true.mp unmarked mark known))

theorem operator_unmarked (mark : Char) (rest : List Char) (known : mark ∈ marks) :
    Operator.ofLexeme (mark :: rest) = none := by
  cases found : Operator.ofLexeme (mark :: rest) with
  | none => rfl
  | some operator =>
      have first := congrArg List.head? (Operator.lexeme_of_found _ operator found)
      rw [List.head?_cons] at first
      have unmarked : (marks.all fun mark => decide (operator.lexeme.toList.head? ≠ some mark)) = true := by
        cases operator <;> decide
      exact absurd first (of_decide_eq_true (List.all_eq_true.mp unmarked mark known))

theorem of_word_eq (word : List Char) :
    ofWord word =
      match Keyword.ofLexeme word, Operator.ofLexeme word with
      | some known, _ => .ok (.keyword known)
      | none, some known => .ok (.operator known)
      | none, none =>
          match bracketed word with
          | some inner => (ofWord inner).map .cell
          | none => ofMarked word := by
  rw [ofWord.eq_def]
  cases Keyword.ofLexeme word with
  | some known => rfl
  | none =>
      cases Operator.ofLexeme word with
      | some known => rfl
      | none =>
          dsimp only
          split <;> rename_i found <;> rw [found]

theorem of_word_marked (mark : Char) (rest : List Char) (known : mark ∈ marks) :
    ofWord (mark :: rest) =
      match bracketed (mark :: rest) with
      | some inner => (ofWord inner).map .cell
      | none => ofMarked (mark :: rest) := by
  rw [of_word_eq, keyword_unmarked mark rest known, operator_unmarked mark rest known]

theorem bracketed_word (word inner : List Char) (found : bracketed word = some inner) : word = '[' :: (inner ++ [']']) := by
  unfold bracketed at found
  split at found
  · split at found
    · next closed =>
        obtain ⟨front, rfl⟩ := List.getLast?_eq_some_iff.mp closed
        cases found
        rw [List.dropLast_concat]
    · cases found
  · cases found

section

variable {motive : List Char → Symbol → Prop}
  (var : ∀ name, motive (':' :: name) (.var (String.ofList name)))
  (program : ∀ name, motive ('$' :: name) (.program (String.ofList name)))
  (boolean : ∀ flag value, motive ('?' :: flag) (.boolean value))
  (text : ∀ word value, Literal.decode word = some value → motive word (.text (String.ofList value)))
  (integer : ∀ word value, Numeral.integer word = some value → motive word (.integer value))

include var program boolean text integer

theorem marked_reading (word : List Char) (symbol : Symbol) (read : ofMarked word = .ok symbol) : motive word symbol := by
  unfold ofMarked at read
  split at read
  · next name =>
      cases read
      exact var name
  · next name =>
      cases read
      exact program name
  · next flag =>
      unfold ofFlag at read
      split at read
      · cases read
        exact boolean flag true
      · split at read
        · cases read
          exact boolean flag false
        · cases read
  · unfold ofLiteral at read
    split at read
    · next value decoded =>
        cases read
        exact text _ value decoded
    · cases read
  · unfold ofNumeral at read
    split at read
    · next value numeral =>
        cases read
        exact integer word value numeral
    · cases read

-- The words that are symbols, one case for each way to be one.
theorem reading (keyword : ∀ known : Keyword, motive known.lexeme.toList (.keyword known))
    (operator : ∀ known : Operator, motive known.lexeme.toList (.operator known))
    (cell : ∀ inner index, motive inner index → motive ('[' :: (inner ++ [']'])) (.cell index))
    (word : List Char) (symbol : Symbol) (read : ofWord word = .ok symbol) : motive word symbol := by
  induction size : word.length using Nat.strongRecOn generalizing word symbol with
  | ind length ih =>
      rw [of_word_eq] at read
      split at read
      · next known found =>
          cases read
          rw [← Keyword.lexeme_of_found word known found]
          exact keyword known
      · next known _ found =>
          cases read
          rw [← Operator.lexeme_of_found word known found]
          exact operator known
      · split at read
        · next inner enclosed =>
            cases within : ofWord inner with
            | error cause =>
                rw [within] at read
                cases read
            | ok index =>
                rw [within] at read
                cases read
                have shorter := size ▸ bracketed_shorter word inner enclosed
                rw [bracketed_word word inner enclosed]
                exact cell inner index (ih _ shorter inner index within rfl)
        · exact marked_reading var program boolean text integer word symbol read

end

theorem integer_unmarked (mark : Char) (rest : List Char) (known : mark ∈ marks) :
    Numeral.integer (mark :: rest) = none := by
  simp only [marks, List.mem_cons, List.not_mem_nil, or_false] at known
  rcases known with rfl | rfl | rfl | rfl | rfl <;> rfl

theorem of_word_integer (word : List Char) (value : Int64) (read : Numeral.integer word = some value) :
    ofWord word = .ok (.integer value) := by
  have noKeyword : Keyword.ofLexeme word = none := by
    cases found : Keyword.ofLexeme word with
    | none => rfl
    | some keyword =>
        rw [← Keyword.lexeme_of_found word keyword found] at read
        cases keyword <;> cases read
  have noOperator : Operator.ofLexeme word = none := by
    cases found : Operator.ofLexeme word with
    | none => rfl
    | some operator =>
        rw [← Operator.lexeme_of_found word operator found] at read
        cases operator <;> cases read
  have unmarked : ∀ mark rest, mark ∈ marks → word ≠ mark :: rest := by
    intro mark rest known same
    rw [same, integer_unmarked mark rest known] at read
    cases read
  have unbracketed : bracketed word = none := by
    unfold bracketed
    split
    · next rest => exact absurd rfl (unmarked '[' rest (by decide))
    · rfl
  have numeral : ofMarked word = ofNumeral word := by
    unfold ofMarked
    split
    · next rest => exact absurd rfl (unmarked ':' rest (by decide))
    · next rest => exact absurd rfl (unmarked '$' rest (by decide))
    · next rest => exact absurd rfl (unmarked '?' rest (by decide))
    · next rest => exact absurd rfl (unmarked '\'' rest (by decide))
    · rfl
  rw [of_word_eq, noKeyword, noOperator, unbracketed, numeral, ofNumeral, read]

theorem of_word_write (symbol : Symbol) (writable : symbol.isWritable = true) : ofWord symbol.write = .ok symbol := by
  induction symbol with
  | indent depth => cases writable
  | keyword known =>
      change ofWord known.lexeme.toList = _
      rw [of_word_eq, Keyword.of_lexeme_lexeme]
  | operator known =>
      have noKeyword : Keyword.ofLexeme known.lexeme.toList = none := by cases known <;> decide
      change ofWord known.lexeme.toList = _
      rw [of_word_eq, noKeyword, Operator.of_lexeme_lexeme]
  | text value =>
      change ofWord ('\'' :: (value.toList.flatMap Literal.escape ++ ['\''])) = _
      rw [of_word_marked '\'' _ (by decide)]
      change ofLiteral (Literal.write value.toList) = _
      rw [ofLiteral, Literal.decode_write]
      simp only [String.ofList_toList]
  | integer value => exact of_word_integer _ value (Numeral.integer_of_integer value)
  | boolean value => cases value <;> with_unfolding_all rfl
  | var name =>
      change ofWord (':' :: name.toList) = _
      rw [of_word_marked ':' _ (by decide)]
      simp [bracketed, ofMarked]
  | program name =>
      change ofWord ('$' :: name.toList) = _
      rw [of_word_marked '$' _ (by decide)]
      simp [bracketed, ofMarked]
  | cell index ih =>
      change ofWord ('[' :: (index.write ++ [']'])) = _
      rw [of_word_marked '[' _ (by decide)]
      simp [bracketed, ih writable, Except.map]

end Symbol

end Offside
