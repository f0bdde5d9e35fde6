import Offside.Proofs.Rows
import Offside.Proofs.Writing.Row

set_option autoImplicit false

namespace Offside

namespace Literal

def double (c : Char) : List Char :=
  if c = '\\' then ['\\', '\\']
  else if c = '\'' then ['\\', '\'']
  else if c = '\n' then ['\\', 'n']
  else [c]

def quotation (text : List Char) : List Char := '\'' :: text.flatMap double ++ ['\'']

theorem double_escape (c : Char) (other : c ≠ '\\') : double c = escape c := by
  by_cases apostrophe : c = '\'' <;> simp [double, escape, other, apostrophe]

def unquote (inside : List Char → Option (List Char)) (inner : List Char) : Option (List Char) :=
  (requote inner).bind fun requoted => inside (requoted ++ ['"'])

theorem decode_body (word inner : List Char) (found : body word = some inner) :
    decode word = if inner.getLast? = some '\\' then none else unquote Quoted.inside inner := by
  rw [decode, found]
  rfl

section Reading

variable {inside : List Char → Option (List Char)} (lawful : Quoted.Lawful inside)

include lawful

theorem unquote_nothing : unquote inside [] = some [] := lawful.closed

theorem unquote_escape (c : Char) (rest : List Char) :
    unquote inside (escape c ++ rest) = (unquote inside rest).map (c :: ·) := by
  rw [unquote, unquote, requote_escape]
  cases requote rest with
  | none => rfl
  | some requoted => simp only [Option.map_some, Option.bind_some, List.append_assoc, inside_requoted lawful]

theorem unquote_backslash (rest : List Char) :
    unquote inside ('\\' :: '\\' :: rest) = (unquote inside rest).map ('\\' :: ·) := by
  have paired : requote ('\\' :: '\\' :: rest) = (requote rest).map ('\\' :: '\\' :: ·) := by simp [requote]
  rw [unquote, unquote, paired]
  cases requote rest with
  | none => rfl
  | some requoted => exact lawful.escaped '\\' (requoted ++ ['"']) fun letter => absurd letter (by decide)

theorem unquote_unescaped (c : Char) (rest : List Char) (backslash : c ≠ '\\') :
    unquote inside (c :: rest) = (unquote inside rest).map (c :: ·) := by
  by_cases quote : c = '"'
  · subst quote
    have escaped : requote ('"' :: rest) = (requote rest).map ('\\' :: '"' :: ·) := by simp [requote]
    rw [unquote, unquote, escaped]
    cases requote rest with
    | none => rfl
    | some requoted => exact lawful.escaped '"' (requoted ++ ['"']) fun letter => absurd letter (by decide)
  · have plain : requote (c :: rest) = (requote rest).map (c :: ·) := by
      rw [requote] <;> simp [backslash, quote]
    rw [unquote, unquote, plain]
    cases requote rest with
    | none => rfl
    | some requoted => exact lawful.plain c (requoted ++ ['"']) backslash quote

theorem unquote_double (c : Char) (rest : List Char) :
    unquote inside (double c ++ rest) = (unquote inside rest).map (c :: ·) := by
  by_cases backslash : c = '\\'
  · subst backslash
    exact unquote_backslash lawful rest
  · rw [double_escape c backslash, unquote_escape lawful]

-- The decoder pairs backslashes from the left, and so finds the text again whatever comes behind it.
theorem unquote_doubles (text rest : List Char) :
    unquote inside (text.flatMap double ++ rest) = (unquote inside rest).map (text ++ ·) := by
  induction text with
  | nil => simp
  | cons c more ih =>
      rw [List.flatMap_cons, List.append_assoc, unquote_double lawful, ih, Option.map_map]
      rfl

end Reading

theorem double_ends (c : Char) : ∃ front last, double c = front ++ [last] ∧ (last = '\\' ↔ c = '\\') := by
  by_cases backslash : c = '\\'
  · exact ⟨['\\'], '\\', by simp [double, backslash], by simp [backslash]⟩
  · obtain ⟨front, last, spelled, other⟩ := escape_ends c
    exact ⟨front, last, by rw [double_escape c backslash, spelled], iff_of_false other backslash⟩

theorem doubles_last (text : List Char) : (text.flatMap double).getLast? = some '\\' ↔ text.getLast? = some '\\' := by
  cases text using List.reverseRecOn with
  | nil => rfl
  | append_singleton front c =>
      obtain ⟨start, last, spelled, same⟩ := double_ends c
      rw [List.flatMap_append, List.flatMap_singleton, spelled, ← List.append_assoc, List.getLast?_concat,
        List.getLast?_concat, Option.some.injEq, Option.some.injEq, same]

theorem body_quotation (text : List Char) : body (quotation text) = some (text.flatMap double) := by
  simp [body, quotation]

theorem decode_quotation (text : List Char) : decode (quotation text) = some text ↔ text.getLast? ≠ some '\\' := by
  rw [decode_body _ _ (body_quotation text)]
  by_cases last : text.getLast? = some '\\'
  · rw [if_pos ((doubles_last text).mpr last)]
    simp [last]
  · have inside := unquote_doubles Quoted.inside_lawful text []
    rw [List.append_nil, unquote_nothing Quoted.inside_lawful, Option.map_some, List.append_nil] at inside
    rw [if_neg fun same => last ((doubles_last text).mp same), inside]
    exact iff_of_true rfl last

theorem decode_longer (text more : List Char) : decode (quotation text ++ ' ' :: more) ≠ some text := by
  have spelled : quotation text ++ ' ' :: more = '\'' :: (text.flatMap double ++ '\'' :: ' ' :: more) := by simp [quotation]
  intro same
  rw [spelled] at same
  by_cases closed : (text.flatMap double ++ '\'' :: ' ' :: more).getLast? = some '\''
  · have found : body ('\'' :: (text.flatMap double ++ '\'' :: ' ' :: more)) =
        some (text.flatMap double ++ '\'' :: (' ' :: more).dropLast) := by
      rw [body, if_pos closed, List.dropLast_append_of_ne_nil (List.cons_ne_nil _ _)]
      rfl
    rw [decode_body _ _ found, unquote_doubles Quoted.inside_lawful, unquote_unescaped Quoted.inside_lawful '\'' _ (by decide)] at same
    split at same
    · cases same
    · obtain ⟨behind, found, whole⟩ := Option.map_eq_some_iff.mp same
      obtain ⟨rest, _, rfl⟩ := Option.map_eq_some_iff.mp found
      exact absurd (congrArg List.length whole) (by simp)
  · rw [decode, body, if_neg closed] at same
    cases same

theorem double_inside (c : Char) (behind : Bool) :
    (Quoting.inside behind).Unbroken (double c) ∧ (Quoting.inside behind).after (double c) = .inside (c = '\\') := by
  by_cases backslash : c = '\\'
  · subst backslash
    exact ⟨⟨rfl, rfl, trivial⟩, rfl⟩
  · by_cases apostrophe : c = '\''
    · subst apostrophe
      exact ⟨⟨rfl, rfl, trivial⟩, rfl⟩
    · by_cases feed : c = '\n'
      · subst feed
        exact ⟨⟨rfl, rfl, trivial⟩, rfl⟩
      · simp [double, backslash, apostrophe, feed, Quoting.Unbroken, Quoting.separates, Quoting.after, Quoting.next]

theorem doubles_inside (text : List Char) (behind : Bool) :
    (Quoting.inside behind).Unbroken (text.flatMap double) ∧
      ∃ last, (Quoting.inside behind).after (text.flatMap double) = .inside last := by
  induction text generalizing behind with
  | nil => exact ⟨trivial, behind, rfl⟩
  | cons c more ih =>
      obtain ⟨unbroken, inside⟩ := double_inside c behind
      obtain ⟨others, rest⟩ := ih (c = '\\')
      rw [List.flatMap_cons, Quoting.after_append, inside]
      exact ⟨Quoting.unbroken_append _ _ _ unbroken (inside ▸ others), rest⟩

-- The scan looks one character back only, and so takes the last backslash of a text for the one before an apostrophe.
theorem doubles_after (text : List Char) :
    (Quoting.inside false).after (text.flatMap double) = .inside (text.getLast? = some '\\') := by
  cases text using List.reverseRecOn with
  | nil => rfl
  | append_singleton front c =>
      obtain ⟨_, behind, inside⟩ := doubles_inside front false
      rw [List.flatMap_append, List.flatMap_singleton, Quoting.after_append, inside, (double_inside c behind).2,
        List.getLast?_concat]
      simp

theorem quotation_after (text : List Char) :
    Quoting.outside.after (quotation text) = if text.getLast? = some '\\' then .inside false else .outside := by
  change (Quoting.inside false).after (text.flatMap double ++ ['\'']) = _
  rw [Quoting.after_append, doubles_after]
  by_cases last : text.getLast? = some '\\' <;> simp [last, Quoting.after, Quoting.next]

theorem quotation_unbroken (text : List Char) : Quoting.outside.Unbroken (quotation text) := by
  obtain ⟨unbroken, last, inside⟩ := doubles_inside text false
  refine ⟨rfl, Quoting.unbroken_append _ _ _ unbroken ?_⟩
  change ((Quoting.inside false).after (text.flatMap double)).Unbroken ['\'']
  rw [inside]
  exact ⟨rfl, trivial⟩

theorem double_one_row (c : Char) : '\n' ∉ double c := by
  by_cases backslash : c = '\\'
  · simp [double, backslash]
  · rw [double_escape c backslash]
    exact escape_one_row c

theorem quotation_one_row (text : List Char) : '\n' ∉ quotation text := by simp [quotation, double_one_row]

theorem quotation_last (text : List Char) : (quotation text).getLast? = some '\'' := by
  rw [quotation, List.getLast?_concat]

theorem quotation_nonempty (text : List Char) : quotation text ≠ [] := List.cons_ne_nil _ _

theorem quotation_tidy (text : List Char) (free : text.getLast? ≠ some '\\') : Tidy (quotation text) := by
  refine ⟨quotation_nonempty text, quotation_unbroken text, ?_, quotation_one_row text, ?_⟩
  · rw [quotation_after, if_neg free]
  · rw [quotation_last]
    decide

end Literal

namespace Symbol

theorem of_literal_text (word : List Char) (value : String) :
    ofLiteral word = .ok (.text value) ↔ Literal.decode word = some value.toList := by
  rw [ofLiteral]
  cases Literal.decode word with
  | none =>
      constructor
      · intro same
        cases same
      · intro same
        cases same
  | some text =>
      simp only [Except.ok.injEq, Symbol.text.injEq, Option.some.injEq]
      exact ⟨fun same => by rw [← same, String.toList_ofList], fun same => by rw [same, String.ofList_toList]⟩

theorem of_word_quotation (text more : List Char) (value : String) :
    ofWord (Literal.quotation text ++ more) = .ok (.text value) ↔
      Literal.decode (Literal.quotation text ++ more) = some value.toList := by
  rw [← of_literal_text]
  exact iff_of_eq (congrArg (· = _) (of_word_marked '\'' _ (by decide)))

end Symbol

namespace Line

theorem symbols_cons (word : List Char) (words : List (List Char)) (symbol : Symbol) (symbols : List Symbol) :
    symbolsOfWords (word :: words) = .ok (symbol :: symbols) ↔
      Symbol.ofWord word = .ok symbol ∧ symbolsOfWords words = .ok symbols := by
  rw [symbols_of_words, symbols_of_words, List.forall₂_cons]

def sum (texts : List (List Char)) : List Char := [' ', '+', ' '].intercalate (texts.map Literal.quotation)

theorem sum_cons (text next : List Char) (more : List (List Char)) :
    sum (text :: next :: more) = Literal.quotation text ++ ' ' :: (['+'] ++ ' ' :: sum (next :: more)) := by
  simp [sum, List.intercalate_cons_cons]

theorem sum_singleton (text : List Char) : sum [text] = Literal.quotation text := by simp [sum]

theorem sum_one_row (texts : List (List Char)) : '\n' ∉ sum texts := by
  induction texts with
  | nil => simp [sum]
  | cons text more ih =>
      cases more with
      | nil =>
          rw [sum_singleton]
          exact Literal.quotation_one_row text
      | cons next others =>
          rw [sum_cons]
          simp [Literal.quotation_one_row text, ih]

theorem sum_last (text : List Char) (more : List (List Char)) : (sum (text :: more)).getLast? = some '\'' := by
  induction more generalizing text with
  | nil => rw [sum_singleton, Literal.quotation_last]
  | cons next others ih =>
      have nonempty : sum (next :: others) ≠ [] := by
        intro empty
        have last := ih next
        rw [empty] at last
        cases last
      rw [sum_cons, ← List.cons_append, ← List.append_assoc, List.getLast?_append_of_ne_nil _ (List.cons_ne_nil _ _),
        List.getLast?_cons_of_ne_nil nonempty, ih next]

theorem words_longer (text rest : List Char) (last : text.getLast? = some '\\') :
    ∃ more others, Run.words (Literal.quotation text ++ ' ' :: rest) = (Literal.quotation text ++ ' ' :: more) :: others := by
  have unbroken : Quoting.outside.Unbroken (Literal.quotation text ++ [' ']) := by
    refine Quoting.unbroken_append _ _ _ (Literal.quotation_unbroken text) ?_
    rw [Literal.quotation_after, if_pos last]
    exact ⟨rfl, trivial⟩
  have nonempty : Literal.quotation text ++ [' '] ≠ [] := List.append_ne_nil_of_right_ne_nil _ (List.cons_ne_nil _ _)
  obtain ⟨more, others, words⟩ := Run.words_begin _ rest nonempty unbroken
  rw [List.append_assoc, List.append_assoc] at words
  exact ⟨more, others, words⟩

theorem sum_symbols (first : String) (more : List String) :
    symbolsOfWords (Run.words (sum ((first :: more).map String.toList))) =
        .ok (((first :: more).map Symbol.text).intersperse (.operator .plus)) ↔
      ∀ text ∈ first :: more, text.toList.getLast? ≠ some '\\' := by
  induction more generalizing first with
  | nil =>
      have word := Run.words_unbroken _ (Literal.quotation_nonempty first.toList) (Literal.quotation_unbroken first.toList)
      have read := Symbol.of_word_quotation first.toList [] first
      rw [List.append_nil, Literal.decode_quotation] at read
      rw [List.map_singleton, sum_singleton, word, List.map_singleton, List.intersperse_singleton, symbols_cons, read,
        List.forall_mem_singleton]
      exact and_iff_left rfl
  | cons next others ih =>
      rw [List.map_cons, List.map_cons, sum_cons, List.map_cons, List.map_cons, List.intersperse_cons_cons,
        List.forall_mem_cons]
      by_cases last : first.toList.getLast? = some '\\'
      · obtain ⟨text, more, words⟩ := words_longer first.toList (['+'] ++ ' ' :: sum (next.toList :: others.map String.toList)) last
        rw [words, symbols_cons, Symbol.of_word_quotation]
        exact iff_of_false (fun both => Literal.decode_longer _ _ both.1) (fun both => both.1 last)
      · have plus : Tidy ['+'] := ordinary_tidy _ (List.cons_ne_nil _ _) (by simp [isOrdinary])
        have operator : Symbol.ofWord ['+'] = .ok (.operator .plus) := by with_unfolding_all rfl
        have read := Symbol.of_word_quotation first.toList [] first
        have rest := ih next
        rw [List.append_nil, Literal.decode_quotation] at read
        rw [List.map_cons, List.map_cons] at rest
        rw [Run.words_cons _ _ (Literal.quotation_tidy first.toList last), Run.words_cons _ _ plus, symbols_cons, symbols_cons,
          read, operator, rest]
        exact and_congr_right fun _ => and_iff_right rfl

theorem of_row_log (number : Nat) (content : List Char) (nonempty : content ≠ []) (ended : content.getLast? ≠ some '\r') :
    ofRow number (['l', 'o', 'g', ' '] ++ content) =
      match symbolsOfWords (Run.words content) with
      | .ok symbols => .ok (some ⟨number, .indent 0 :: .keyword .log :: symbols⟩)
      | .error cause => .error (.word number cause) := by
  have tidy : Tidy ['l', 'o', 'g'] := ordinary_tidy _ (List.cons_ne_nil _ _) (by simp [isOrdinary])
  have keyword : Symbol.ofWord ['l', 'o', 'g'] = .ok (.keyword .log) := by with_unfolding_all rfl
  have kept : Row.dropReturn (['l', 'o', 'g', ' '] ++ content) = ['l', 'o', 'g', ' '] ++ content := by
    rw [Row.dropReturn, List.getLast?_append_of_ne_nil _ nonempty, if_neg ended]
  have words : Run.words (['l', 'o', 'g', ' '] ++ content) = ['l', 'o', 'g'] :: Run.words content :=
    Run.words_cons ['l', 'o', 'g'] content tidy
  have shown : Row.isVoid (['l', 'o', 'g', ' '] ++ content) = false := by simp [Row.isVoid, Row.isComment, Row.isSpace]
  rw [ofRow, kept, words, shown, symbolsOfWords, List.mapM_cons, keyword]
  change _ = match (Run.words content).mapM Symbol.ofWord with | .ok symbols => _ | .error cause => _
  cases (Run.words content).mapM Symbol.ofWord <;> rfl

def summed (texts : List String) : String :=
  "log " ++ " + ".intercalate (texts.map fun text => String.ofList (Literal.quotation text.toList))

theorem summed_sum (texts : List String) : (summed texts).toList = ['l', 'o', 'g', ' '] ++ sum (texts.map String.toList) := by
  simp [summed, sum, String.toList_intercalate, Function.comp_def]

/-- Texts are read as they were quoted exactly if none of them ends in a backslash: that one would stand before the
closing apostrophe, which then does not close. -/
theorem of_source_summed (first : String) (more : List String) :
    ofSource (summed (first :: more)) =
        .ok [⟨1, .indent 0 :: .keyword .log :: ((first :: more).map Symbol.text).intersperse (.operator .plus)⟩] ↔
      ∀ text ∈ first :: more, text.toList.getLast? ≠ some '\\' := by
  have nonempty : sum ((first :: more).map String.toList) ≠ [] := by
    intro empty
    have last := sum_last first.toList (more.map String.toList)
    rw [← List.map_cons, empty] at last
    cases last
  have ended : (sum ((first :: more).map String.toList)).getLast? ≠ some '\r' := by
    rw [List.map_cons, sum_last]
    decide
  have oneRow : '\n' ∉ ['l', 'o', 'g', ' '] ++ sum ((first :: more).map String.toList) := by simp [sum_one_row]
  rw [← sum_symbols, ofSource, summed_sum, Row.cut_one_row _ oneRow, of_rows_cons, of_row_log 1 _ nonempty ended]
  cases symbolsOfWords (Run.words (sum ((first :: more).map String.toList))) with
  | error cause =>
      constructor
      · intro same
        cases same
      · intro same
        cases same
  | ok symbols =>
      change Except.ok [_] = _ ↔ _
      simp

theorem of_source_summed_unclosed :
    summed ["\\"] = "log '\\\\'" ∧ ofSource (summed ["\\"]) = .error (.word 1 (.malformedText "'\\\\'")) ∧
      ofSource (summed ["\\"]) ≠ .ok [⟨1, [.indent 0, .keyword .log, .text "\\"]⟩] := by
  have failed : ofSource (summed ["\\"]) = .error (.word 1 (.malformedText "'\\\\'")) := by with_unfolding_all rfl
  refine ⟨by with_unfolding_all rfl, failed, ?_⟩
  rw [failed]
  intro same
  cases same

end Line

end Offside
