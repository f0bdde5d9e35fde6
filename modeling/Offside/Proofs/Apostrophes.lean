import Offside.Proofs.Rows
import Offside.Proofs.Writing.Word

set_option autoImplicit false

namespace Offside

theorem Quoting.unbroken_front (quoting : Quoting) (front back : List Char) (unbroken : quoting.Unbroken (front ++ back)) :
    quoting.Unbroken front := by
  induction front generalizing quoting with
  | nil => trivial
  | cons c rest ih => exact ⟨unbroken.1, ih (quoting.next c) unbroken.2⟩

theorem Quoting.separates_next (quoting : Quoting) (c : Char) (separates : quoting.separates c = true) :
    quoting.next c = .outside := by
  obtain ⟨rfl, rfl⟩ := (quoting.separates_iff c).mp separates
  rfl

namespace Run

theorem attach_word (separating : Bool) (c : Char) (runs front back : List Run) (word : List Char)
    (attached : attach separating c runs = front ++ .word word :: back) :
    (front = [] ∧ separating = false ∧ (word = [c] ∨ ∃ text, word = c :: text ∧ runs = .word text :: back)) ∨
      front ≠ [] ∧ ∃ earlier, runs = earlier ++ .word word :: back ∧ (earlier = [] → separating = true) := by
  cases front with
  | nil =>
      left
      cases runs with
      | nil =>
          cases separating <;> cases attached
          exact ⟨rfl, rfl, .inl rfl⟩
      | cons run more =>
          cases run with
          | gap text =>
              cases separating <;> cases attached
              exact ⟨rfl, rfl, .inl rfl⟩
          | word text =>
              cases separating <;> cases attached
              exact ⟨rfl, rfl, .inr ⟨text, rfl, rfl⟩⟩
  | cons first others =>
      refine .inr ⟨List.cons_ne_nil first others, ?_⟩
      cases runs with
      | nil => cases separating <;> simp [attach] at attached
      | cons run more =>
          cases run with
          | gap text =>
              cases separating with
              | true =>
                  obtain ⟨_, rfl⟩ := List.cons.inj attached
                  exact ⟨.gap text :: others, rfl, fun _ => rfl⟩
              | false =>
                  obtain ⟨_, same⟩ := List.cons.inj attached
                  refine ⟨others, same, ?_⟩
                  rintro rfl
                  cases same
          | word text =>
              cases separating with
              | true =>
                  obtain ⟨_, same⟩ := List.cons.inj attached
                  exact ⟨others, same, fun _ => rfl⟩
              | false =>
                  obtain ⟨_, rfl⟩ := List.cons.inj attached
                  exact ⟨.word text :: others, rfl, fun empty => absurd empty (List.cons_ne_nil _ _)⟩

theorem scan_unbroken (quoting : Quoting) (row word : List Char) (front back : List Run)
    (scanned : scan quoting row = front ++ .word word :: back) :
    (if front = [] then quoting else .outside).Unbroken word := by
  induction row generalizing quoting word front with
  | nil => cases front <;> cases scanned
  | cons c rest ih =>
      rcases attach_word _ c _ front back word scanned with
        ⟨rfl, joined, rfl | ⟨text, rfl, runs⟩⟩ | ⟨later, earlier, runs, begins⟩
      · exact ⟨joined, trivial⟩
      · exact ⟨joined, ih (quoting.next c) text [] runs⟩
      · have unbroken := ih (quoting.next c) word earlier runs
        rw [if_neg later]
        by_cases first : earlier = []
        · have outside : quoting.next c = .outside := Quoting.separates_next quoting c (begins first)
          rwa [outside, ite_self] at unbroken
        · rwa [if_neg first] at unbroken

theorem unbroken_word (row word : List Char) (member : word ∈ words row) : Quoting.outside.Unbroken word := by
  obtain ⟨run, present, same⟩ := List.mem_filterMap.mp member
  cases run with
  | gap text => cases same
  | word text =>
      cases same
      obtain ⟨front, back, scanned⟩ := List.append_of_mem present
      have unbroken := scan_unbroken .outside row word front back scanned
      rwa [ite_self] at unbroken

end Run

namespace Literal

def Guarded (text : List Char) : Prop := ∀ front back, text = front ++ '\'' :: back → front.getLast? = some '\\'

mutual

-- A text in which spaces stand within quotations only. A quotation opens at any apostrophe outside of one.
inductive Sheltered : List Char → Prop where
  | plain (text : List Char) (free : ∀ c ∈ text, c ≠ ' ' ∧ c ≠ '\'') : Sheltered text
  | quoted (plain rest : List Char) (free : ∀ c ∈ plain, c ≠ ' ' ∧ c ≠ '\'') (continued : Continued rest) :
      Sheltered (plain ++ '\'' :: rest)

-- The text behind the apostrophe that opens a quotation. This closes at the first apostrophe that no backslash stands
-- right before, or not at all.
inductive Continued : List Char → Prop where
  | unclosed (inside : List Char) (guarded : Guarded inside) : Continued inside
  | closed (inside rest : List Char) (guarded : Guarded inside) (ended : inside.getLast? ≠ some '\\')
      (sheltered : Sheltered rest) : Continued (inside ++ '\'' :: rest)

end

theorem guarded_nil : Guarded [] := by
  intro front back same
  cases front <;> cases same

theorem guarded_snoc (text : List Char) (c : Char) (guarded : Guarded text) (kept : c = '\'' → text.getLast? = some '\\') :
    Guarded (text ++ [c]) := by
  intro front back same
  cases back using List.reverseRecOn with
  | nil =>
      obtain ⟨rfl, last⟩ := List.append_inj' same rfl
      exact kept (List.cons.inj last).1
  | append_singleton others last =>
      rw [← List.cons_append, ← List.append_assoc] at same
      exact guarded front others (List.append_inj' same rfl).1

theorem next_closes (inside : List Char) (ended : inside.getLast? ≠ some '\\') :
    (Quoting.inside (inside.getLast? = some '\\')).next '\'' = .outside := by simp [Quoting.next, ended]

theorem next_stays (inside : List Char) (c : Char) (kept : c = '\'' → inside.getLast? = some '\\') :
    (Quoting.inside (inside.getLast? = some '\\')).next c = .inside ((inside ++ [c]).getLast? = some '\\') := by
  by_cases apostrophe : c = '\'' <;> simp [Quoting.next, apostrophe, kept]

theorem unbroken_sheltered (text : List Char) :
    (∀ plain, (∀ c ∈ plain, c ≠ ' ' ∧ c ≠ '\'') → Quoting.outside.Unbroken text → Sheltered (plain ++ text)) ∧
      ∀ inside, Guarded inside → (Quoting.inside (inside.getLast? = some '\\')).Unbroken text →
        Continued (inside ++ text) := by
  induction text with
  | nil =>
      refine ⟨fun plain free _ => ?_, fun inside guarded _ => ?_⟩
      · rw [List.append_nil]
        exact .plain plain free
      · rw [List.append_nil]
        exact .unclosed inside guarded
  | cons c rest ih =>
      obtain ⟨outside, within⟩ := ih
      refine ⟨fun plain free unbroken => ?_, fun inside guarded unbroken => ?_⟩
      · have visible : c ≠ ' ' := by simpa [Quoting.separates] using unbroken.1
        by_cases apostrophe : c = '\''
        · subst apostrophe
          exact .quoted plain rest free (within [] guarded_nil unbroken.2)
        · have stays : Quoting.outside.next c = .outside := if_neg apostrophe
          have longer : ∀ d ∈ plain ++ [c], d ≠ ' ' ∧ d ≠ '\'' :=
            List.forall_mem_append.mpr ⟨free, List.forall_mem_singleton.mpr ⟨visible, apostrophe⟩⟩
          have sheltered := outside (plain ++ [c]) longer (stays ▸ unbroken.2)
          rwa [List.append_assoc, List.singleton_append] at sheltered
      · by_cases closes : c = '\'' ∧ inside.getLast? ≠ some '\\'
        · obtain ⟨rfl, ended⟩ := closes
          have leaves := next_closes inside ended
          exact .closed inside rest guarded ended (outside [] (List.forall_mem_nil _) (leaves ▸ unbroken.2))
        · have kept : c = '\'' → inside.getLast? = some '\\' := by
            intro apostrophe
            by_contra ended
            exact closes ⟨apostrophe, ended⟩
          have stays := next_stays inside c kept
          have continued := within (inside ++ [c]) (guarded_snoc inside c guarded kept) (stays ▸ unbroken.2)
          rwa [List.append_assoc, List.singleton_append] at continued

theorem decode_closed (word value : List Char) (read : decode word = some value) :
    ∃ body, word = '\'' :: (body ++ ['\'']) ∧ body.getLast? ≠ some '\\' := by
  unfold decode at read
  split at read
  · next inner found =>
      split at read
      · cases read
      · next closed =>
          unfold body at found
          split at found
          · split at found
            · next last =>
                obtain ⟨front, rfl⟩ := List.getLast?_eq_some_iff.mp last
                cases found
                rw [List.dropLast_concat] at closed
                exact ⟨front, rfl, closed⟩
            · cases found
          · cases found
  · cases read

end Literal

namespace Symbol

def innermost : Symbol → Symbol
  | .cell index => index.innermost
  | symbol => symbol

def nesting : Symbol → Nat
  | .cell index => index.nesting + 1
  | _ => 0

def enclose (depth : Nat) (text : List Char) : List Char := List.replicate depth '[' ++ text ++ List.replicate depth ']'

theorem enclose_succ (depth : Nat) (text : List Char) :
    enclose (depth + 1) text = '[' :: (enclose depth text ++ [']']) := by
  simp [enclose, List.replicate_succ, ← List.replicate_succ']

-- The part that quotations play in the word that a symbol was read from.
structure Spelled (word : List Char) (symbol : Symbol) : Prop where
  text : ∀ value, symbol.innermost = .text value →
    ∃ body, word = enclose symbol.nesting ('\'' :: (body ++ ['\''])) ∧ body.getLast? ≠ some '\\' ∧
      Literal.Continued body ∧ Literal.decode ('\'' :: (body ++ ['\''])) = some value.toList
  var : ∀ name, symbol.innermost = .var name →
    word = enclose symbol.nesting (':' :: name.toList) ∧ Literal.Sheltered name.toList
  program : ∀ name, symbol.innermost = .program name →
    word = enclose symbol.nesting ('$' :: name.toList) ∧ Literal.Sheltered name.toList

theorem of_word_spelled (word : List Char) (symbol : Symbol) (read : ofWord word = .ok symbol)
    (unbroken : Quoting.outside.Unbroken word) : Spelled word symbol := by
  revert unbroken
  refine reading (motive := fun word symbol => Quoting.outside.Unbroken word → Spelled word symbol) ?_ ?_ ?_ ?_ ?_ ?_ ?_ ?_
    word symbol read
  · intro name unbroken
    refine ⟨nofun, fun other same => ?_, nofun⟩
    cases same
    rw [String.toList_ofList]
    exact ⟨by simp [enclose, nesting], (Literal.unbroken_sheltered name).1 [] (List.forall_mem_nil _) unbroken.2⟩
  · intro name unbroken
    refine ⟨nofun, nofun, fun other same => ?_⟩
    cases same
    rw [String.toList_ofList]
    exact ⟨by simp [enclose, nesting], (Literal.unbroken_sheltered name).1 [] (List.forall_mem_nil _) unbroken.2⟩
  · exact fun flag value _ => ⟨nofun, nofun, nofun⟩
  · intro word value decoded unbroken
    refine ⟨fun other same => ?_, nofun, nofun⟩
    cases same
    obtain ⟨body, rfl, closed⟩ := Literal.decode_closed word value decoded
    have inside := Quoting.unbroken_front _ body ['\''] unbroken.2
    refine ⟨body, by simp [enclose, nesting], closed, ?_, by rw [decoded, String.toList_ofList]⟩
    exact (Literal.unbroken_sheltered body).2 [] Literal.guarded_nil inside
  · exact fun word value _ _ => ⟨nofun, nofun, nofun⟩
  · exact fun known _ => ⟨nofun, nofun, nofun⟩
  · exact fun known _ => ⟨nofun, nofun, nofun⟩
  · intro inner index spelled unbroken
    obtain ⟨text, var, program⟩ := spelled (Quoting.unbroken_front _ inner [']'] unbroken.2)
    refine ⟨fun value same => ?_, fun name same => ?_, fun name same => ?_⟩
    · obtain ⟨body, rfl, rest⟩ := text value same
      exact ⟨body, (enclose_succ _ _).symm, rest⟩
    · obtain ⟨rfl, sheltered⟩ := var name same
      exact ⟨(enclose_succ _ _).symm, sheltered⟩
    · obtain ⟨rfl, sheltered⟩ := program name same
      exact ⟨(enclose_succ _ _).symm, sheltered⟩

end Symbol

namespace Line

/-- Each symbol of a line stands for one word of its row. In the word, spaces stand within quotations only, and a
literal closes at the first apostrophe that can close it, unless the word goes on right behind that one. -/
theorem of_source_spelled (source : String) (lines : List Line) (read : ofSource source = .ok lines) (line : Line)
    (member : line ∈ lines) :
    ∃ place row symbols, (Row.cut source.toList)[place]? = some row ∧
      line = ⟨place + 1, .indent (Row.indent (Row.dropReturn row)) :: symbols⟩ ∧
      List.Forall₂ Symbol.Spelled (Run.words (Row.dropReturn row)) symbols := by
  obtain ⟨place, row, found, here⟩ := of_rows_line 1 _ lines read line member
  obtain ⟨_, symbols, rfl, words⟩ := of_row_ok (1 + place) row line here
  refine ⟨place, row, symbols, found, by rw [Nat.add_comm], ?_⟩
  have both := (List.forall₂_and_left _ _).mpr ⟨Run.unbroken_word _, (symbols_of_words _ symbols).mp words⟩
  exact both.imp fun word symbol ⟨unbroken, symbolRead⟩ => Symbol.of_word_spelled word symbol symbolRead unbroken

theorem of_source_spelled_quotations :
    let source := "\n  log 'it\\'s' + [['a''b c']] == :x'y z'"
    let line : Line :=
      ⟨2, [.indent 2, .keyword .log, .text "it's", .operator .plus, .cell (.cell (.text "a''b c")), .operator .equal,
        .var "x'y z'"]⟩
    ofSource source = .ok [line] ∧
      ∃ place row symbols, (Row.cut source.toList)[place]? = some row ∧
        line = ⟨place + 1, .indent (Row.indent (Row.dropReturn row)) :: symbols⟩ ∧
        List.Forall₂ Symbol.Spelled (Run.words (Row.dropReturn row)) symbols := by
  intro source line
  have read : ofSource source = .ok [line] := by
    subst source line
    with_unfolding_all rfl
  exact ⟨read, of_source_spelled source [line] read line (List.mem_singleton_self line)⟩

theorem of_source_bare_apostrophes :
    ofSource "log 'a''b'" = .ok [⟨1, [.indent 0, .keyword .log, .text "a''b"]⟩] ∧
      Run.words "log 'a''b'".toList = ["log".toList, '\'' :: ("a''b".toList ++ ['\''])] ∧
      ¬ Literal.Guarded "a''b".toList ∧
      ofSource "log :a'b c'" = .ok [⟨1, [.indent 0, .keyword .log, .var "a'b c'"]⟩] ∧
      '\'' ∈ "a'b c'".toList ∧ ' ' ∈ "a'b c'".toList := by
  refine ⟨by with_unfolding_all rfl, by decide, fun guarded => ?_, by with_unfolding_all rfl, by decide, by decide⟩
  exact absurd (guarded ['a'] ['\'', 'b'] rfl) (by decide)

end Line

end Offside
