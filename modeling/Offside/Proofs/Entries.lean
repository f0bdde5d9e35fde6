import Offside.Editor.Entry
import Offside.Proofs.Listing
import Offside.Proofs.Shapes
import Offside.Proofs.Spacing

set_option autoImplicit false

namespace Offside

namespace Row

def last : List Char → List Char
  | [] => []
  | c :: rest => if '\n' ∈ c :: rest then last rest else c :: rest

theorem cut_last (text : List Char) : (cut text).getLast? = some (last text) := by
  induction text with
  | nil => rfl
  | cons c rest ih =>
      by_cases feed : '\n' ∈ c :: rest
      · rw [last, if_pos feed, ← ih]
        by_cases here : c = '\n'
        · rw [cut, if_pos here, List.getLast?_cons_of_ne_nil (cut_ne_nil rest)]
        · rw [cut, if_neg here]
          cases rows : cut rest with
          | nil => exact absurd rows (cut_ne_nil rest)
          | cons row more =>
              have later : '\n' ∈ rest := (List.mem_cons.mp feed).resolve_left (Ne.symm here)
              have several : more ≠ [] := by
                rintro rfl
                have count := cut_length rest
                rw [rows] at count
                exact absurd (List.count_pos_iff.mpr later) (by simp at count; omega)
              simp only [List.getLast?_cons_of_ne_nil several]
      · rw [last, if_neg feed, cut_one_row _ feed]
        rfl

end Row

theorem Quoting.unbroken_visible (quoting : Quoting) (text : List Char) (visible : ∀ c ∈ text, c ≠ ' ') :
    quoting.Unbroken text := by
  induction text generalizing quoting with
  | nil => trivial
  | cons c rest ih =>
      obtain ⟨here, others⟩ := List.forall_mem_cons.mp visible
      refine ⟨?_, ih (quoting.next c) others⟩
      cases quoting with
      | outside => exact decide_eq_false here
      | inside afterBackslash => rfl

theorem Head.opens_operands (head : Head) (opens : head.keyword.opensBlock = true) : head.operands ≠ [] := by
  cases head with
  | branch condition => exact Expr.symbols_nonempty condition
  | loop condition => exact Expr.symbols_nonempty condition
  | define name params => exact List.cons_ne_nil _ _
  | _ => cases opens

theorem Symbol.of_word_keyword (word : List Char) (known : Keyword) (read : ofWord word = .ok (.keyword known)) :
    word = known.lexeme.toList := by
  refine reading (motive := fun word symbol => ∀ keyword, symbol = .keyword keyword → word = keyword.lexeme.toList)
    (fun _ => nofun) (fun _ => nofun) (fun _ _ => nofun) (fun _ _ _ => nofun) (fun _ _ _ => nofun) ?_ (fun _ => nofun)
    (fun _ _ _ => nofun) word _ read known rfl
  intro keyword other same
  cases same
  rfl

namespace Entry

theorem first_word_at (depth : Nat) (word rest : List Char) (nonempty : word ≠ []) (visible : ∀ c ∈ word, c ≠ ' ')
    (ends : ∀ c ∈ rest.head?, c = ' ') : firstWord (List.replicate depth ' ' ++ (word ++ rest)) = word := by
  have spaces : ∀ c ∈ List.replicate depth ' ', Row.isSpace c = true := by
    intro c member
    rw [List.eq_of_mem_replicate member]
    rfl
  have flush : (word ++ rest).dropWhile Row.isSpace = word ++ rest := by
    cases word with
    | nil => exact absurd rfl nonempty
    | cons c more =>
        have shown : ¬ Row.isSpace c = true := by simpa [Row.isSpace] using visible c List.mem_cons_self
        exact List.dropWhile_cons_of_neg shown
  have stops : rest.takeWhile (fun c => !Row.isSpace c) = [] := by
    cases rest with
    | nil => rfl
    | cons c more =>
        have space : c = ' ' := ends c rfl
        subst space
        rfl
  rw [firstWord, List.dropWhile_append_of_pos spaces, flush, List.takeWhile_append_of_pos, stops, List.append_nil]
  intro c member
  simpa [Row.isSpace] using visible c member

theorem first_word_parts (row : List Char) :
    ∃ rest, row.dropWhile Row.isSpace = firstWord row ++ rest ∧ (∀ c ∈ firstWord row, c ≠ ' ') ∧
      ∀ c ∈ rest.head?, c = ' ' := by
  refine ⟨(row.dropWhile Row.isSpace).dropWhile fun c => !Row.isSpace c, ?_, ?_, ?_⟩
  · rw [firstWord, List.takeWhile_append_dropWhile]
  · intro c member
    simpa [Row.isSpace] using List.mem_takeWhile_imp member
  · intro c first
    have stopped := List.head?_dropWhile_not (fun c => !Row.isSpace c) (row.dropWhile Row.isSpace)
    rw [Option.mem_def.mp first] at stopped
    simpa [Row.isSpace] using stopped

theorem first_word_row (row word : List Char) (tidy : Tidy word) (uncommented : word.head? ≠ some '#')
    (first : firstWord row = word) :
    Row.isVoid (Row.dropReturn row) = false ∧ ∃ more, Run.words (Row.dropReturn row) = word :: more := by
  obtain ⟨rest, content, shown, ends⟩ := first_word_parts row
  have whole := Row.indent_content row
  rw [content, first] at whole
  rw [first] at shown
  have kept : Row.dropReturn row = List.replicate (Row.indent row) ' ' ++ (word ++ Row.dropReturn rest) := by
    have last : (List.replicate (Row.indent row) ' ' ++ word).getLast? ≠ some '\r' := by
      rw [List.getLast?_append_of_ne_nil _ tidy.nonempty]
      exact tidy.ended
    have parted := Row.drop_return_append _ rest last
    rwa [List.append_assoc, List.append_assoc, ← whole] at parted
  have flush : (word ++ Row.dropReturn rest).head? ≠ some ' ' := by
    rw [List.head?_append_of_ne_nil _ tidy.nonempty]
    exact fun space => shown ' ' (List.mem_of_head? space) rfl
  rw [kept]
  constructor
  · have content : word ++ Row.dropReturn rest ≠ [] := List.append_ne_nil_of_left_ne_nil tidy.nonempty _
    rw [Row.void_indented _ _ flush, List.isEmpty_eq_false_iff.mpr content, Row.isComment,
      List.head?_append_of_ne_nil _ tidy.nonempty]
    simp [uncommented]
  · rw [Run.words_indented]
    cases rest with
    | nil =>
        refine ⟨[], ?_⟩
        rw [show Row.dropReturn [] = [] from rfl, List.append_nil]
        exact Run.words_unbroken word tidy.nonempty tidy.unbroken
    | cons c more =>
        have space : c = ' ' := ends c rfl
        subst space
        have after : Row.dropReturn (' ' :: more) = ' ' :: Row.dropReturn more :=
          Row.drop_return_append [' '] more (by decide)
        exact ⟨Run.words (Row.dropReturn more), by rw [after, Run.words_cons word _ tidy]⟩

theorem first_word_words (row word second : List Char) (more : List (List Char)) (ordinary : ∀ c ∈ word, isOrdinary c)
    (words : Run.words (Row.dropReturn row) = word :: second :: more) : firstWord row = word := by
  obtain ⟨ending, joined, _⟩ := Row.drop_return_join row
  obtain ⟨rest, content, shown, ends⟩ := first_word_parts (Row.dropReturn row)
  have flush := Row.content_flush (Row.dropReturn row)
  have whole := Row.indent_content (Row.dropReturn row)
  rw [content] at flush whole
  generalize firstWord (Row.dropReturn row) = first at shown flush whole
  rw [whole, Run.words_indented] at words
  have nonempty : first ≠ [] := by
    rintro rfl
    cases rest with
    | nil => cases words
    | cons c further => exact flush (congrArg some (ends c rfl))
  have unbroken := Quoting.outside.unbroken_visible first shown
  obtain ⟨text, others, begins⟩ := Run.words_begin first rest nonempty unbroken
  obtain ⟨same, _⟩ := List.cons.inj (begins.symm.trans words)
  have tidy : Tidy first := ordinary_tidy first nonempty fun c member =>
    ordinary c (same ▸ List.mem_append_left text member)
  cases rest with
  | nil =>
      rw [List.append_nil, Run.words_unbroken first nonempty unbroken] at words
      cases words
  | cons c further =>
      have space : c = ' ' := ends c rfl
      subst space
      rw [Run.words_cons first further tidy] at words
      obtain ⟨rfl, _⟩ := List.cons.inj words
      rw [joined, whole, List.append_assoc, List.append_assoc]
      exact first_word_at _ first _ nonempty shown (by simp)

theorem row_opens (number : Nat) (row : List Char) (found : Option Line) (read : Line.ofRow number row = .ok found)
    (opens : opensBlock row = true) :
    ∃ line known rest, found = some line ∧ line.content = .keyword known :: rest ∧ known.opensBlock = true := by
  obtain ⟨known, lexeme, block⟩ : ∃ known, Keyword.ofLexeme (firstWord row) = some known ∧ known.opensBlock = true := by
    simpa [opensBlock, Option.any_eq_true] using opens
  have first : firstWord row = (Symbol.keyword known).write := (Keyword.lexeme_of_found _ known lexeme).symm
  have uncommented : (Symbol.keyword known).write.head? ≠ some '#' := by cases known <;> decide
  obtain ⟨shown, more, words⟩ := first_word_row row _ (Symbol.write_tidy (.keyword known) rfl) uncommented first
  obtain ⟨line, rfl⟩ := Option.ne_none_iff_exists'.mp (Line.of_row_shown number row found read shown)
  obtain ⟨_, symbols, rfl, symbolsRead⟩ := Line.of_row_ok number row line read
  rw [words, Line.symbols_of_words] at symbolsRead
  obtain ⟨symbol, rest, keyword, _, rfl⟩ := List.forall₂_cons_left_iff.mp symbolsRead
  cases keyword.symm.trans (Symbol.of_word_write (.keyword known) rfl)
  exact ⟨_, known, rest, rfl, rfl, block⟩

theorem line_opens (number : Nat) (row : List Char) (line : Line) (read : Line.ofRow number row = .ok (some line))
    (head : Head) (written : head.symbols = line.content) (opens : head.keyword.opensBlock = true) :
    opensBlock row = true := by
  obtain ⟨_, symbols, rfl, symbolsRead⟩ := Line.of_row_ok number row line read
  obtain ⟨second, rest, operands⟩ := List.exists_cons_of_ne_nil (head.opens_operands opens)
  have content : symbols = .keyword head.keyword :: second :: rest := by
    rw [← operands]
    exact written.symm
  rw [content] at symbolsRead
  obtain ⟨word, words, first, others, whole⟩ := List.forall₂_cons_right_iff.mp ((Line.symbols_of_words _ _).mp symbolsRead)
  obtain ⟨next, more, _, _, rfl⟩ := List.forall₂_cons_right_iff.mp others
  have lexeme := Symbol.of_word_keyword word head.keyword first
  have ordinary : ∀ c ∈ word, isOrdinary c := by
    rw [lexeme]
    cases head.keyword <;> exact List.all_eq_true.mp (by decide)
  rw [opensBlock, first_word_words row word next more ordinary whole, lexeme, Keyword.of_lexeme_lexeme]
  exact opens

theorem rows_open (entry : String) (lines : List Line) (read : Line.ofSource entry = .ok lines) (line : Line)
    (member : line ∈ lines) (head : Head) (written : head.symbols = line.content)
    (opens : head.keyword.opensBlock = true) : ∃ row ∈ Row.cut entry.toList, opensBlock row = true := by
  obtain ⟨place, row, found, here⟩ := Line.of_rows_line 1 _ lines read line member
  exact ⟨row, List.mem_of_getElem? found, line_opens (1 + place) row line here head written opens⟩

theorem lines_open (entry : String) (lines : List Line) (read : Line.ofSource entry = .ok lines) (row : List Char)
    (member : row ∈ Row.cut entry.toList) (opens : opensBlock row = true) :
    ∃ line ∈ lines, ∃ known rest, line.content = .keyword known :: rest ∧ known.opensBlock = true := by
  obtain ⟨place, found⟩ := List.getElem?_of_mem member
  obtain ⟨held, here, kept⟩ := Line.of_rows_row 1 _ lines read place row found
  obtain ⟨line, known, rest, rfl, content, block⟩ := row_opens (1 + place) row held here opens
  exact ⟨line, kept line rfl, known, rest, content, block⟩

theorem is_complete_false (entry : String) :
    isComplete entry = false ↔
      (∃ row ∈ Row.cut entry.toList, opensBlock row = true) ∧ Blank.allBlank (Row.last entry.toList) = false := by
  simp [isComplete, endsBlank, Row.cut_last]

end Entry

-- Some block command of a program, however deep it is nested.
def Command.HasBlock (commands : List Command) : Prop :=
  ∃ nested ∈ listing commands, nested.command.head.keyword.opensBlock = true

theorem Command.has_block_rows (entry : String) (commands : List Command) (parsed : ofSource entry = .ok commands) :
    HasBlock commands ↔ ∃ row ∈ Row.cut entry.toList, Entry.opensBlock row = true := by
  obtain ⟨lines, read, laid⟩ := of_source_ok entry commands parsed
  have reads := Block.lays_reads 0 lines commands (of_lines_lays lines commands laid) [] 0
  constructor
  · rintro ⟨nested, member, opens⟩
    obtain ⟨line, present, same⟩ := partner reads nested member
    exact Entry.rows_open entry lines read line present nested.command.head same.symbols opens
  · rintro ⟨row, member, opens⟩
    obtain ⟨line, present, known, rest, content, block⟩ := Entry.lines_open entry lines read row member opens
    obtain ⟨nested, listed, same⟩ := partner (List.Forall₂.flip reads) line present
    obtain ⟨keyword, _⟩ := List.cons.inj (same.symbols.trans content)
    cases Symbol.keyword.inj keyword
    exact ⟨nested, listed, block⟩

theorem Command.missing_block_rows (entry : String) (number : Nat) (keyword : Keyword)
    (failed : ofSource entry = .error (.shape number (.missingBlock keyword))) :
    ∃ row ∈ Row.cut entry.toList, Entry.opensBlock row = true := by
  rcases of_source_failed entry _ failed with unread | ⟨lines, read, unparsed⟩
  · obtain ⟨place, row, _, here, _⟩ := Line.of_rows_failed 1 _ _ unread
    obtain ⟨cause, same, _⟩ := Line.of_row_failed _ row _ here
    cases same
  · rcases of_lines_failed lines _ unparsed with ⟨first, _, same⟩ | ⟨line, present, cause, same, blames⟩
    · cases same
    · cases same
      cases blames with
      | unformed _ unformed => cases Head.own_symbols line.content _ unformed
      | missing head formed opens =>
          exact Entry.rows_open entry lines read line present head (head.symbols_of_symbols line.content formed) opens

/-- An entry is held open for a block of its program, or for one that its last header waits for, until a blank row ends
it. -/
theorem Entry.is_complete_parsed (entry : String) :
    (∀ commands, Command.ofSource entry = .ok commands →
      (isComplete entry = false ↔
        Command.HasBlock commands ∧ Blank.allBlank (Row.last entry.toList) = false)) ∧
    (∀ number keyword, Command.ofSource entry = .error (.shape number (.missingBlock keyword)) →
      (isComplete entry = false ↔ Blank.allBlank (Row.last entry.toList) = false)) := by
  constructor
  · intro commands parsed
    rw [is_complete_false, Command.has_block_rows entry commands parsed]
  · intro number keyword failed
    rw [is_complete_false, and_iff_right (Command.missing_block_rows entry number keyword failed)]

theorem Entry.is_complete_parsed_open :
    let nested := "program $f :a\r\n  if :a < 1\r\n    return\r\n# while"
    let waiting := "log 'if'\n\nwhile ?true"
    (∃ commands, Command.ofSource nested = .ok commands ∧ Command.HasBlock commands ∧ isComplete nested = false) ∧
      Command.ofSource waiting = .error (.shape 3 (.missingBlock .loop)) ∧ isComplete waiting = false := by
  intro nested waiting
  let header : Command := ⟨1, .define "f" ["a"], [⟨2, .branch (.binary (.var "a") .less (.integer 1)), [⟨3, .give none, []⟩]⟩]⟩
  have parsed : Command.ofSource nested = .ok [header] := by
    subst nested header
    with_unfolding_all rfl
  have failed : Command.ofSource waiting = .error (.shape 3 (.missingBlock .loop)) := by
    subst waiting
    with_unfolding_all rfl
  have block : Command.HasBlock [header] := ⟨⟨header, []⟩, List.mem_cons_self, rfl⟩
  refine ⟨⟨[header], parsed, block, ?_⟩, failed, ?_⟩
  · exact ((is_complete_parsed nested).1 [header] parsed).mpr ⟨block, by decide⟩
  · exact ((is_complete_parsed waiting).2 3 .loop failed).mpr (by decide)

end Offside
