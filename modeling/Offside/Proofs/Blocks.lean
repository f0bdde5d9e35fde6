import Mathlib.Data.List.TakeWhile
import Offside.Command.Block

set_option autoImplicit false

namespace Offside

namespace Block

theorem commands_nil (depth : Nat) : commands depth [] = .ok ([], 0) := by rw [commands]

theorem commands_above (depth : Nat) (line : Line) (rest : List Line) (above : line.indent < depth) :
    commands depth (line :: rest) = .ok ([], 0) := by
  rw [commands, if_pos above]

theorem commands_deeper (depth : Nat) (line : Line) (rest : List Line) (deeper : depth < line.indent) :
    commands depth (line :: rest) = .error (.shape line.number .unexpectedIndent) := by
  have notAbove : ¬line.indent < depth := by omega
  rw [commands, if_neg notAbove, if_pos deeper]

theorem commands_unformed (depth : Nat) (line : Line) (rest : List Line) (cause : ShapeError)
    (level : line.indent = depth) (failed : Head.ofSymbols line.content = .error cause) :
    commands depth (line :: rest) = .error (.shape line.number cause) := by
  subst level
  rw [commands, if_neg (Nat.lt_irrefl _), if_neg (Nat.lt_irrefl _), failed]

theorem commands_missing (depth : Nat) (line : Line) (rest : List Line) (head : Head)
    (level : line.indent = depth) (formed : Head.ofSymbols line.content = .ok head)
    (opens : head.keyword.opensBlock = true) (missing : depthBelow line rest = none) :
    commands depth (line :: rest) = .error (.shape line.number (.missingBlock head.keyword)) := by
  subst level
  rw [commands, if_neg (Nat.lt_irrefl _), if_neg (Nat.lt_irrefl _), formed]
  simp only [opens, missing, if_true]

def prepend (command : Command) (taken : Nat) (read : Except Error (List Command × Nat)) :
    Except Error (List Command × Nat) :=
  read.map fun (more, others) => (command :: more, taken + others + 1)

theorem commands_block (depth : Nat) (line : Line) (rest : List Line) (head : Head) (below : Nat)
    (level : line.indent = depth) (formed : Head.ofSymbols line.content = .ok head)
    (opens : head.keyword.opensBlock = true) (found : depthBelow line rest = some below) :
    commands depth (line :: rest) =
      (commands below rest).bind fun (body, taken) =>
        prepend ⟨line.number, head, body⟩ taken (commands depth (rest.drop taken)) := by
  subst level
  rw [commands, if_neg (Nat.lt_irrefl _), if_neg (Nat.lt_irrefl _), formed]
  simp only [opens, found, if_true]
  cases commands below rest with
  | error failure => rfl
  | ok block =>
      obtain ⟨body, taken⟩ := block
      simp only [bind, Except.bind]
      cases commands line.indent (rest.drop taken) <;> rfl

theorem commands_plain (depth : Nat) (line : Line) (rest : List Line) (head : Head)
    (level : line.indent = depth) (formed : Head.ofSymbols line.content = .ok head)
    (closed : head.keyword.opensBlock = false) :
    commands depth (line :: rest) = prepend ⟨line.number, head, []⟩ 0 (commands depth rest) := by
  subst level
  rw [commands, if_neg (Nat.lt_irrefl _), if_neg (Nat.lt_irrefl _), formed]
  simp only [closed, Bool.false_eq_true, if_false]
  cases commands line.indent rest with
  | error failure => rfl
  | ok more => simp [prepend, bind, Except.bind, Except.map]

theorem reading {motive : Nat → List Line → Prop}
    (nil : ∀ depth, motive depth [])
    (above : ∀ depth line rest, line.indent < depth → motive depth (line :: rest))
    (deeper : ∀ depth line rest, depth < line.indent → motive depth (line :: rest))
    (unformed : ∀ depth line rest cause, line.indent = depth → Head.ofSymbols line.content = .error cause →
      motive depth (line :: rest))
    (missing : ∀ depth line rest head, line.indent = depth → Head.ofSymbols line.content = .ok head →
      head.keyword.opensBlock = true → depthBelow line rest = none → motive depth (line :: rest))
    (block : ∀ depth line rest head below, line.indent = depth → Head.ofSymbols line.content = .ok head →
      head.keyword.opensBlock = true → depthBelow line rest = some below → motive below rest →
      (∀ taken, motive depth (rest.drop taken)) → motive depth (line :: rest))
    (plain : ∀ depth line rest head, line.indent = depth → Head.ofSymbols line.content = .ok head →
      head.keyword.opensBlock = false → motive depth rest → motive depth (line :: rest))
    (depth : Nat) (lines : List Line) : motive depth lines := by
  induction depth, lines using commands.induct with
  | case1 depth => exact nil depth
  | case2 depth line rest less => exact above depth line rest less
  | case3 depth line rest _ more => exact deeper depth line rest more
  | case4 depth line rest notAbove notDeeper cause failed =>
      exact unformed depth line rest cause (by omega) failed
  | case5 depth line rest notAbove notDeeper head formed opens absent =>
      exact missing depth line rest head (by omega) formed opens absent
  | case6 depth line rest notAbove notDeeper head formed opens below found inner outer =>
      exact block depth line rest head below (by omega) formed opens found inner outer
  | case7 depth line rest notAbove notDeeper head formed closed more =>
      exact plain depth line rest head (by omega) formed (by simpa using closed) more

theorem depth_below_deeper (line : Line) (lines : List Line) (below : Nat)
    (found : depthBelow line lines = some below) : line.indent < below := by
  cases lines with
  | nil => simp [depthBelow] at found
  | cons next more =>
      rw [depthBelow] at found
      split at found
      · next deeper =>
          cases found
          exact deeper
      · cases found

theorem prepend_ok (command : Command) (taken : Nat) (read : Except Error (List Command × Nat))
    (commands : List Command) (total : Nat) (result : prepend command taken read = .ok (commands, total)) :
    ∃ more others, read = .ok (more, others) ∧ commands = command :: more ∧ total = taken + others + 1 := by
  cases read with
  | error failure => cases result
  | ok rest =>
      obtain ⟨more, others⟩ := rest
      cases result
      exact ⟨more, others, rfl, rfl, rfl⟩

theorem commands_block_ok (depth : Nat) (line : Line) (rest : List Line) (head : Head) (below : Nat)
    (level : line.indent = depth) (formed : Head.ofSymbols line.content = .ok head)
    (opens : head.keyword.opensBlock = true) (found : depthBelow line rest = some below)
    (read : List Command) (total : Nat) (result : commands depth (line :: rest) = .ok (read, total)) :
    ∃ body taken more others, commands below rest = .ok (body, taken) ∧
      commands depth (rest.drop taken) = .ok (more, others) ∧
      read = ⟨line.number, head, body⟩ :: more ∧ total = taken + others + 1 := by
  rw [commands_block depth line rest head below level formed opens found] at result
  cases inner : commands below rest with
  | error failure =>
      rw [inner] at result
      cases result
  | ok block =>
      obtain ⟨body, taken⟩ := block
      rw [inner] at result
      obtain ⟨more, others, outer, same, size⟩ := prepend_ok _ _ _ _ _ result
      exact ⟨body, taken, more, others, rfl, outer, same, size⟩

def within (depth : Nat) (lines : List Line) : List Line := lines.takeWhile fun line => decide (depth ≤ line.indent)

theorem within_split (depth below : Nat) (lines : List Line) (deeper : depth ≤ below) :
    within depth lines = within below lines ++ within depth (lines.drop (within below lines).length) := by
  induction lines with
  | nil => rfl
  | cons line rest ih =>
      by_cases inside : below ≤ line.indent
      · have outside : depth ≤ line.indent := by omega
        simpa [within, inside, outside] using ih
      · simp [within, inside]

theorem within_ended (depth : Nat) (lines : List Line) :
    ∀ next ∈ (lines.drop (within depth lines).length).head?, next.indent < depth := by
  induction lines with
  | nil => simp [within]
  | cons line rest ih =>
      by_cases inside : depth ≤ line.indent
      · simpa [within, inside] using ih
      · simpa [within, inside] using Nat.not_le.mp inside

theorem commands_taken (depth : Nat) (lines : List Line) (read : List Command) (taken : Nat)
    (result : commands depth lines = .ok (read, taken)) : taken = (within depth lines).length := by
  induction depth, lines using reading generalizing read taken with
  | nil depth =>
      rw [commands_nil] at result
      cases result
      rfl
  | above depth line rest less =>
      rw [commands_above depth line rest less] at result
      cases result
      simp [within, Nat.not_le.mpr less]
  | deeper depth line rest more =>
      rw [commands_deeper depth line rest more] at result
      cases result
  | unformed depth line rest cause level failed =>
      rw [commands_unformed depth line rest cause level failed] at result
      cases result
  | missing depth line rest head level formed opens absent =>
      rw [commands_missing depth line rest head level formed opens absent] at result
      cases result
  | block depth line rest head below level formed opens found inner outer =>
      obtain ⟨body, size, more, others, bodyRead, moreRead, _, rfl⟩ :=
        commands_block_ok depth line rest head below level formed opens found read taken result
      have deeper : depth < below := level ▸ depth_below_deeper line rest below found
      have bodySize := inner body size bodyRead
      have moreSize := outer size more others moreRead
      have split := within_split depth below rest (Nat.le_of_lt deeper)
      have here : depth ≤ line.indent := by omega
      rw [← bodySize] at split
      simp only [within, List.takeWhile_cons, here, decide_true, if_true, List.length_cons]
      change _ = (within depth rest).length + 1
      rw [split, List.length_append, ← bodySize, ← moreSize]
  | plain depth line rest head level formed closed ih =>
      rw [commands_plain depth line rest head level formed closed] at result
      obtain ⟨more, others, moreRead, _, rfl⟩ := prepend_ok _ _ _ _ _ result
      have here : depth ≤ line.indent := by omega
      simp [within, here, ih more others moreRead]

theorem commands_taken_le (depth : Nat) (lines : List Line) (read : List Command) (taken : Nat)
    (result : commands depth lines = .ok (read, taken)) : taken ≤ lines.length := by
  rw [commands_taken depth lines read taken result]
  exact (List.takeWhile_sublist _).length_le

theorem commands_taken_all (lines : List Line) (read : List Command) (taken : Nat)
    (result : commands 0 lines = .ok (read, taken)) : taken = lines.length := by
  rw [commands_taken 0 lines read taken result, within, List.takeWhile_eq_self_iff.mpr]
  simp

theorem commands_outside (depth : Nat) (lines : List Line)
    (outside : ∀ line ∈ lines.head?, line.indent < depth) : commands depth lines = .ok ([], 0) := by
  cases lines with
  | nil => exact commands_nil depth
  | cons line rest => exact commands_above depth line rest (outside line rfl)

-- What is read from lines followed by further ones, where these are read on their own if the first lines are used up.
def join (size : Nat) (front back : Except Error (List Command × Nat)) : Except Error (List Command × Nat) :=
  front.bind fun (commands, taken) =>
    if taken = size then back.map fun (more, others) => (commands ++ more, taken + others) else .ok (commands, taken)

theorem prepend_join (command : Command) (taken size : Nat) (front back : Except Error (List Command × Nat)) :
    prepend command taken (join size front back) = join (taken + size + 1) (prepend command taken front) back := by
  cases front with
  | error failure => rfl
  | ok read =>
      obtain ⟨commands, others⟩ := read
      by_cases same : others = size
      · subst same
        cases back with
        | error failure => simp [prepend, join, Except.bind, Except.map]
        | ok rest => simp [prepend, join, Except.bind, Except.map]; omega
      · simp [prepend, join, Except.bind, Except.map, same]

theorem depth_below_append (line : Line) (front back : List Line)
    (shallow : ∀ first ∈ back.head?, first.indent ≤ line.indent) :
    depthBelow line (front ++ back) = depthBelow line front := by
  cases front with
  | cons next more => rfl
  | nil =>
      cases back with
      | nil => rfl
      | cons first more =>
          have notDeeper : ¬line.indent < first.indent := Nat.not_lt.mpr (shallow first rfl)
          simp [depthBelow, notDeeper]

theorem commands_append (depth : Nat) (front back : List Line)
    (shallow : ∀ first ∈ back.head?, first.indent ≤ depth) :
    commands depth (front ++ back) = join front.length (commands depth front) (commands depth back) := by
  induction depth, front using reading with
  | nil depth =>
      rw [commands_nil, List.nil_append]
      cases commands depth back <;> simp [join, Except.bind, Except.map]
  | above depth line rest less =>
      rw [List.cons_append, commands_above depth line _ less, commands_above depth line rest less]
      rfl
  | deeper depth line rest more =>
      rw [List.cons_append, commands_deeper depth line _ more, commands_deeper depth line rest more]
      rfl
  | unformed depth line rest cause level failed =>
      rw [List.cons_append, commands_unformed depth line _ cause level failed,
        commands_unformed depth line rest cause level failed]
      rfl
  | missing depth line rest head level formed opens absent =>
      have still : depthBelow line (rest ++ back) = none := by
        rw [depth_below_append line rest back (level ▸ shallow), absent]
      rw [List.cons_append, commands_missing depth line _ head level formed opens still,
        commands_missing depth line rest head level formed opens absent]
      rfl
  | block depth line rest head below level formed opens found inner outer =>
      have still : depthBelow line (rest ++ back) = some below := by
        rw [depth_below_append line rest back (level ▸ shallow), found]
      have deeper : depth < below := level ▸ depth_below_deeper line rest below found
      have outside : ∀ first ∈ back.head?, first.indent < below := fun first present =>
        Nat.lt_of_le_of_lt (shallow first present) deeper
      have body := inner fun first present => Nat.le_of_lt (outside first present)
      rw [List.cons_append, commands_block depth line _ head below level formed opens still, body,
        commands_block depth line rest head below level formed opens found, commands_outside below back outside]
      cases read : commands below rest with
      | error failure => rfl
      | ok block =>
          obtain ⟨body, taken⟩ := block
          have fits := commands_taken_le below rest body taken read
          have alone : join rest.length (.ok (body, taken)) (.ok ([], 0)) = .ok (body, taken) := by
            simp [join, Except.bind, Except.map]
          rw [alone]
          simp only [Except.bind]
          rw [List.drop_append_of_le_length fits, outer taken shallow, prepend_join, List.length_drop]
          congr 1
          simp only [List.length_cons]
          omega
  | plain depth line rest head level formed closed ih =>
      rw [List.cons_append, commands_plain depth line _ head level formed closed,
        commands_plain depth line rest head level formed closed, ih shallow, prepend_join]
      congr 1
      simp only [List.length_cons]
      omega

theorem commands_sequence (front back : List Line) (level : ∀ first ∈ back.head?, first.indent = 0) :
    (commands 0 (front ++ back)).map Prod.fst =
      ((commands 0 front).map Prod.fst).bind fun first => ((commands 0 back).map Prod.fst).map fun second => first ++ second := by
  rw [commands_append 0 front back fun first present => Nat.le_of_eq (level first present)]
  cases read : commands 0 front with
  | error failure => rfl
  | ok parsed =>
      obtain ⟨first, taken⟩ := parsed
      cases commands_taken_all front first taken read
      cases commands 0 back <;> simp [join, Except.bind, Except.map]

end Block

namespace Command

theorem of_lines_level (lines : List Line) (level : ∀ first ∈ lines.head?, first.indent = 0) :
    ofLines lines = (Block.commands 0 lines).map Prod.fst := by
  cases lines with
  | nil =>
      rw [Block.commands_nil]
      rfl
  | cons first rest => rw [ofLines, Block.ofLines, if_pos (level first rfl)]

theorem of_lines_indented (first : Line) (rest : List Line) (deeper : first.indent ≠ 0) :
    ofLines (first :: rest) = .error (.shape first.number (.indentation 0 first.indent)) := by
  rw [ofLines, Block.ofLines, if_neg deeper]
  rfl

theorem of_lines_ok (lines : List Line) (commands : List Command) (read : ofLines lines = .ok commands) :
    Block.commands 0 lines = .ok (commands, lines.length) ∧ ∀ first ∈ lines.head?, first.indent = 0 := by
  cases lines with
  | nil =>
      cases read
      exact ⟨Block.commands_nil 0, by simp⟩
  | cons first rest =>
      by_cases flush : first.indent = 0
      · have level : ∀ line ∈ (first :: rest).head?, line.indent = 0 := by simpa using flush
        rw [of_lines_level _ level] at read
        cases result : Block.commands 0 (first :: rest) with
        | error failure =>
            rw [result] at read
            cases read
        | ok parsed =>
            obtain ⟨found, taken⟩ := parsed
            rw [result] at read
            cases read
            rw [Block.commands_taken_all _ _ _ result]
            exact ⟨rfl, level⟩
      · rw [of_lines_indented first rest flush] at read
        cases read

theorem of_source_ok (source : String) (commands : List Command) (read : ofSource source = .ok commands) :
    ∃ lines, Line.ofSource source = .ok lines ∧ ofLines lines = .ok commands := by
  rw [ofSource] at read
  cases cut : Line.ofSource source with
  | error failure =>
      rw [cut] at read
      cases read
  | ok lines =>
      rw [cut] at read
      exact ⟨lines, rfl, read⟩

theorem of_source_failed (source : String) (failure : Error) (failed : ofSource source = .error failure) :
    Line.ofSource source = .error failure ∨ ∃ lines, Line.ofSource source = .ok lines ∧ ofLines lines = .error failure := by
  rw [ofSource] at failed
  cases cut : Line.ofSource source with
  | error cause =>
      rw [cut] at failed
      cases failed
      exact .inl rfl
  | ok lines =>
      rw [cut] at failed
      exact .inr ⟨lines, rfl, failed⟩

theorem of_lines_read (lines : List Line) (commands : List Command) (taken : Nat)
    (level : ∀ first ∈ lines.head?, first.indent = 0) (read : Block.commands 0 lines = .ok (commands, taken)) :
    ofLines lines = .ok commands := by
  rw [of_lines_level lines level, read]
  rfl

theorem of_lines_append (front back : List Line) (first second : List Command)
    (frontRead : ofLines front = .ok first) (backRead : ofLines back = .ok second) :
    ofLines (front ++ back) = .ok (first ++ second) := by
  obtain ⟨_, frontLevel⟩ := of_lines_ok front first frontRead
  obtain ⟨_, backLevel⟩ := of_lines_ok back second backRead
  have level : ∀ line ∈ (front ++ back).head?, line.indent = 0 := by
    cases front with
    | nil => exact backLevel
    | cons line rest => exact frontLevel
  rw [of_lines_level _ level, Block.commands_sequence front back backLevel, ← of_lines_level front frontLevel,
    ← of_lines_level back backLevel, frontRead, backRead]
  rfl

/-- Lines that a line without indentation follows are read as they are alone, whatever blocks are open at their end.
What follows is read on its own, if they can be read. -/
theorem of_lines_sequence (front back : List Line) (level : ∀ first ∈ back.head?, first.indent = 0) :
    ofLines (front ++ back) = (ofLines front).bind fun first => (ofLines back).map fun second => first ++ second := by
  cases front with
  | nil =>
      change ofLines back = (ofLines back).map fun second => second
      cases ofLines back <;> rfl
  | cons line rest =>
      by_cases flush : line.indent = 0
      · have whole : ∀ first ∈ (line :: rest ++ back).head?, first.indent = 0 := by simpa using flush
        rw [of_lines_level _ whole, Block.commands_sequence _ back level, ← of_lines_level (line :: rest) whole,
          ← of_lines_level back level]
      · rw [List.cons_append, of_lines_indented line (rest ++ back) flush, of_lines_indented line rest flush]
        rfl

theorem of_lines_sequence_cut :
    let front : List Line := [⟨1, [.indent 0, .keyword .branch, .boolean true]⟩,
      ⟨2, [.indent 1, .keyword .loop, .boolean false]⟩, ⟨3, [.indent 4, .keyword .give]⟩]
    let header : Line := ⟨4, [.indent 1, .keyword .loop, .boolean false]⟩
    let back : List Line := [⟨5, [.indent 0, .keyword .give]⟩, ⟨6, [.indent 2, .keyword .give]⟩]
    (∀ first ∈ back.head?, first.indent = 0) ∧ ofLines (front ++ back) = .error (.shape 6 .unexpectedIndent) ∧
      ofLines ((front ++ [header]) ++ back) = .error (.shape 4 (.missingBlock .loop)) := by
  intro front header back
  have level : ∀ first ∈ back.head?, first.indent = 0 := by decide
  have read : ofLines front =
      .ok [⟨1, .branch (.boolean true), [⟨2, .loop (.boolean false), [⟨3, .give none, []⟩]⟩]⟩] := by
    with_unfolding_all rfl
  have lacking : ofLines (front ++ [header]) = .error (.shape 4 (.missingBlock .loop)) := by with_unfolding_all rfl
  have failed : ofLines back = .error (.shape 6 .unexpectedIndent) := by with_unfolding_all rfl
  refine ⟨level, ?_, ?_⟩
  · rw [of_lines_sequence front back level, read, failed]
    rfl
  · rw [of_lines_sequence (front ++ [header]) back level, lacking]
    rfl

end Command

end Offside
