import Offside.Proofs.Depths
import Offside.Proofs.Rows
import Offside.Proofs.Writing.Row

set_option autoImplicit false

namespace Offside

namespace Run

def startsWord : List Run → Bool
  | .word _ :: _ => true
  | _ => false

theorem starts_word_attach (separating : Bool) (c : Char) (runs : List Run) :
    startsWord (attach separating c runs) = !separating := by
  cases runs with
  | nil => cases separating <;> rfl
  | cons run more => cases run <;> cases separating <;> rfl

theorem starts_word_ok (runs : List Run) (start : startsWord runs = true) : ∃ text more, runs = .word text :: more := by
  cases runs with
  | nil => cases start
  | cons run more =>
      cases run with
      | gap text => cases start
      | word text => exact ⟨text, more, rfl⟩

theorem words_attach_apart (c : Char) (runs : List Run) (apart : startsWord runs = false) :
    (attach false c runs).filterMap word? = [c] :: runs.filterMap word? := by
  cases runs with
  | nil => rfl
  | cons run more =>
      cases run with
      | gap text => rfl
      | word text => cases apart

theorem attach_across (separating : Bool) (c : Char) (runs longer : List Run) (further : List (List Char))
    (words : longer.filterMap word? = runs.filterMap word? ++ further) (start : startsWord longer = startsWord runs) :
    (attach separating c longer).filterMap word? = (attach separating c runs).filterMap word? ++ further ∧
      startsWord (attach separating c longer) = startsWord (attach separating c runs) := by
  refine ⟨?_, by rw [starts_word_attach, starts_word_attach]⟩
  cases separating with
  | true => rw [words_attach_space, words_attach_space, words]
  | false =>
      cases starts : startsWord runs with
      | false =>
          rw [words_attach_apart c longer (start.trans starts), words_attach_apart c runs starts, words,
            List.cons_append]
      | true =>
          obtain ⟨text, more, rfl⟩ := starts_word_ok runs starts
          obtain ⟨other, others, rfl⟩ := starts_word_ok longer (start.trans starts)
          obtain ⟨rfl, rest⟩ := List.cons.inj words
          exact congrArg (List.cons (c :: other)) rest

theorem scan_across (quoting : Quoting) (before after : List Char) (outside : quoting.after before = .outside) :
    (scan quoting (before ++ ' ' :: after)).filterMap word? = (scan quoting before).filterMap word? ++ words after ∧
      startsWord (scan quoting (before ++ ' ' :: after)) = startsWord (scan quoting before) := by
  induction before generalizing quoting with
  | nil =>
      cases outside
      exact ⟨words_space after, starts_word_attach true ' ' (scan .outside after)⟩
  | cons c rest ih =>
      obtain ⟨words, start⟩ := ih (quoting.next c) outside
      exact attach_across (quoting.separates c) c _ _ _ words start

theorem words_across (before after : List Char) (outside : Quoting.outside.after before = .outside) :
    words (before ++ ' ' :: after) = words before ++ words after := (scan_across .outside before after outside).1

theorem attach_front (separating : Bool) (c : Char) (runs front back : List Run) (run : Run) (spaces : List Char)
    (attached : attach separating c runs = run :: (front ++ .gap spaces :: back)) :
    ∃ earlier, runs = earlier ++ .gap spaces :: back ∧ attach separating c earlier = run :: front := by
  cases runs with
  | nil => cases separating <;> simp [attach] at attached
  | cons first more =>
      cases first with
      | gap text =>
          cases separating with
          | true =>
              obtain ⟨rfl, rfl⟩ := List.cons.inj attached
              exact ⟨.gap text :: front, rfl, rfl⟩
          | false =>
              obtain ⟨rfl, same⟩ := List.cons.inj attached
              refine ⟨front, same, ?_⟩
              cases front with
              | nil => rfl
              | cons next others =>
                  obtain ⟨rfl, _⟩ := List.cons.inj same
                  rfl
      | word text =>
          cases separating with
          | true =>
              obtain ⟨rfl, same⟩ := List.cons.inj attached
              refine ⟨front, same, ?_⟩
              cases front with
              | nil => cases same
              | cons next others =>
                  obtain ⟨rfl, _⟩ := List.cons.inj same
                  rfl
          | false =>
              obtain ⟨rfl, rfl⟩ := List.cons.inj attached
              exact ⟨.word text :: front, rfl, rfl⟩

theorem attach_gap (separating : Bool) (c : Char) (runs back : List Run) (spaces : List Char)
    (attached : attach separating c runs = .gap spaces :: back) :
    separating = true ∧ ∃ more, spaces = c :: more := by
  cases runs with
  | nil =>
      cases separating with
      | true =>
          cases attached
          exact ⟨rfl, [], rfl⟩
      | false => cases attached
  | cons first more =>
      cases first with
      | gap text =>
          cases separating with
          | true =>
              cases attached
              exact ⟨rfl, text, rfl⟩
          | false => cases attached
      | word text =>
          cases separating with
          | true =>
              cases attached
              exact ⟨rfl, [], rfl⟩
          | false => cases attached

theorem scan_gap (quoting : Quoting) (row : List Char) (front back : List Run) (spaces : List Char)
    (scanned : scan quoting row = front ++ .gap spaces :: back) :
    scan quoting (front.flatMap text) = front ∧ quoting.after (front.flatMap text) = .outside ∧
      ∃ more, spaces = ' ' :: more := by
  induction row generalizing quoting front with
  | nil => cases front <;> cases scanned
  | cons c rest ih =>
      rw [scan] at scanned
      cases front with
      | nil =>
          obtain ⟨separating, more, starts⟩ := attach_gap _ c _ back spaces scanned
          obtain ⟨rfl, rfl⟩ := (quoting.separates_iff c).mp separating
          exact ⟨rfl, rfl, more, starts⟩
      | cons run others =>
          obtain ⟨earlier, runs, attached⟩ := attach_front _ c _ others back run spaces scanned
          obtain ⟨same, outside, spaced⟩ := ih (quoting.next c) earlier runs
          have content : (run :: others).flatMap text = c :: earlier.flatMap text := by
            rw [← attached, attach_text]
          rw [content, scan, same]
          exact ⟨attached, outside, spaced⟩

end Run

namespace Row

def reindent (deepen : Nat → Nat) (row : List Char) : List Char :=
  List.replicate (deepen (indent row)) ' ' ++ row.dropWhile isSpace

-- Rows that make the same line, up to its depth.
structure Alike (deepen : Nat → Nat) (row other : List Char) : Prop where
  void : isVoid (dropReturn other) = isVoid (dropReturn row)
  words : Run.words (dropReturn other) = Run.words (dropReturn row)
  depth : indent (dropReturn other) = deepen (indent (dropReturn row))

theorem drop_return_join (row : List Char) : ∃ ending, row = dropReturn row ++ ending ∧ ∀ c ∈ ending, c = '\r' := by
  unfold dropReturn
  split
  · next ended =>
      obtain ⟨front, rfl⟩ := List.getLast?_eq_some_iff.mp ended
      exact ⟨['\r'], by rw [List.dropLast_concat], by simp⟩
  · exact ⟨[], (List.append_nil row).symm, List.forall_mem_nil _⟩

theorem comment_drop_return (row : List Char) : isComment (dropReturn row) = isComment row := by
  obtain ⟨ending, joined, returns⟩ := drop_return_join row
  generalize dropReturn row = content at joined
  subst joined
  cases content with
  | cons c rest => rfl
  | nil =>
      cases ending with
      | nil => rfl
      | cons c rest =>
          rw [returns c List.mem_cons_self]
          rfl

theorem drop_return_append (front back : List Char) (last : front.getLast? ≠ some '\r') :
    dropReturn (front ++ back) = front ++ dropReturn back := by
  cases back with
  | nil => simp [dropReturn, last]
  | cons c rest =>
      have nonempty : c :: rest ≠ [] := List.cons_ne_nil c rest
      rw [dropReturn, dropReturn, List.getLast?_append_of_ne_nil front nonempty]
      split
      · rw [List.dropLast_append_of_ne_nil nonempty]
      · rfl

theorem alike_return (row : List Char) (last : row.getLast? ≠ some '\r') :
    Alike (fun depth => depth) row (row ++ ['\r']) := by
  have same : dropReturn (row ++ ['\r']) = dropReturn row := by simp [dropReturn, last]
  exact ⟨by rw [same], by rw [same], by rw [same]⟩

theorem void_drop_return (row : List Char) (void : isVoid row = true) : isVoid (dropReturn row) = true := by
  rw [isVoid, comment_drop_return]
  rcases Bool.or_eq_true_iff.mp void with comment | spaces
  · rw [comment, Bool.true_or]
  · obtain ⟨ending, joined, _⟩ := drop_return_join row
    rw [joined, List.all_append] at spaces
    rw [(Bool.and_eq_true_iff.mp spaces).1, Bool.or_true]

theorem flush_drop_return (content : List Char) (flush : content.head? ≠ some ' ') :
    (dropReturn content).head? ≠ some ' ' := by
  unfold dropReturn
  split
  · cases content with
    | nil => exact flush
    | cons c rest => cases rest with
      | nil => simp
      | cons next more => simpa using flush
  · exact flush

theorem alike_indented (deepen : Nat → Nat) (increasing : StrictMono deepen) (base : deepen 0 = 0) (depth : Nat)
    (content : List Char) (flush : content.head? ≠ some ' ') :
    Alike deepen (List.replicate depth ' ' ++ content) (List.replicate (deepen depth) ' ' ++ content) := by
  have kept : ∀ depth,
      dropReturn (List.replicate depth ' ' ++ content) = List.replicate depth ' ' ++ dropReturn content := by
    intro depth
    apply drop_return_append
    cases depth <;> simp [List.getLast?_replicate]
  have stillFlush := flush_drop_return content flush
  refine ⟨?_, ?_, ?_⟩
  · rw [kept, kept, void_indented _ _ stillFlush, void_indented _ _ stillFlush]
    simp [beq_eq_decide, deepen_zero deepen increasing base]
  · rw [kept, kept, Run.words_indented, Run.words_indented]
  · rw [kept, kept, indent_indented _ _ stillFlush, indent_indented _ _ stillFlush]

theorem alike_reindent (deepen : Nat → Nat) (increasing : StrictMono deepen) (base : deepen 0 = 0) (row : List Char) :
    Alike deepen row (reindent deepen row) := by
  have flush := content_flush row
  have indented := alike_indented deepen increasing base (indent row) _ flush
  rwa [← indent_content] at indented

theorem void_visible (front back : List Char) (visible : front.all isSpace = false) :
    isVoid (front ++ back) = isComment front := by
  cases front with
  | nil => cases visible
  | cons c rest =>
      rw [isVoid, List.all_append, visible]
      exact Bool.or_false _

theorem indent_visible (front back : List Char) (visible : front.all isSpace = false) :
    indent (front ++ back) = indent front := by
  have stopped : (front.takeWhile isSpace).length ≠ front.length := by
    intro whole
    have all := List.takeWhile_eq_self_iff.mp (List.IsPrefix.eq_of_length (List.takeWhile_prefix isSpace) whole)
    rw [List.all_eq_true.mpr all] at visible
    cases visible
  rw [indent, List.takeWhile_append, if_neg stopped, indent]

theorem alike_widen (before after : List Char) (extra : Nat) (visible : before.all isSpace = false)
    (outside : Quoting.outside.after before = .outside) :
    Alike (fun depth => depth) (before ++ ' ' :: after) (before ++ ' ' :: (List.replicate extra ' ' ++ after)) := by
  have kept : ∀ after, dropReturn (before ++ ' ' :: after) = before ++ ' ' :: dropReturn after := by
    intro after
    have last : (before ++ [' ']).getLast? ≠ some '\r' := by simp
    simpa using drop_return_append (before ++ [' ']) after last
  have spaces : dropReturn (List.replicate extra ' ' ++ after) = List.replicate extra ' ' ++ dropReturn after := by
    apply drop_return_append
    cases extra <;> simp [List.getLast?_replicate]
  refine ⟨?_, ?_, ?_⟩
  · rw [kept, kept, void_visible _ _ visible, void_visible _ _ visible]
  · rw [kept, kept, spaces, Run.words_across _ _ outside, Run.words_across _ _ outside, Run.words_indented]
  · rw [kept, kept, indent_visible _ _ visible, indent_visible _ _ visible]

theorem visible_words (row word : List Char) (member : word ∈ Run.words row) : row.all isSpace = false := by
  by_contra notVisible
  have spaces : ∀ c ∈ row, c = ' ' := by simpa [isSpace] using notVisible
  have words := Run.words_indented row.length []
  rw [List.append_nil, ← List.eq_replicate_of_mem spaces] at words
  rw [words] at member
  cases member

theorem alike_gap (row : List Char) (earlier later : List Run) (word spaces : List Char) (extra : Nat)
    (scanned : Run.ofRow row = earlier ++ .word word :: .gap spaces :: later) :
    Alike (fun depth => depth) row
      ((earlier ++ .word word :: .gap (List.replicate extra ' ' ++ spaces) :: later).flatMap Run.text) := by
  have parted : Run.scan .outside row = (earlier ++ [Run.word word]) ++ .gap spaces :: later := by
    simpa [Run.ofRow] using scanned
  obtain ⟨alone, outside, more, rfl⟩ := Run.scan_gap .outside row _ later spaces parted
  have visible : ((earlier ++ [Run.word word]).flatMap Run.text).all isSpace = false := by
    apply visible_words _ word
    rw [Run.words, Run.ofRow, alone]
    simp [Run.word?]
  have wider := alike_widen _ (more ++ later.flatMap Run.text) extra visible outside
  have whole : row = (earlier ++ [Run.word word]).flatMap Run.text ++ ' ' :: (more ++ later.flatMap Run.text) := by
    rw [← Run.of_row_text row, scanned]
    simp [Run.text]
  have shifted : List.replicate extra ' ' ++ ' ' :: more = ' ' :: (List.replicate extra ' ' ++ more) := by
    rw [← List.cons_append, ← List.replicate_succ, List.replicate_succ', List.append_assoc, List.singleton_append]
  rw [← whole] at wider
  simpa [Run.text, shifted] using wider

end Row

end Offside
