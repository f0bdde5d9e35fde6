import Offside.Proofs.Blocks

set_option autoImplicit false

namespace Offside

structure Header where
  number : Nat
  depth : Nat
  head : Head

structure OpenBlock where
  depth : Nat
  finished : List Command

-- Where a scan of lines stands: the innermost open block, the blocks around it from the inside outwards, each with the
-- header of the block in it, and the header that the next line has to open a block for.
structure Scan where
  innermost : OpenBlock
  outer : List (OpenBlock × Header)
  waiting : Option Header

namespace Header

def command (header : Header) (body : List Command) : Command := ⟨header.number, header.head, body⟩

def missing (header : Header) : Error := .shape header.number (.missingBlock header.head.keyword)

end Header

def OpenBlock.add (block : OpenBlock) (command : Command) : OpenBlock :=
  { block with finished := block.finished ++ [command] }

namespace Scan

def start : Scan := ⟨⟨0, []⟩, [], none⟩

def closeTo (depth : Nat) (block : OpenBlock) : List (OpenBlock × Header) → Scan
  | [] => ⟨block, [], none⟩
  | (around, header) :: outer =>
      if depth < block.depth then closeTo depth (around.add (header.command block.finished)) outer
      else ⟨block, (around, header) :: outer, none⟩

def closeAll (block : OpenBlock) : List (OpenBlock × Header) → List Command
  | [] => block.finished
  | (around, header) :: outer => closeAll (around.add (header.command block.finished)) outer

def place (scan : Scan) (line : Line) : Except Error Scan :=
  match scan.waiting with
  | some header =>
      if header.depth < line.indent then .ok ⟨⟨line.indent, []⟩, (scan.innermost, header) :: scan.outer, none⟩
      else .error header.missing
  | none =>
      let closed := closeTo line.indent scan.innermost scan.outer
      if line.indent = closed.innermost.depth then .ok closed else .error (.shape line.number .unexpectedIndent)

def read (scan : Scan) (line : Line) : Except Error Scan :=
  match Head.ofSymbols line.content with
  | .error cause => .error (.shape line.number cause)
  | .ok head =>
      if head.keyword.opensBlock then .ok { scan with waiting := some ⟨line.number, line.indent, head⟩ }
      else .ok { scan with innermost := scan.innermost.add ⟨line.number, head, []⟩ }

def take (scan : Scan) (line : Line) : Except Error Scan := (scan.place line).bind fun placed => placed.read line

def stop (scan : Scan) : Except Error (List Command) :=
  match scan.waiting with
  | some header => .error header.missing
  | none => .ok (closeAll scan.innermost scan.outer)

def through (scan : Scan) (lines : List Line) : Except Error (List Command) := (lines.foldlM take scan).bind stop

def ofLines (lines : List Line) : Except Error (List Command) :=
  match lines with
  | [] => .ok []
  | first :: _ =>
      if first.indent = 0 then start.through lines else .error (.shape first.number (.indentation 0 first.indent))

theorem through_cons (scan : Scan) (line : Line) (rest : List Line) :
    scan.through (line :: rest) = (scan.take line).bind fun next => next.through rest := by
  rw [through, List.foldlM_cons]
  cases scan.take line <;> rfl

theorem through_placed (scan placed : Scan) (line : Line) (rest : List Line) (found : scan.place line = .ok placed) :
    scan.through (line :: rest) = (placed.read line).bind fun next => next.through rest := by
  rw [through_cons, take, found]
  rfl

theorem close_level (depth : Nat) (finished : List Command) (outer : List (OpenBlock × Header)) (indent : Nat)
    (inside : depth ≤ indent) : closeTo indent ⟨depth, finished⟩ outer = ⟨⟨depth, finished⟩, outer, none⟩ := by
  cases outer with
  | nil => rfl
  | cons around outer => rw [closeTo, if_neg (Nat.not_lt.mpr inside)]

theorem place_level (finished : List Command) (outer : List (OpenBlock × Header)) (line : Line) :
    (Scan.mk ⟨line.indent, finished⟩ outer none).place line = .ok ⟨⟨line.indent, finished⟩, outer, none⟩ := by
  simp only [place, close_level line.indent finished outer line.indent (Nat.le_refl _), if_true]

theorem take_deeper (depth : Nat) (finished : List Command) (outer : List (OpenBlock × Header)) (line : Line)
    (deeper : depth < line.indent) :
    (Scan.mk ⟨depth, finished⟩ outer none).take line = .error (.shape line.number .unexpectedIndent) := by
  simp only [take, place, close_level depth finished outer line.indent (Nat.le_of_lt deeper),
    if_neg (Nat.ne_of_gt deeper)]
  rfl

theorem through_closed (depth : Nat) (finished : List Command) (around : OpenBlock) (header : Header)
    (outer : List (OpenBlock × Header)) (lines : List Line) (outside : ∀ line ∈ lines.head?, line.indent < depth) :
    (Scan.mk ⟨depth, finished⟩ ((around, header) :: outer) none).through lines =
      (Scan.mk (around.add (header.command finished)) outer none).through lines := by
  cases lines with
  | nil => rfl
  | cons line rest =>
      have closes : line.indent < depth := outside line rfl
      rw [through_cons, through_cons]
      simp only [take, place, closeTo, if_pos closes]

theorem through_missing (block : OpenBlock) (outer : List (OpenBlock × Header)) (line : Line) (head : Head)
    (rest : List Line) (missing : Block.depthBelow line rest = none) :
    (Scan.mk block outer (some ⟨line.number, line.indent, head⟩)).through rest =
      .error (.shape line.number (.missingBlock head.keyword)) := by
  cases rest with
  | nil => rfl
  | cons next more =>
      have shallow : ¬line.indent < next.indent := by simpa [Block.depthBelow] using missing
      simp only [through_cons, take, place, if_neg shallow]
      rfl

theorem through_opened (block : OpenBlock) (outer : List (OpenBlock × Header)) (line : Line) (head : Head)
    (rest : List Line) (below : Nat) (found : Block.depthBelow line rest = some below) :
    (Scan.mk block outer (some ⟨line.number, line.indent, head⟩)).through rest =
      (Scan.mk ⟨below, []⟩ ((block, ⟨line.number, line.indent, head⟩) :: outer) none).through rest := by
  cases rest with
  | nil => cases found
  | cons next more =>
      rw [Block.depthBelow] at found
      split at found
      · next deeper =>
          cases found
          have opened : (Scan.mk block outer (some ⟨line.number, line.indent, head⟩)).place next =
              .ok ⟨⟨next.indent, []⟩, (block, ⟨line.number, line.indent, head⟩) :: outer, none⟩ := by
            simp only [place, if_pos deeper]
          rw [through_placed _ _ next more opened, through_placed _ _ next more (place_level [] _ next)]
      · cases found

theorem through_commands (depth : Nat) (lines : List Line) (finished : List Command) (outer : List (OpenBlock × Header)) :
    (Scan.mk ⟨depth, finished⟩ outer none).through lines =
      (Block.commands depth lines).bind fun (more, taken) =>
        (Scan.mk ⟨depth, finished ++ more⟩ outer none).through (lines.drop taken) := by
  induction depth, lines using Block.reading generalizing finished outer with
  | nil depth =>
      rw [Block.commands_nil]
      simp [Except.bind]
  | above depth line rest less =>
      rw [Block.commands_above depth line rest less]
      simp [Except.bind]
  | deeper depth line rest more =>
      rw [Block.commands_deeper depth line rest more, through_cons, take_deeper depth finished outer line more]
      rfl
  | unformed depth line rest cause level failed =>
      subst level
      rw [Block.commands_unformed _ line rest cause rfl failed, through_placed _ _ line rest (place_level finished outer line),
        read, failed]
      rfl
  | missing depth line rest head level formed opens absent =>
      subst level
      rw [Block.commands_missing _ line rest head rfl formed opens absent,
        through_placed _ _ line rest (place_level finished outer line), read, formed]
      simp only [opens, if_true]
      exact through_missing _ outer line head rest absent
  | block depth line rest head below level formed opens found inner after =>
      subst level
      have opened : (Scan.mk ⟨line.indent, finished⟩ outer none).through (line :: rest) =
          (Scan.mk ⟨below, []⟩ ((⟨line.indent, finished⟩, ⟨line.number, line.indent, head⟩) :: outer) none).through rest := by
        rw [through_placed _ _ line rest (place_level finished outer line), read, formed]
        simp only [opens, if_true]
        exact through_opened _ outer line head rest below found
      rw [opened, inner, Block.commands_block _ line rest head below rfl formed opens found]
      cases body : Block.commands below rest with
      | error failure => rfl
      | ok result =>
          obtain ⟨commands, taken⟩ := result
          have ended : ∀ next ∈ (rest.drop taken).head?, next.indent < below := by
            rw [Block.commands_taken below rest commands taken body]
            exact Block.within_ended below rest
          have closed := through_closed below commands ⟨line.indent, finished⟩ ⟨line.number, line.indent, head⟩ outer
            (rest.drop taken) ended
          change (Scan.mk ⟨below, [] ++ commands⟩ _ none).through (rest.drop taken) =
            (Block.prepend ⟨line.number, head, commands⟩ taken (Block.commands line.indent (rest.drop taken))).bind _
          rw [List.nil_append, closed, OpenBlock.add, after taken]
          cases Block.commands line.indent (rest.drop taken) with
          | error failure => rfl
          | ok result => simp [Block.prepend, Except.bind, Except.map, Header.command]
  | plain depth line rest head level formed closed ih =>
      subst level
      rw [Block.commands_plain _ line rest head rfl formed closed,
        through_placed _ _ line rest (place_level finished outer line), read, formed]
      simp only [closed, Bool.false_eq_true, if_false, Except.bind, OpenBlock.add]
      rw [ih]
      cases Block.commands line.indent rest with
      | error failure => rfl
      | ok result => simp [Block.prepend, Except.bind, Except.map]

theorem close_settled (depth : Nat) (block : OpenBlock) (outer : List (OpenBlock × Header)) :
    (closeTo depth block outer).waiting = none := by
  induction outer generalizing block with
  | nil => rfl
  | cons around outer ih =>
      rw [closeTo]
      split
      · exact ih _
      · rfl

theorem place_settled (scan placed : Scan) (line : Line) (found : scan.place line = .ok placed) : placed.waiting = none := by
  unfold place at found
  split at found
  · split at found
    · cases found
      rfl
    · cases found
  · dsimp only at found
    split at found
    · cases found
      exact close_settled line.indent scan.innermost scan.outer
    · cases found

theorem place_failed (scan : Scan) (line : Line) (failure : Error) (failed : scan.place line = .error failure) :
    (∃ header, scan.waiting = some header ∧ failure = header.missing) ∨ ∃ cause, failure = .shape line.number cause := by
  unfold place at failed
  split at failed
  · next header waiting =>
      split at failed
      · cases failed
      · cases failed
        exact .inl ⟨header, waiting, rfl⟩
  · dsimp only at failed
    split at failed
    · cases failed
    · cases failed
      exact .inr ⟨_, rfl⟩

theorem read_failed (scan : Scan) (line : Line) (failure : Error) (failed : scan.read line = .error failure) :
    ∃ cause, failure = .shape line.number cause := by
  unfold read at failed
  split at failed
  · cases failed
    exact ⟨_, rfl⟩
  · split at failed <;> cases failed

theorem read_waiting (scan next : Scan) (line : Line) (header : Header) (settled : scan.waiting = none)
    (taken : scan.read line = .ok next) (waiting : next.waiting = some header) : header.number = line.number := by
  unfold read at taken
  split at taken
  · cases taken
  · split at taken
    · cases taken
      cases waiting
      rfl
    · cases taken
      rw [settled] at waiting
      cases waiting

-- A scan that fails has taken all lines above the one to blame. A header is blamed when the scan is one line further.
theorem through_failed (scan : Scan) (lines : List Line) (failure : Error) (failed : scan.through lines = .error failure) :
    (∃ header, scan.waiting = some header ∧ failure = header.missing) ∨
      ∃ front line back cause reached, lines = front ++ line :: back ∧ failure = .shape line.number cause ∧
        front.foldlM take scan = .ok reached := by
  induction lines generalizing scan with
  | nil =>
      change scan.stop = .error failure at failed
      unfold stop at failed
      split at failed
      · next header waiting =>
          cases failed
          exact .inl ⟨header, waiting, rfl⟩
      · cases failed
  | cons line rest ih =>
      rw [through_cons, take] at failed
      cases found : scan.place line with
      | error fault =>
          rw [found] at failed
          cases failed
          rcases place_failed scan line failure found with before | ⟨cause, rfl⟩
          · exact .inl before
          · exact .inr ⟨[], line, rest, cause, scan, rfl, rfl, rfl⟩
      | ok placed =>
          rw [found] at failed
          change (placed.read line).bind _ = .error failure at failed
          cases formed : placed.read line with
          | error fault =>
              rw [formed] at failed
              cases failed
              obtain ⟨cause, rfl⟩ := read_failed placed line failure formed
              exact .inr ⟨[], line, rest, cause, scan, rfl, rfl, rfl⟩
          | ok next =>
              rw [formed] at failed
              rcases ih next failed with ⟨header, waiting, rfl⟩ | ⟨front, blamed, back, cause, reached, rfl, rfl, taken⟩
              · have same := read_waiting placed next line header (place_settled scan placed line found) formed waiting
                exact .inr ⟨[], line, rest, _, scan, rfl, by rw [Header.missing, same], rfl⟩
              · refine .inr ⟨line :: front, blamed, back, cause, reached, rfl, rfl, ?_⟩
                rw [List.foldlM_cons, take, found]
                change (placed.read line >>= _) = _
                rw [formed]
                exact taken

theorem through_completed (scan : Scan) : ∃ more commands, scan.through more = .ok commands := by
  obtain ⟨innermost, outer, waiting⟩ := scan
  cases waiting with
  | none => exact ⟨[], _, rfl⟩
  | some header =>
      refine ⟨[⟨0, [.indent (header.depth + 1), .keyword .give]⟩],
        closeAll ⟨header.depth + 1, [⟨0, .give none, []⟩]⟩ ((innermost, header) :: outer), ?_⟩
      have deeper : header.depth < Line.indent ⟨0, [.indent (header.depth + 1), .keyword .give]⟩ := Nat.lt_succ_self _
      simp only [through_cons, take, place, if_pos deeper]
      rfl

theorem through_append (scan reached : Scan) (front back : List Line) (taken : front.foldlM take scan = .ok reached) :
    scan.through (front ++ back) = reached.through back := by
  rw [through, through, List.foldlM_append, taken]
  rfl

theorem of_lines_through (lines : List Line) (commands : List Command) (taken : start.through lines = .ok commands) :
    ofLines lines = .ok commands := by
  cases lines with
  | nil => exact taken
  | cons first rest =>
      by_cases level : first.indent = 0
      · rw [ofLines, if_pos level, taken]
      · rw [start, through_cons, take_deeper 0 [] [] first (Nat.pos_of_ne_zero level)] at taken
        cases taken

end Scan

namespace Command

theorem of_lines_scan (lines : List Line) : ofLines lines = Scan.ofLines lines := by
  cases lines with
  | nil => rfl
  | cons first rest =>
      rw [ofLines, Block.ofLines, Scan.ofLines]
      split
      · rw [Scan.start, Scan.through_commands]
        cases read : Block.commands 0 (first :: rest) with
        | error failure => rfl
        | ok result =>
            obtain ⟨commands, taken⟩ := result
            have all := Block.commands_taken_all (first :: rest) commands taken read
            change .ok commands = (Scan.mk ⟨0, commands⟩ [] none).through ((first :: rest).drop taken)
            rw [all, List.drop_length]
            rfl
      · rfl

/-- The recursion over blocks reads what one pass with a stack of open blocks reads. It uses up all lines, and where it
fails, no line above the one it blames is at fault: those lines begin a program. -/
theorem of_lines_scanned (lines : List Line) :
    ofLines lines = Scan.ofLines lines ∧
      (∀ commands taken, Block.ofLines 0 lines = .ok (commands, taken) → taken = lines.length) ∧
      ∀ failure, ofLines lines = .error failure →
        ∃ front line back cause, lines = front ++ line :: back ∧ failure = .shape line.number cause ∧
          ∃ more commands, ofLines (front ++ more) = .ok commands := by
  refine ⟨of_lines_scan lines, ?_, ?_⟩
  · intro commands taken read
    cases lines with
    | nil =>
        cases read
        rfl
    | cons first rest =>
        rw [Block.ofLines] at read
        split at read
        · exact Block.commands_taken_all (first :: rest) commands taken read
        · cases read
  · intro failure failed
    rw [of_lines_scan] at failed
    cases lines with
    | nil => cases failed
    | cons first rest =>
        rw [Scan.ofLines] at failed
        split at failed
        · next level =>
            rcases Scan.through_failed Scan.start _ failure failed with
              ⟨header, waiting, _⟩ | ⟨front, line, back, cause, reached, split, rfl, taken⟩
            · cases waiting
            · obtain ⟨more, commands, completed⟩ := reached.through_completed
              refine ⟨front, line, back, cause, split, rfl, more, commands, ?_⟩
              rw [of_lines_scan]
              apply Scan.of_lines_through
              rw [Scan.through_append Scan.start reached front more taken, completed]
        · cases failed
          exact ⟨[], first, rest, _, rfl, rfl, [], [], rfl⟩

example :
    Scan.ofLines [⟨1, [.indent 0, .keyword .branch, .boolean true]⟩, ⟨2, [.indent 4, .keyword .give]⟩,
      ⟨3, [.indent 2, .keyword .give]⟩] = .error (.shape 3 .unexpectedIndent) := by
  with_unfolding_all rfl

end Command

end Offside
