import Offside.Proofs.Writing.Word

set_option autoImplicit false

namespace Offside

namespace Span

def bounds (span : Span) : Nat × Nat := (span.start, span.stop)

theorem scan_space (offset : Nat) (c : Char) (runs : List Run) :
    scan offset (Run.attach true c runs) = scan (offset + c.utf8Size) runs := by
  cases runs with
  | nil => rfl
  | cons run more => cases run <;> simp [Run.attach, scan, Run.text, byteSize, Nat.add_assoc]

-- What one pass over a row keeps: where the word that it is in started, whether a literal is open, and the last
-- character that stood in a word.
structure Cursor where
  start : Option Nat
  isOpen : Bool
  last : Char

namespace Cursor

def begin : Cursor := ⟨none, false, '\x00'⟩

def finish (cursor : Cursor) (offset : Nat) : List (Nat × Nat) := cursor.start.toList.map fun start => (start, offset)

def pass (cursor : Cursor) (offset : Nat) (c : Char) : Cursor :=
  ⟨some (cursor.start.getD offset), if c = '\'' then !cursor.isOpen || cursor.last = '\\' else cursor.isOpen, c⟩

def sweep (cursor : Cursor) (offset : Nat) : List Char → List (Nat × Nat)
  | [] => cursor.finish offset
  | c :: rest =>
      if c = ' ' && !cursor.isOpen then
        cursor.finish offset ++ sweep { cursor with start := none } (offset + c.utf8Size) rest
      else sweep (cursor.pass offset c) (offset + c.utf8Size) rest

-- Where no literal is open, the last character says nothing: behind a gap it is an old one.
def quoting (cursor : Cursor) : Quoting := if cursor.isOpen then .inside (cursor.last = '\\') else .outside

theorem quoting_separates (cursor : Cursor) (c : Char) : cursor.quoting.separates c = (c = ' ' && !cursor.isOpen) := by
  cases isOpen : cursor.isOpen <;> simp [quoting, isOpen, Quoting.separates]

theorem quoting_pass (cursor : Cursor) (offset : Nat) (c : Char) : (cursor.pass offset c).quoting = cursor.quoting.next c := by
  by_cases apostrophe : c = '\''
  · cases isOpen : cursor.isOpen with
    | false => simp [pass, quoting, isOpen, apostrophe, Quoting.next]
    | true => by_cases escaped : cursor.last = '\\' <;> simp [pass, quoting, isOpen, apostrophe, escaped, Quoting.next]
  · cases isOpen : cursor.isOpen <;> simp [pass, quoting, isOpen, apostrophe, Quoting.next]

def resume (start : Option Nat) (offset : Nat) (runs : List Run) : List (Nat × Nat) :=
  match start, runs with
  | none, runs => (scan offset runs).map bounds
  | some start, .word text :: more => (start, offset + byteSize text) :: (scan (offset + byteSize text) more).map bounds
  | some start, runs => (start, offset) :: (scan offset runs).map bounds

theorem resume_space (cursor : Cursor) (offset : Nat) (c : Char) (runs : List Run) :
    resume cursor.start offset (Run.attach true c runs) =
      cursor.finish offset ++ resume none (offset + c.utf8Size) runs := by
  cases start : cursor.start with
  | none => simp [resume, finish, start, scan_space]
  | some first =>
      obtain ⟨spaces, more, attached⟩ : ∃ spaces more, Run.attach true c runs = .gap spaces :: more := by
        cases runs with
        | nil => exact ⟨_, _, rfl⟩
        | cons run more => cases run <;> exact ⟨_, _, rfl⟩
      have passed := scan_space offset c runs
      rw [attached] at passed
      rw [attached, resume, resume, passed, finish, start]
      · rfl
      · exact nofun

theorem resume_word (start : Option Nat) (offset : Nat) (c : Char) (runs : List Run) :
    resume start offset (Run.attach false c runs) = resume (some (start.getD offset)) (offset + c.utf8Size) runs := by
  cases runs with
  | nil => cases start <;> simp [Run.attach, resume, scan, bounds, Run.text, byteSize]
  | cons run more =>
      cases run <;> cases start <;> simp [Run.attach, resume, scan, bounds, Run.text, byteSize, Nat.add_assoc]

theorem sweep_resume (cursor : Cursor) (offset : Nat) (row : List Char) :
    cursor.sweep offset row = resume cursor.start offset (Run.scan cursor.quoting row) := by
  induction row generalizing cursor offset with
  | nil => cases start : cursor.start <;> simp [sweep, finish, resume, Run.scan, scan, start]
  | cons c rest ih =>
      rw [sweep, Run.scan, quoting_separates]
      by_cases separates : (c = ' ' && !cursor.isOpen) = true
      · have outside := (cursor.quoting.separates_iff c).mp ((cursor.quoting_separates c).trans separates)
        have stays : cursor.quoting.next c = cursor.quoting := by
          rw [outside.1, outside.2]
          rfl
        rw [if_pos separates, separates, stays, resume_space, ih]
        rfl
      · rw [if_neg separates, Bool.of_not_eq_true separates, resume_word, ih, quoting_pass]
        rfl

end Cursor

theorem sweep_of_row (row : List Char) : Cursor.begin.sweep 0 row = (ofRow row).map bounds :=
  Cursor.sweep_resume Cursor.begin 0 row

example : Cursor.begin.sweep 0 "\\ 'é 'b ".toList = [(0, 1), (2, 8)] := by decide

end Span

end Offside
