set_option autoImplicit false

namespace Offside

inductive Quoting where
  | outside
  | inside (afterBackslash : Bool)
deriving DecidableEq, Repr

namespace Quoting

-- An apostrophe opens a literal, and the next one closes it unless a backslash stands right before.
def next : Quoting → Char → Quoting
  | .outside, c => if c = '\'' then .inside false else .outside
  | .inside afterBackslash, c =>
      if c = '\'' && !afterBackslash then .outside else .inside (c = '\\')

def separates : Quoting → Char → Bool
  | .outside, c => c = ' '
  | .inside _, _ => false

end Quoting

inductive Run where
  | gap (text : List Char)
  | word (text : List Char)
deriving DecidableEq, Repr

namespace Run

def text : Run → List Char
  | .gap text => text
  | .word text => text

def word? : Run → Option (List Char)
  | .gap _ => none
  | .word text => some text

def attach (separating : Bool) (c : Char) : List Run → List Run
  | [] => if separating then [.gap [c]] else [.word [c]]
  | .gap text :: more => if separating then .gap (c :: text) :: more else .word [c] :: .gap text :: more
  | .word text :: more => if separating then .gap [c] :: .word text :: more else .word (c :: text) :: more

def scan (quoting : Quoting) : List Char → List Run
  | [] => []
  | c :: rest => attach (quoting.separates c) c (scan (quoting.next c) rest)

def ofRow (row : List Char) : List Run := scan .outside row

def words (row : List Char) : List (List Char) := (ofRow row).filterMap word?

theorem attach_text (separating : Bool) (c : Char) (runs : List Run) :
    (attach separating c runs).flatMap text = c :: runs.flatMap text := by
  cases runs with
  | nil => cases separating <;> rfl
  | cons run more => cases run <;> cases separating <;> rfl

theorem scan_text (quoting : Quoting) (row : List Char) : (scan quoting row).flatMap text = row := by
  induction row generalizing quoting with
  | nil => rfl
  | cons c rest ih => rw [scan, attach_text, ih]

theorem of_row_text (row : List Char) : (ofRow row).flatMap text = row := scan_text .outside row

theorem attach_nonempty (separating : Bool) (c : Char) (runs : List Run)
    (nonempty : ∀ run ∈ runs, run.text ≠ []) : ∀ run ∈ attach separating c runs, run.text ≠ [] := by
  cases runs with
  | nil => cases separating <;> simp [attach, text]
  | cons run more =>
      have tail : ∀ run ∈ more, run.text ≠ [] := (List.forall_mem_cons.mp nonempty).2
      cases run with
      | gap spaces =>
          cases separating with
          | true => exact List.forall_mem_cons.mpr ⟨List.cons_ne_nil _ _, tail⟩
          | false => exact List.forall_mem_cons.mpr ⟨List.cons_ne_nil _ _, nonempty⟩
      | word chars =>
          cases separating with
          | true => exact List.forall_mem_cons.mpr ⟨List.cons_ne_nil _ _, nonempty⟩
          | false => exact List.forall_mem_cons.mpr ⟨List.cons_ne_nil _ _, tail⟩

theorem scan_nonempty (quoting : Quoting) (row : List Char) : ∀ run ∈ scan quoting row, run.text ≠ [] := by
  induction row generalizing quoting with
  | nil => exact List.forall_mem_nil _
  | cons c rest ih => exact attach_nonempty _ c _ (ih _)

end Run

structure Span where
  start : Nat
  stop : Nat
  text : List Char
deriving DecidableEq, Repr

namespace Span

def byteSize : List Char → Nat
  | [] => 0
  | c :: rest => c.utf8Size + byteSize rest

def scan (offset : Nat) : List Run → List Span
  | [] => []
  | run :: more =>
      let stop := offset + byteSize run.text
      match run with
      | .gap _ => scan stop more
      | .word text => ⟨offset, stop, text⟩ :: scan stop more

def ofRow (row : List Char) : List Span := scan 0 (Run.ofRow row)

end Span

end Offside
