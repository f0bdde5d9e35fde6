import Mathlib.Data.List.Forall2
import Offside.Proofs.Layout
import Offside.Proofs.Sites
import Offside.Proofs.Writing.Head

set_option autoImplicit false

namespace Offside

structure Nested where
  command : Command
  outer : List Nat

namespace Command

mutual

def listed (outer : List Nat) (place : Nat) : Command → List Nested
  | ⟨line, head, body⟩ => ⟨⟨line, head, body⟩, outer⟩ :: listedAll (place :: outer) (place + 1) body

def listedAll (outer : List Nat) (place : Nat) : List Command → List Nested
  | [] => []
  | command :: more => listed outer place command ++ listedAll outer (place + command.size) more

end

def listing (commands : List Command) : List Nested := listedAll [] 0 commands

mutual

theorem listed_length (outer : List Nat) (place : Nat) : (command : Command) →
    (listed outer place command).length = command.size
  | ⟨_, _, body⟩ => by rw [listed, size, List.length_cons, listed_all_length (place :: outer) (place + 1) body]

theorem listed_all_length (outer : List Nat) (place : Nat) : (commands : List Command) →
    (listedAll outer place commands).length = sizes commands
  | [] => rfl
  | command :: more => by
      rw [listedAll, sizes, List.length_append, listed_length outer place command,
        listed_all_length outer (place + command.size) more]

end

end Command

structure Nested.Reads (entry : Nested) (line : Line) : Prop where
  number : entry.command.line = line.number
  symbols : entry.command.head.symbols = line.content
  block : entry.command.body ≠ [] ↔ entry.command.head.keyword.opensBlock = true

namespace Block

theorem lays_reads (depth : Nat) (lines : List Line) (commands : List Command) (laid : Lays depth lines commands)
    (outer : List Nat) (place : Nat) : List.Forall₂ Nested.Reads (Command.listedAll outer place commands) lines := by
  induction laid generalizing outer place with
  | nil depth => exact .nil
  | plain depth line rest head more level formed closed after ih =>
      have here : Nested.Reads ⟨⟨line.number, head, []⟩, outer⟩ line :=
        ⟨rfl, head.symbols_of_symbols line.content formed, by simp [closed]⟩
      exact .cons here (ih outer (place + 1))
  | block depth below line inner rest head body more level formed opens deeper nonempty inside after body_ih more_ih =>
      have filled := lays_nonempty below inner body inside nonempty
      have here : Nested.Reads ⟨⟨line.number, head, body⟩, outer⟩ line :=
        ⟨rfl, head.symbols_of_symbols line.content formed, by simp [filled, opens]⟩
      exact .cons here (List.rel_append (body_ih (place :: outer) (place + 1)) (more_ih outer _))

end Block

namespace Line

-- Everything from below one line down to another is deeper than the first.
def Encloses (lines : List Line) (upper lower : Nat) : Prop :=
  upper < lower ∧ ∀ header line place, lines[upper]? = some header → lines[place]? = some line → upper < place →
    place ≤ lower → header.indent < line.indent

theorem encloses_cons (first : Line) (lines : List Line) (upper lower : Nat) :
    Encloses (first :: lines) (upper + 1) (lower + 1) ↔ Encloses lines upper lower := by
  constructor
  · rintro ⟨before, deeper⟩
    refine ⟨by omega, fun header line place found reached below above => ?_⟩
    exact deeper header line (place + 1) (by simpa using found) (by simpa using reached) (by omega) (by omega)
  · rintro ⟨before, deeper⟩
    refine ⟨by omega, fun header line place found reached below above => ?_⟩
    obtain ⟨place, rfl⟩ : ∃ earlier, place = earlier + 1 := ⟨place - 1, by omega⟩
    exact deeper header line place (by simpa using found) (by simpa using reached) (by omega) (by omega)

theorem encloses_first (first : Line) (lines : List Line) (lower : Nat)
    (deeper : ∀ line ∈ lines, first.indent < line.indent) : Encloses (first :: lines) 0 (lower + 1) := by
  refine ⟨by omega, fun header line place found reached below above => ?_⟩
  obtain ⟨place, rfl⟩ : ∃ earlier, place = earlier + 1 := ⟨place - 1, by omega⟩
  cases found
  exact deeper line (List.mem_of_getElem? (by simpa using reached))

theorem encloses_front (front back : List Line) (upper lower : Nat) (inside : lower < front.length) :
    Encloses (front ++ back) upper lower ↔ Encloses front upper lower := by
  have same : ∀ place, place ≤ lower → (front ++ back)[place]? = front[place]? := fun place below =>
    List.getElem?_append_left (by omega)
  constructor
  · rintro ⟨before, deeper⟩
    refine ⟨before, fun header line place found reached below above => ?_⟩
    rw [← same upper (by omega)] at found
    rw [← same place above] at reached
    exact deeper header line place found reached below above
  · rintro ⟨before, deeper⟩
    refine ⟨before, fun header line place found reached below above => ?_⟩
    rw [same upper (by omega)] at found
    rw [same place above] at reached
    exact deeper header line place found reached below above

theorem encloses_back (front back : List Line) (upper lower : Nat) :
    Encloses (front ++ back) (front.length + upper) (front.length + lower) ↔ Encloses back upper lower := by
  induction front with
  | nil => simp
  | cons first more ih =>
      rw [List.cons_append, List.length_cons, Nat.add_right_comm, Nat.add_right_comm _ 1, encloses_cons, ih]

theorem encloses_apart (front back : List Line) (first : Line) (upper lower : Nat) (inside : upper < front.length)
    (next : back.head? = some first) (shallow : ∀ header ∈ front, first.indent ≤ header.indent) :
    ¬ Encloses (front ++ back) upper (front.length + lower) := by
  rintro ⟨_, deeper⟩
  have reached : (front ++ back)[front.length]? = some first := by
    rw [List.getElem?_append_right (Nat.le_refl _), Nat.sub_self, ← List.head?_eq_getElem?, next]
  have found : (front ++ back)[upper]? = some front[upper] := by
    rw [List.getElem?_append_left inside, List.getElem?_eq_getElem inside]
  have below := deeper front[upper] first front.length found reached inside (by omega)
  exact absurd below (Nat.not_lt.mpr (shallow _ (List.getElem_mem inside)))

end Line

-- The commands that an entry is nested in are those around all entries and those whose lines enclose its line.
def Nests (outer : List Nat) (start : Nat) (entries : List Nested) (lines : List Line) : Prop :=
  ∀ place entry, entries[place]? = some entry →
    ∀ other, other ∈ entry.outer ↔ other ∈ outer ∨ ∃ shift, other = start + shift ∧ Line.Encloses lines shift place

namespace Block

theorem nests_header (outer : List Nat) (start : Nat) (line : Line) (inner : List Line) (command : Command)
    (deeper : ∀ below ∈ inner, line.indent < below.indent)
    (inside : Nests (start :: outer) (start + 1) (Command.listedAll (start :: outer) (start + 1) command.body) inner) :
    Nests outer start (command.listed outer start) (line :: inner) := by
  obtain ⟨number, head, body⟩ := command
  intro place entry found other
  rw [Command.listed] at found
  cases place with
  | zero =>
      cases found
      simp [Line.Encloses]
  | succ place =>
      rw [inside place entry found other, List.mem_cons]
      constructor
      · rintro ((rfl | around) | ⟨shift, rfl, enclosed⟩)
        · exact .inr ⟨0, rfl, Line.encloses_first line inner place deeper⟩
        · exact .inl around
        · exact .inr ⟨shift + 1, by omega, (Line.encloses_cons line inner shift place).mpr enclosed⟩
      · rintro (around | ⟨shift, rfl, enclosed⟩)
        · exact .inl (.inr around)
        · cases shift with
          | zero => exact .inl (.inl rfl)
          | succ shift => exact .inr ⟨shift, by omega, (Line.encloses_cons line inner shift place).mp enclosed⟩

theorem nests_append (outer : List Nat) (start : Nat) (front back : List Nested) (upper lower : List Line)
    (size : front.length = upper.length) (backSize : back.length = lower.length)
    (shallow : ∀ first ∈ lower.head?, ∀ header ∈ upper, first.indent ≤ header.indent)
    (before : Nests outer start front upper) (after : Nests outer (start + upper.length) back lower) :
    Nests outer start (front ++ back) (upper ++ lower) := by
  intro place entry found other
  by_cases early : place < front.length
  · rw [List.getElem?_append_left early] at found
    rw [before place entry found other]
    simp only [Line.encloses_front upper lower _ place (size ▸ early)]
  · rw [List.getElem?_append_right (Nat.not_lt.mp early)] at found
    rw [after _ entry found other]
    obtain ⟨later, rfl⟩ : ∃ later, place = upper.length + later := ⟨place - upper.length, by omega⟩
    have reached : later < lower.length := by
      have bound := (List.getElem?_eq_some_iff.mp found).1
      omega
    obtain ⟨first, next⟩ : ∃ first, lower.head? = some first := by
      cases lower with
      | nil => simp at reached
      | cons first rest => exact ⟨first, rfl⟩
    simp only [size, Nat.add_sub_cancel_left]
    constructor
    · rintro (around | ⟨shift, rfl, enclosed⟩)
      · exact .inl around
      · exact .inr ⟨upper.length + shift, by omega, (Line.encloses_back upper lower shift later).mpr enclosed⟩
    · rintro (around | ⟨shift, rfl, enclosed⟩)
      · exact .inl around
      · by_cases inside : shift < upper.length
        · exact absurd enclosed (Line.encloses_apart upper lower first shift later inside next (shallow first next))
        · obtain ⟨shift, rfl⟩ : ∃ further, shift = upper.length + further := ⟨shift - upper.length, by omega⟩
          exact .inr ⟨shift, by omega, (Line.encloses_back upper lower shift later).mp enclosed⟩

theorem lays_size (depth : Nat) (lines : List Line) (commands : List Command) (laid : Lays depth lines commands) :
    Command.sizes commands = lines.length := by
  have same := (lays_reads depth lines commands laid [] 0).length_eq
  rwa [Command.listed_all_length] at same

theorem lays_nests (depth : Nat) (lines : List Line) (commands : List Command) (laid : Lays depth lines commands)
    (outer : List Nat) (start : Nat) : Nests outer start (Command.listedAll outer start commands) lines := by
  induction laid generalizing outer start with
  | nil depth =>
      intro place entry found
      cases found
  | plain depth line rest head more level formed closed after ih =>
      have here : Nests outer start (Command.listed outer start ⟨line.number, head, []⟩) [line] :=
        nests_header outer start line [] ⟨line.number, head, []⟩ (List.forall_mem_nil _) nofun
      refine nests_append outer start _ _ [line] rest rfl ?_ ?_ here (ih outer (start + 1))
      · rw [Command.listed_all_length, lays_size depth rest more after]
      · intro first next header member
        rw [List.mem_singleton.mp member, level, lays_level depth rest more after first next]
  | block depth below line inner rest head body more level formed opens deeper nonempty inside after body_ih more_ih =>
      have below_line : ∀ next ∈ inner, line.indent < next.indent := fun next member =>
        level ▸ Nat.lt_of_lt_of_le deeper (lays_within below inner body inside next member)
      have here : Nests outer start (Command.listed outer start ⟨line.number, head, body⟩) (line :: inner) :=
        nests_header outer start line inner ⟨line.number, head, body⟩ below_line (body_ih (start :: outer) (start + 1))
      have size : Command.size ⟨line.number, head, body⟩ = (line :: inner).length := by
        rw [Command.size, lays_size below inner body inside, List.length_cons]
      rw [Command.listedAll, size]
      refine nests_append outer start _ _ (line :: inner) rest ?_ ?_ ?_ here (more_ih outer _)
      · rw [Command.listed_length, size]
      · rw [Command.listed_all_length, lays_size depth rest more after]
      · intro first next header member
        rw [lays_level depth rest more after first next, ← level]
        rcases List.mem_cons.mp member with rfl | later
        · exact Nat.le_refl _
        · exact Nat.le_of_lt (below_line header later)

end Block

/-- Nothing is lost or made up in reading a program: its commands are its lines one by one, and the blocks are as deep
as the indents say. -/
theorem Command.listing_of_lines (lines : List Line) (commands : List Command) (read : ofLines lines = .ok commands) :
    List.Forall₂ Nested.Reads (listing commands) lines ∧
      ∀ (place : Nat) (entry : Nested), (listing commands)[place]? = some entry →
        ∀ other, other ∈ entry.outer ↔ Line.Encloses lines other place := by
  have laid := of_lines_lays lines commands read
  refine ⟨Block.lays_reads 0 lines commands laid [] 0, ?_⟩
  intro place entry found other
  rw [Block.lays_nests 0 lines commands laid [] 0 place entry found other]
  simp

theorem Command.listing_of_lines_loop :
    let lines : List Line :=
      [⟨1, [.indent 0, .keyword .define, .program "f", .var "a"]⟩,
        ⟨3, [.indent 2, .keyword .loop, .boolean true]⟩,
        ⟨4, [.indent 5, .keyword .give]⟩,
        ⟨7, [.indent 2, .keyword .log, .var "a", .operator .plus, .integer 1]⟩,
        ⟨8, [.indent 0, .keyword .call, .var "a", .program "f", .cell (.integer 2)]⟩]
    ∃ commands, ofLines lines = .ok commands ∧ List.Forall₂ Nested.Reads (listing commands) lines ∧
      Line.Encloses lines 1 2 ∧ Line.Encloses lines 0 3 ∧ ¬ Line.Encloses lines 1 3 := by
  intro lines
  let commands : List Command :=
    [⟨1, .define "f" ["a"],
      [⟨3, .loop (.boolean true), [⟨4, .give none, []⟩]⟩, ⟨7, .log (.binary (.var "a") .plus (.integer 1)), []⟩]⟩,
      ⟨8, .call "f" [.cell (.integer 2)] (some "a"), []⟩]
  have read : ofLines lines = .ok commands := by with_unfolding_all rfl
  obtain ⟨written, nested⟩ := listing_of_lines lines commands read
  have innermost := nested 2 ⟨⟨4, .give none, []⟩, [1, 0]⟩ rfl
  have last := nested 3 ⟨⟨7, .log (.binary (.var "a") .plus (.integer 1)), []⟩, [0]⟩ rfl
  refine ⟨commands, read, written, (innermost 1).mp (by decide), (last 0).mp (by decide), ?_⟩
  intro enclosed
  exact absurd ((last 1).mpr enclosed) (by decide)

end Offside
