import Offside.Proofs.Blocks

set_option autoImplicit false

namespace Offside.Block

-- Lines at a depth lay out commands: each command takes up its own line, and one that opens a block the deeper lines
-- below it, of which there is at least one.
inductive Lays : Nat → List Line → List Command → Prop where
  | nil (depth : Nat) : Lays depth [] []
  | plain (depth : Nat) (line : Line) (rest : List Line) (head : Head) (more : List Command)
      (level : line.indent = depth) (formed : Head.ofSymbols line.content = .ok head)
      (closed : head.keyword.opensBlock = false) (after : Lays depth rest more) :
      Lays depth (line :: rest) (⟨line.number, head, []⟩ :: more)
  | block (depth below : Nat) (line : Line) (inner rest : List Line) (head : Head) (body more : List Command)
      (level : line.indent = depth) (formed : Head.ofSymbols line.content = .ok head)
      (opens : head.keyword.opensBlock = true) (deeper : depth < below) (nonempty : inner ≠ [])
      (inside : Lays below inner body) (after : Lays depth rest more) :
      Lays depth (line :: (inner ++ rest)) (⟨line.number, head, body⟩ :: more)

theorem block_nonempty (line : Line) (rest : List Line) (below : Nat) (body : List Command) (taken : Nat)
    (found : depthBelow line rest = some below) (read : commands below rest = .ok (body, taken)) :
    rest.take taken ≠ [] := by
  cases rest with
  | nil => simp [depthBelow] at found
  | cons next more =>
      have level : next.indent = below := by
        rw [depthBelow] at found
        split at found
        · exact Option.some.inj found
        · cases found
      have size := commands_taken below (next :: more) body taken read
      simp [within, level] at size
      simp [size]

theorem commands_lays (depth : Nat) (lines : List Line) (read : List Command) (taken : Nat)
    (result : commands depth lines = .ok (read, taken)) : Lays depth (lines.take taken) read := by
  induction depth, lines using reading generalizing read taken with
  | nil depth =>
      rw [commands_nil] at result
      cases result
      exact .nil depth
  | above depth line rest less =>
      rw [commands_above depth line rest less] at result
      cases result
      exact .nil depth
  | deeper depth line rest more =>
      rw [commands_deeper depth line rest more] at result
      cases result
  | unformed depth line rest cause level failed =>
      rw [commands_unformed depth line rest cause level failed] at result
      cases result
  | missing depth line rest head level formed opens absent =>
      rw [commands_missing depth line rest head level formed opens absent] at result
      cases result
  | block depth line rest head below level formed opens found inner outer =>
      obtain ⟨body, size, more, others, bodyRead, moreRead, rfl, rfl⟩ :=
        commands_block_ok depth line rest head below level formed opens found read taken result
      have deeper : depth < below := level ▸ depth_below_deeper line rest below found
      have nonempty := block_nonempty line rest below body size found bodyRead
      rw [List.take_succ_cons, List.take_add]
      exact .block depth below line _ _ head body more level formed opens deeper nonempty (inner body size bodyRead)
        (outer size more others moreRead)
  | plain depth line rest head level formed closed ih =>
      rw [commands_plain depth line rest head level formed closed] at result
      obtain ⟨more, others, moreRead, rfl, rfl⟩ := prepend_ok _ _ _ _ _ result
      rw [Nat.zero_add, List.take_succ_cons]
      exact .plain depth line _ head more level formed closed (ih more others moreRead)

theorem lays_level (depth : Nat) (lines : List Line) (commands : List Command) (laid : Lays depth lines commands) :
    ∀ first ∈ lines.head?, first.indent = depth := by
  cases laid with
  | nil => simp
  | plain _ line rest head more level => simp [level]
  | block _ below line inner rest head body more level => simp [level]

theorem lays_within (depth : Nat) (lines : List Line) (commands : List Command) (laid : Lays depth lines commands) :
    ∀ line ∈ lines, depth ≤ line.indent := by
  induction laid with
  | nil depth => exact List.forall_mem_nil _
  | plain depth line rest head more level formed closed after ih =>
      exact List.forall_mem_cons.mpr ⟨Nat.le_of_eq level.symm, ih⟩
  | block depth below line inner rest head body more level formed opens deeper nonempty inside after body_ih more_ih =>
      refine List.forall_mem_cons.mpr ⟨Nat.le_of_eq level.symm, List.forall_mem_append.mpr ⟨?_, more_ih⟩⟩
      intro line member
      exact Nat.le_trans (Nat.le_of_lt deeper) (body_ih line member)

theorem lays_nonempty (depth : Nat) (lines : List Line) (commands : List Command) (laid : Lays depth lines commands)
    (nonempty : lines ≠ []) : commands ≠ [] := by
  cases laid with
  | nil => exact absurd rfl nonempty
  | plain => exact List.cons_ne_nil _ _
  | block => exact List.cons_ne_nil _ _

end Offside.Block

theorem Offside.Command.of_lines_lays (lines : List Line) (commands : List Command) (read : ofLines lines = .ok commands) :
    Block.Lays 0 lines commands := by
  obtain ⟨parsed, _⟩ := of_lines_ok lines commands read
  have laid := Block.commands_lays 0 lines commands lines.length parsed
  rwa [List.take_length] at laid
