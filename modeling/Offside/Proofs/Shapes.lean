import Offside.Proofs.Blocks

set_option autoImplicit false

namespace Offside

def ShapeError.isOwn : ShapeError → Bool
  | .indentation _ _ | .unexpectedIndent | .missingBlock _ => false
  | .unknownCommand | .emptyExpression | .missingOperator | .expectedValue | .expectedTarget | .expectedVariable
  | .expectedProgram | .unexpectedSymbols _ => true

def Own {Result : Type} (read : Except ShapeError Result) : Prop := ∀ cause, read = .error cause → cause.isOwn = true

section

variable {Source Result : Type}

theorem own_ok {result : Result} : Own (.ok result) := nofun

theorem own_error {cause : ShapeError} (own : cause.isOwn = true) : Own (.error cause : Except ShapeError Result) := by
  intro other same
  cases same
  exact own

theorem own_map (change : Source → Result) (read : Except ShapeError Source) (own : Own read) : Own (read.map change) := by
  intro cause failed
  cases result : read with
  | ok source =>
      rw [result] at failed
      cases failed
  | error fault =>
      rw [result] at failed
      cases failed
      exact own cause result

theorem own_bind (read : Except ShapeError Source) (next : Source → Except ShapeError Result) (own : Own read)
    (further : ∀ source, Own (next source)) : Own (read >>= next) := by
  intro cause failed
  cases result : read with
  | ok source =>
      rw [result] at failed
      exact further source cause failed
  | error fault =>
      rw [result] at failed
      cases failed
      exact own cause result

theorem own_map_m (read : Source → Except ShapeError Result) (own : ∀ source, Own (read source)) (sources : List Source) :
    Own (sources.mapM read) := by
  induction sources with
  | nil => exact own_ok
  | cons first more ih =>
      rw [List.mapM_cons]
      apply own_bind _ _ (own first)
      intro result
      apply own_bind _ _ ih
      exact fun _ => own_ok

end

namespace Expr

theorem own_symbol (symbol : Symbol) : Own (ofSymbol symbol) := by
  induction symbol with
  | text value => exact own_ok
  | integer value => exact own_ok
  | boolean value => exact own_ok
  | var name => exact own_ok
  | cell index ih => exact own_map Expr.cell _ ih
  | _ => exact own_error rfl

theorem own_symbols (symbols : List Symbol) : Own (ofSymbols symbols) := by
  induction symbols using ofSymbols.induct with
  | case1 =>
      rw [ofSymbols]
      exact own_error rfl
  | case2 symbol =>
      rw [ofSymbols]
      exact own_symbol symbol
  | case3 first second rest left operator right found before after =>
      rw [ofSymbols]
      split
      · next same =>
          rw [found] at same
          cases same
          apply own_bind _ _ before
          intro earlier
          apply own_bind _ _ after
          exact fun _ => own_ok
      · exact own_error rfl
  | case4 first second rest missing =>
      rw [ofSymbols]
      split
      · next same =>
          rw [missing] at same
          cases same
      · exact own_error rfl

end Expr

theorem Target.own_symbol (symbol : Symbol) : Own (ofSymbol symbol) := by
  cases symbol with
  | var name => exact own_ok
  | cell index => exact own_map Target.cell _ (Expr.own_symbol index)
  | _ => exact own_error rfl

namespace Head

theorem own_param (symbol : Symbol) : Own (param symbol) := by
  cases symbol with
  | var name => exact own_ok
  | _ => exact own_error rfl

theorem own_read (symbols : List Symbol) : Own (readOf symbols) := by
  unfold readOf
  split
  · exact own_error rfl
  · next symbol => exact own_map _ _ (Target.own_symbol symbol)
  · next symbol _ _ =>
      apply own_bind _ _ (Target.own_symbol symbol)
      exact fun _ => own_error rfl

theorem own_assign (symbols : List Symbol) : Own (assignOf symbols) := by
  unfold assignOf
  split
  · exact own_error rfl
  · next symbol rest =>
      apply own_bind _ _ (Target.own_symbol symbol)
      intro target
      apply own_bind _ _ (Expr.own_symbols rest)
      exact fun _ => own_ok

theorem own_declare (symbols : List Symbol) : Own (declareOf symbols) := by
  unfold declareOf
  split
  · next name rest => exact own_map _ _ (Expr.own_symbols rest)
  · exact own_error rfl

theorem own_define (symbols : List Symbol) : Own (defineOf symbols) := by
  unfold defineOf
  split
  · next name rest => exact own_map _ _ (own_map_m _ own_param rest)
  · exact own_error rfl

theorem own_call (capture : Option String) (symbols : List Symbol) : Own (callOf capture symbols) := by
  unfold callOf
  split
  · next rest => exact own_map _ _ (own_map_m _ Expr.own_symbol rest)
  · exact own_error rfl

theorem own_give (symbols : List Symbol) : Own (giveOf symbols) := by
  unfold giveOf
  split
  · exact own_ok
  · exact own_map _ _ (Expr.own_symbols symbols)

theorem own_symbols (symbols : List Symbol) : Own (ofSymbols symbols) := by
  unfold ofSymbols
  split
  · next rest => exact own_map _ _ (Expr.own_symbols rest)
  · next rest => exact own_read rest
  · next rest => exact own_assign rest
  · next rest => exact own_declare rest
  · next rest => exact own_map _ _ (Expr.own_symbols rest)
  · next rest => exact own_map _ _ (Expr.own_symbols rest)
  · next rest => exact own_define rest
  · next capture rest => exact own_call (some capture) rest
  · next rest _ => exact own_call none rest
  · next rest => exact own_give rest
  · exact own_error rfl

end Head

namespace Block

inductive Blames (line : Line) : ShapeError → Prop where
  | deeper : Blames line .unexpectedIndent
  | unformed (cause : ShapeError) (failed : Head.ofSymbols line.content = .error cause) : Blames line cause
  | missing (head : Head) (formed : Head.ofSymbols line.content = .ok head) (opens : head.keyword.opensBlock = true) :
      Blames line (.missingBlock head.keyword)

theorem prepend_failed (command : Command) (taken : Nat) (read : Except Error (List Command × Nat)) (error : Error)
    (failed : prepend command taken read = .error error) : read = .error error := by
  cases read with
  | error cause =>
      cases failed
      rfl
  | ok result => cases failed

theorem commands_failed (depth : Nat) (lines : List Line) (failure : Error) (failed : commands depth lines = .error failure) :
    ∃ line ∈ lines, ∃ cause, failure = .shape line.number cause ∧ Blames line cause := by
  induction depth, lines using reading generalizing failure with
  | nil depth =>
      rw [commands_nil] at failed
      cases failed
  | above depth line rest less =>
      rw [commands_above depth line rest less] at failed
      cases failed
  | deeper depth line rest more =>
      rw [commands_deeper depth line rest more] at failed
      cases failed
      exact ⟨line, List.mem_cons_self, _, rfl, .deeper⟩
  | unformed depth line rest cause level unread =>
      rw [commands_unformed depth line rest cause level unread] at failed
      cases failed
      exact ⟨line, List.mem_cons_self, cause, rfl, .unformed cause unread⟩
  | missing depth line rest head level formed opens absent =>
      rw [commands_missing depth line rest head level formed opens absent] at failed
      cases failed
      exact ⟨line, List.mem_cons_self, _, rfl, .missing head formed opens⟩
  | block depth line rest head below level formed opens found inner outer =>
      rw [commands_block depth line rest head below level formed opens found] at failed
      cases body : commands below rest with
      | error cause =>
          rw [body] at failed
          cases failed
          obtain ⟨blamed, member, blames⟩ := inner failure body
          exact ⟨blamed, List.mem_cons_of_mem _ member, blames⟩
      | ok result =>
          rw [body] at failed
          obtain ⟨blamed, member, blames⟩ := outer result.2 failure (prepend_failed _ _ _ failure failed)
          exact ⟨blamed, List.mem_cons_of_mem _ (List.mem_of_mem_drop member), blames⟩
  | plain depth line rest head level formed closed ih =>
      rw [commands_plain depth line rest head level formed closed] at failed
      obtain ⟨blamed, member, blames⟩ := ih failure (prepend_failed _ _ _ failure failed)
      exact ⟨blamed, List.mem_cons_of_mem _ member, blames⟩

end Block

theorem Command.of_lines_failed (lines : List Line) (failure : Error) (failed : ofLines lines = .error failure) :
    (∃ first ∈ lines.head?, failure = .shape first.number (.indentation 0 first.indent)) ∨
      ∃ line ∈ lines, ∃ cause, failure = .shape line.number cause ∧ Block.Blames line cause := by
  cases lines with
  | nil => cases failed
  | cons first rest =>
      rw [ofLines, Block.ofLines] at failed
      split at failed
      · cases read : Block.commands 0 (first :: rest) with
        | error cause =>
            rw [read] at failed
            cases failed
            exact .inr (Block.commands_failed 0 _ failure read)
        | ok result =>
            rw [read] at failed
            cases failed
      · cases failed
        exact .inl ⟨first, rfl, rfl⟩

end Offside
