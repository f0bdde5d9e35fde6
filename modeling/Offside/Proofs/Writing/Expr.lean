import Offside.Expr.Infix
import Offside.Proofs.Writing.Word

set_option autoImplicit false

namespace Offside

namespace Expr

def isValue : Expr → Bool
  | .text _ | .integer _ | .boolean _ | .var _ => true
  | .cell index => isValue index
  | .binary _ _ _ => false

def operators : Expr → List Operator
  | .binary left operator right => left.operators ++ operator :: right.operators
  | .text _ | .integer _ | .boolean _ | .var _ | .cell _ => []

-- Whether the expression can be written without parentheses: operators to the left of another one bind at least as
-- tightly, those to its right more tightly.
def isWritable : Expr → Bool
  | .text _ | .integer _ | .boolean _ => true
  | .var name => name.toList.all isOrdinary
  | .cell index => index.isValue && index.isWritable
  | .binary left operator right =>
      left.isWritable && right.isWritable && left.operators.all (fun inner => decide (operator.rank ≤ inner.rank)) &&
        right.operators.all fun inner => decide (operator.rank < inner.rank)

def isRanked : Expr → Bool
  | .text _ | .integer _ | .boolean _ | .var _ => true
  | .cell index => index.isValue
  | .binary left operator right =>
      left.isRanked && right.isRanked && left.operators.all (fun inner => decide (operator.rank ≤ inner.rank)) &&
        right.operators.all fun inner => decide (operator.rank < inner.rank)

theorem writable_ranked (expr : Expr) (writable : expr.isWritable = true) : expr.isRanked = true := by
  induction expr with
  | text value => rfl
  | integer value => rfl
  | boolean value => rfl
  | var name => rfl
  | cell index _ => exact (Bool.and_eq_true_iff.mp writable).1
  | binary left operator right before after =>
      simp only [isWritable, Bool.and_eq_true] at writable
      obtain ⟨⟨⟨leftWritable, rightWritable⟩, looser⟩, tighter⟩ := writable
      simp only [isRanked, before leftWritable, after rightWritable, looser, tighter, Bool.and_self]

def symbols : Expr → List Symbol
  | .text value => [.text value]
  | .integer value => [.integer value]
  | .boolean value => [.boolean value]
  | .var name => [.var name]
  | .cell index => index.symbols.map .cell
  | .binary left operator right => left.symbols ++ .operator operator :: right.symbols

theorem symbols_nonempty (expr : Expr) : expr.symbols ≠ [] := by
  induction expr with
  | text value => exact List.cons_ne_nil _ _
  | integer value => exact List.cons_ne_nil _ _
  | boolean value => exact List.cons_ne_nil _ _
  | var name => exact List.cons_ne_nil _ _
  | cell index ih => simpa [symbols] using ih
  | binary left operator right _ _ => simp [symbols]

theorem symbols_value (expr : Expr) (isValue : expr.isValue = true) :
    ∃ symbol, expr.symbols = [symbol] ∧ ofSymbol symbol = .ok expr := by
  induction expr with
  | text value => exact ⟨.text value, rfl, rfl⟩
  | integer value => exact ⟨.integer value, rfl, rfl⟩
  | boolean value => exact ⟨.boolean value, rfl, rfl⟩
  | var name => exact ⟨.var name, rfl, rfl⟩
  | cell index ih =>
      obtain ⟨symbol, single, read⟩ := ih isValue
      refine ⟨.cell symbol, ?_, ?_⟩
      · rw [symbols, single]
        rfl
      · rw [ofSymbol, read]
        rfl
  | binary left operator right _ _ => cases isValue

theorem operator_symbols (expr : Expr) (operator : Operator) (member : .operator operator ∈ expr.symbols) :
    operator ∈ expr.operators := by
  induction expr with
  | text value => cases List.mem_singleton.mp member
  | integer value => cases List.mem_singleton.mp member
  | boolean value => cases List.mem_singleton.mp member
  | var name => cases List.mem_singleton.mp member
  | cell index _ =>
      obtain ⟨symbol, _, same⟩ := List.mem_map.mp member
      cases same
  | binary left between right before after =>
      rw [operators]
      rcases List.mem_append.mp member with inLeft | inRight
      · exact List.mem_append_left _ (before inLeft)
      · rcases List.mem_cons.mp inRight with same | inRight
        · cases same
          exact List.mem_append_right _ List.mem_cons_self
        · exact List.mem_append_right _ (List.mem_cons_of_mem _ (after inRight))

theorem loosest_found (left right : List Symbol) (operator : Operator)
    (before : ∀ inner, .operator inner ∈ left → operator.rank ≤ inner.rank)
    (after : ∀ inner, .operator inner ∈ right → operator.rank < inner.rank) :
    loosest (left ++ .operator operator :: right) = some (left, operator, right) := by
  induction left with
  | nil =>
      rw [List.nil_append, loosest]
      cases found : loosest right with
      | none => rfl
      | some parts =>
          obtain ⟨front, best, back⟩ := parts
          have present : .operator best ∈ right := by
            rw [loosest_join right front back best found]
            exact List.mem_append_right _ List.mem_cons_self
          simp only [after best present, if_true]
  | cons symbol more ih =>
      have found := ih fun inner present => before inner (List.mem_cons_of_mem _ present)
      cases symbol with
      | operator first =>
          have loose : ¬ first.rank < operator.rank := Nat.not_lt.mpr (before first List.mem_cons_self)
          simp only [List.cons_append, loosest, found, loose, if_false]
      | _ => simp only [List.cons_append, loosest, found, Option.map_some]

theorem of_symbols_binary (left right : List Symbol) (operator : Operator) (before after : Expr) (leftNonempty : left ≠ [])
    (found : loosest (left ++ .operator operator :: right) = some (left, operator, right))
    (leftRead : ofSymbols left = .ok before) (rightRead : ofSymbols right = .ok after) :
    ofSymbols (left ++ .operator operator :: right) = .ok (.binary before operator after) := by
  obtain ⟨first, second, rest, shape⟩ : ∃ first second rest, left ++ .operator operator :: right = first :: second :: rest := by
    cases left with
    | nil => exact absurd rfl leftNonempty
    | cons first more =>
        cases more with
        | nil => exact ⟨first, .operator operator, right, rfl⟩
        | cons second others => exact ⟨first, second, others ++ .operator operator :: right, rfl⟩
  rw [shape] at found ⊢
  rw [ofSymbols]
  split
  · next same =>
      rw [found] at same
      cases same
      rw [leftRead, rightRead]
      rfl
  · next none =>
      rw [found] at none
      cases none

theorem of_symbols_ranked (expr : Expr) (ranked : expr.isRanked = true) : ofSymbols expr.symbols = .ok expr := by
  induction expr with
  | text value => rw [symbols, ofSymbols, ofSymbol]
  | integer value => rw [symbols, ofSymbols, ofSymbol]
  | boolean value => rw [symbols, ofSymbols, ofSymbol]
  | var name => rw [symbols, ofSymbols, ofSymbol]
  | cell index _ =>
      obtain ⟨symbol, single, read⟩ := symbols_value (.cell index) ranked
      rw [single, ofSymbols, read]
  | binary left operator right before after =>
      simp only [isRanked, Bool.and_eq_true, List.all_eq_true, decide_eq_true_eq] at ranked
      obtain ⟨⟨⟨leftRanked, rightRanked⟩, looser⟩, tighter⟩ := ranked
      have found : loosest (left.symbols ++ .operator operator :: right.symbols) =
          some (left.symbols, operator, right.symbols) :=
        loosest_found _ _ operator (fun inner present => looser inner (operator_symbols left inner present))
          (fun inner present => tighter inner (operator_symbols right inner present))
      exact of_symbols_binary _ _ operator left right (symbols_nonempty left) found (before leftRanked) (after rightRanked)

theorem of_symbols_symbols (expr : Expr) (writable : expr.isWritable = true) : ofSymbols expr.symbols = .ok expr :=
  of_symbols_ranked expr (writable_ranked expr writable)

theorem symbols_writable (expr : Expr) (writable : expr.isWritable = true) :
    ∀ symbol ∈ expr.symbols, symbol.isWritable = true := by
  induction expr with
  | text value => exact List.forall_mem_singleton.mpr rfl
  | integer value => exact List.forall_mem_singleton.mpr rfl
  | boolean value => exact List.forall_mem_singleton.mpr rfl
  | var name => exact List.forall_mem_singleton.mpr writable
  | cell index ih =>
      obtain ⟨_, inner⟩ := Bool.and_eq_true_iff.mp writable
      exact List.forall_mem_map.mpr (ih inner)
  | binary left operator right before after =>
      simp only [isWritable, Bool.and_eq_true] at writable
      obtain ⟨⟨⟨leftWritable, rightWritable⟩, _⟩, _⟩ := writable
      exact List.forall_mem_append.mpr ⟨before leftWritable, List.forall_mem_cons.mpr ⟨rfl, after rightWritable⟩⟩

theorem symbols_of_symbol (symbol : Symbol) (expr : Expr) (read : ofSymbol symbol = .ok expr) : expr.symbols = [symbol] := by
  induction symbol generalizing expr with
  | text value =>
      cases read
      rfl
  | integer value =>
      cases read
      rfl
  | boolean value =>
      cases read
      rfl
  | var name =>
      cases read
      rfl
  | cell index ih =>
      rw [ofSymbol] at read
      cases found : ofSymbol index with
      | error cause =>
          rw [found] at read
          cases read
      | ok inner =>
          rw [found] at read
          cases read
          rw [symbols, ih inner found]
          rfl
  | indent depth => cases read
  | keyword known => cases read
  | program name => cases read
  | operator known => cases read

theorem of_symbol_value (symbol : Symbol) (expr : Expr) (read : ofSymbol symbol = .ok expr) : expr.isValue = true := by
  induction symbol generalizing expr with
  | text value =>
      cases read
      rfl
  | integer value =>
      cases read
      rfl
  | boolean value =>
      cases read
      rfl
  | var name =>
      cases read
      rfl
  | cell index ih =>
      rw [ofSymbol] at read
      cases found : ofSymbol index with
      | error cause =>
          rw [found] at read
          cases read
      | ok inner =>
          rw [found] at read
          cases read
          exact ih inner found
  | indent depth => cases read
  | keyword known => cases read
  | program name => cases read
  | operator known => cases read

theorem reading {motive : List Symbol → Expr → Prop}
    (single : ∀ symbol expr, ofSymbol symbol = .ok expr → motive [symbol] expr)
    (parted : ∀ written left operator right before after, loosest written = some (left, operator, right) →
      ofSymbols left = .ok before → ofSymbols right = .ok after → motive left before → motive right after →
      motive written (.binary before operator after))
    (written : List Symbol) (expr : Expr) (read : ofSymbols written = .ok expr) : motive written expr := by
  induction written using ofSymbols.induct generalizing expr with
  | case1 =>
      rw [ofSymbols] at read
      cases read
  | case2 symbol =>
      rw [ofSymbols] at read
      exact single symbol expr read
  | case3 first second rest left operator right found before after =>
      rw [ofSymbols] at read
      split at read
      · next same =>
          rw [found] at same
          cases same
          cases leftRead : ofSymbols left with
          | error cause =>
              rw [leftRead] at read
              cases read
          | ok earlier =>
              cases rightRead : ofSymbols right with
              | error cause =>
                  rw [leftRead, rightRead] at read
                  cases read
              | ok later =>
                  rw [leftRead, rightRead] at read
                  cases read
                  exact parted _ left operator right earlier later found leftRead rightRead (before earlier leftRead)
                    (after later rightRead)
      · cases read
  | case4 first second rest missing =>
      rw [ofSymbols] at read
      split at read
      · next same =>
          rw [missing] at same
          cases same
      · cases read

theorem symbols_of_symbols (written : List Symbol) (expr : Expr) (read : ofSymbols written = .ok expr) :
    expr.symbols = written := by
  refine reading (motive := fun written expr => expr.symbols = written) symbols_of_symbol ?_ written expr read
  intro written left operator right before after found _ _ leftSame rightSame
  rw [symbols, leftSame, rightSame]
  exact (loosest_join _ left right operator found).symm

end Expr

namespace Target

def expr : Target → Expr
  | .var name => .var name
  | .cell index => .cell index

theorem of_symbol_target (target : Target) (writable : target.expr.isWritable = true) :
    ∃ symbol, target.expr.symbols = [symbol] ∧ ofSymbol symbol = .ok target := by
  cases target with
  | var name => exact ⟨.var name, rfl, rfl⟩
  | cell index =>
      obtain ⟨value, _⟩ := Bool.and_eq_true_iff.mp writable
      obtain ⟨symbol, single, read⟩ := Expr.symbols_value index value
      refine ⟨.cell symbol, ?_, ?_⟩
      · rw [expr, Expr.symbols, single]
        rfl
      · rw [ofSymbol, read]
        rfl

theorem symbols_of_symbol (symbol : Symbol) (target : Target) (read : ofSymbol symbol = .ok target) :
    target.expr.symbols = [symbol] := by
  cases symbol with
  | var name =>
      cases read
      rfl
  | cell index =>
      rw [ofSymbol] at read
      cases found : Expr.ofSymbol index with
      | error cause =>
          rw [found] at read
          cases read
      | ok inner =>
          rw [found] at read
          cases read
          rw [expr, Expr.symbols, Expr.symbols_of_symbol index inner found]
          rfl
  | _ => cases read

end Target

end Offside
