import Offside.Error
import Offside.Expr

set_option autoImplicit false

namespace Offside

namespace Expr

def ofSymbol : Symbol → Except ShapeError Expr
  | .text value => .ok (.text value)
  | .integer value => .ok (.integer value)
  | .boolean value => .ok (.boolean value)
  | .var name => .ok (.var name)
  | .cell index => (ofSymbol index).map .cell
  | .indent _ | .keyword _ | .program _ | .operator _ => .error .expectedValue

-- Parts a sequence at its loosest operator, the last one where several are equally loose.
def loosest : List Symbol → Option (List Symbol × Operator × List Symbol)
  | [] => none
  | .operator first :: rest =>
      match loosest rest with
      | some (left, best, right) =>
          if first.rank < best.rank then some ([], first, rest) else some (.operator first :: left, best, right)
      | none => some ([], first, rest)
  | symbol :: rest => (loosest rest).map fun (left, best, right) => (symbol :: left, best, right)

theorem loosest_join (symbols left right : List Symbol) (best : Operator)
    (found : loosest symbols = some (left, best, right)) : symbols = left ++ .operator best :: right := by
  induction symbols generalizing left best right with
  | nil => simp [loosest] at found
  | cons symbol rest ih =>
      cases symbol with
      | operator first =>
          rw [loosest] at found
          split at found
          · next inner =>
              split at found
              · simp only [Option.some.injEq, Prod.mk.injEq] at found
                obtain ⟨rfl, rfl, rfl⟩ := found
                rfl
              · simp only [Option.some.injEq, Prod.mk.injEq] at found
                obtain ⟨rfl, rfl, rfl⟩ := found
                rw [List.cons_append, ← ih _ _ _ inner]
          · simp only [Option.some.injEq, Prod.mk.injEq] at found
            obtain ⟨rfl, rfl, rfl⟩ := found
            rfl
      | _ =>
          simp only [loosest, Option.map_eq_some_iff, Prod.mk.injEq, Prod.exists] at found
          obtain ⟨inner, same, tail, parted, rfl, rfl, rfl⟩ := found
          rw [List.cons_append, ← ih _ _ _ parted]

theorem loosest_shorter (symbols left right : List Symbol) (best : Operator)
    (found : loosest symbols = some (left, best, right)) :
    left.length < symbols.length ∧ right.length < symbols.length := by
  rw [loosest_join symbols left right best found, List.length_append, List.length_cons]
  omega

def ofSymbols (symbols : List Symbol) : Except ShapeError Expr :=
  match symbols with
  | [] => .error .emptyExpression
  | [symbol] => ofSymbol symbol
  | first :: second :: rest =>
      match _ : loosest (first :: second :: rest) with
      | some (left, operator, right) => do
          let before ← ofSymbols left
          let after ← ofSymbols right
          .ok (.binary before operator after)
      | none => .error .missingOperator
termination_by symbols.length
decreasing_by
  · exact (loosest_shorter _ _ _ _ ‹loosest _ = some _›).1
  · exact (loosest_shorter _ _ _ _ ‹loosest _ = some _›).2

end Expr

namespace Target

def ofSymbol : Symbol → Except ShapeError Target
  | .var name => .ok (.var name)
  | .cell index => (Expr.ofSymbol index).map .cell
  | .text _ | .integer _ | .boolean _ | .indent _ | .keyword _ | .program _ | .operator _ => .error .expectedTarget

end Target

end Offside
