import Offside.Proofs.Writing.Expr

set_option autoImplicit false

namespace Offside

structure Symbol.Alternate (symbols : List Symbol) : Prop where
  odd : symbols.length % 2 = 1
  value : ∀ place symbol, symbols[place]? = some symbol → place % 2 = 0 → symbol.isValue = true
  operator : ∀ place symbol, symbols[place]? = some symbol → place % 2 = 1 → ∃ operator, symbol = .operator operator

namespace Symbol

theorem alternate_singleton (symbol : Symbol) : Alternate [symbol] ↔ symbol.isValue = true := by
  constructor
  · exact fun alternate => alternate.value 0 symbol rfl rfl
  · intro value
    refine ⟨rfl, fun place other found _ => ?_, fun place other found odd => ?_⟩
    · cases place with
      | zero =>
          cases found
          exact value
      | succ place => cases found
    · cases place with
      | zero => cases odd
      | succ place => cases found

theorem placed_join (left right : List Symbol) (middle symbol : Symbol) (place : Nat) :
    (left ++ middle :: right)[place]? = some symbol ↔
      left[place]? = some symbol ∨ (place = left.length ∧ middle = symbol) ∨
        ∃ shift, place = left.length + 1 + shift ∧ right[shift]? = some symbol := by
  induction left generalizing place with
  | nil =>
      cases place with
      | zero =>
          have apart : ∀ shift, 0 ≠ 1 + shift := by omega
          simp [apart]
      | succ place => simp [Nat.add_comm 1]
  | cons first more ih =>
      cases place with
      | zero =>
          have apart : ∀ shift, 0 ≠ more.length + 1 + 1 + shift := by omega
          simp [apart]
      | succ place =>
          simp only [List.cons_append, List.getElem?_cons_succ, List.length_cons, ih, Nat.add_right_cancel_iff]
          refine or_congr_right (or_congr_right (exists_congr fun shift => and_congr_left fun _ => ?_))
          omega

theorem alternate_operator (left right : List Symbol) (operator : Operator) :
    Alternate (left ++ .operator operator :: right) ↔ Alternate left ∧ Alternate right := by
  have size : (left ++ .operator operator :: right).length = left.length + 1 + right.length := by simp; omega
  constructor
  · intro whole
    have between : left.length % 2 = 1 := by
      by_contra even
      have value := whole.value left.length _ ((placed_join left right _ _ _).mpr (.inr (.inl ⟨rfl, rfl⟩))) (by omega)
      cases value
    have total := whole.odd
    have front : ∀ place symbol, left[place]? = some symbol → (left ++ .operator operator :: right)[place]? = some symbol :=
      fun place symbol found => (placed_join left right _ _ _).mpr (.inl found)
    have back : ∀ shift symbol, right[shift]? = some symbol →
        (left ++ .operator operator :: right)[left.length + 1 + shift]? = some symbol :=
      fun shift symbol found => (placed_join left right _ _ _).mpr (.inr (.inr ⟨shift, rfl, found⟩))
    refine ⟨⟨between, ?_, ?_⟩, ⟨by omega, ?_, ?_⟩⟩
    · exact fun place symbol found even => whole.value place symbol (front place symbol found) even
    · exact fun place symbol found odd => whole.operator place symbol (front place symbol found) odd
    · exact fun shift symbol found even => whole.value _ symbol (back shift symbol found) (by omega)
    · exact fun shift symbol found odd => whole.operator _ symbol (back shift symbol found) (by omega)
  · rintro ⟨before, after⟩
    have leftOdd := before.odd
    have rightOdd := after.odd
    refine ⟨by omega, fun place symbol found even => ?_, fun place symbol found odd => ?_⟩
    · rcases (placed_join left right _ symbol place).mp found with first | ⟨rfl, _⟩ | ⟨shift, rfl, later⟩
      · exact before.value place symbol first even
      · omega
      · exact after.value shift symbol later (by omega)
    · rcases (placed_join left right _ symbol place).mp found with first | ⟨_, rfl⟩ | ⟨shift, rfl, later⟩
      · exact before.operator place symbol first odd
      · exact ⟨operator, rfl⟩
      · exact after.operator shift symbol later (by omega)

end Symbol

namespace Expr

theorem of_symbol_ok (symbol : Symbol) : (∃ expr, ofSymbol symbol = .ok expr) ↔ symbol.isValue = true := by
  induction symbol with
  | cell index ih =>
      rw [ofSymbol, Symbol.isValue, ← ih]
      cases ofSymbol index <;> simp [Except.map]
  | _ => simp [ofSymbol, Symbol.isValue]

theorem loosest_none (symbols : List Symbol) (missing : loosest symbols = none) (operator : Operator) :
    .operator operator ∉ symbols := by
  induction symbols with
  | nil => exact List.not_mem_nil
  | cons symbol rest ih =>
      cases symbol with
      | operator first =>
          rw [loosest] at missing
          split at missing
          · split at missing <;> cases missing
          · cases missing
      | _ => simpa using ih (by simpa [loosest] using missing)

theorem loosest_ranked (symbols left right : List Symbol) (best : Operator)
    (found : loosest symbols = some (left, best, right)) :
    (∀ inner, .operator inner ∈ left → best.rank ≤ inner.rank) ∧ ∀ inner, .operator inner ∈ right → best.rank < inner.rank := by
  induction symbols generalizing left best right with
  | nil => simp [loosest] at found
  | cons symbol rest ih =>
      cases symbol with
      | operator first =>
          rw [loosest] at found
          split at found
          · next front next back inner =>
              obtain ⟨before, after⟩ := ih _ _ _ inner
              split at found
              · next looser =>
                  simp only [Option.some.injEq, Prod.mk.injEq] at found
                  obtain ⟨rfl, rfl, rfl⟩ := found
                  refine ⟨fun _ member => absurd member List.not_mem_nil, fun other member => ?_⟩
                  rw [loosest_join _ _ _ _ inner] at member
                  rcases List.mem_append.mp member with inFront | inBack
                  · exact Nat.lt_of_lt_of_le looser (before other inFront)
                  · rcases List.mem_cons.mp inBack with same | later
                    · cases same
                      exact looser
                    · exact Nat.lt_trans looser (after other later)
              · next tighter =>
                  simp only [Option.some.injEq, Prod.mk.injEq] at found
                  obtain ⟨rfl, rfl, rfl⟩ := found
                  refine ⟨fun other member => ?_, after⟩
                  rcases List.mem_cons.mp member with same | later
                  · cases same
                    exact Nat.not_lt.mp tighter
                  · exact before other later
          · next missing =>
              simp only [Option.some.injEq, Prod.mk.injEq] at found
              obtain ⟨rfl, rfl, rfl⟩ := found
              exact ⟨fun _ member => absurd member List.not_mem_nil, fun inner member => absurd member (loosest_none _ missing inner)⟩
      | _ =>
          simp only [loosest, Option.map_eq_some_iff, Prod.mk.injEq, Prod.exists] at found
          obtain ⟨inner, same, tail, parted, rfl, rfl, rfl⟩ := found
          obtain ⟨before, after⟩ := ih _ _ _ parted
          exact ⟨fun other member => before other (by simpa using member), after⟩

theorem symbols_operator (expr : Expr) (operator : Operator) (member : operator ∈ expr.operators) :
    .operator operator ∈ expr.symbols := by
  induction expr with
  | binary left between right before after =>
      rw [operators] at member
      rw [symbols]
      rcases List.mem_append.mp member with inLeft | inRight
      · exact List.mem_append_left _ (before inLeft)
      · rcases List.mem_cons.mp inRight with rfl | inRight
        · exact List.mem_append_right _ List.mem_cons_self
        · exact List.mem_append_right _ (List.mem_cons_of_mem _ (after inRight))
  | _ => cases member

theorem value_ranked (expr : Expr) (value : expr.isValue = true) : expr.isRanked = true := by
  cases expr with
  | cell index => exact value
  | binary left operator right => cases value
  | _ => rfl

theorem of_symbols_is_ranked (written : List Symbol) (expr : Expr) (read : ofSymbols written = .ok expr) :
    expr.isRanked = true := by
  refine reading (motive := fun _ expr => expr.isRanked = true) ?_ ?_ written expr read
  · exact fun symbol expr read => value_ranked expr (of_symbol_value symbol expr read)
  · intro written left operator right before after found leftRead rightRead leftRanked rightRanked
    obtain ⟨looser, tighter⟩ := loosest_ranked written left right operator found
    rw [← symbols_of_symbols left before leftRead] at looser
    rw [← symbols_of_symbols right after rightRead] at tighter
    simp only [isRanked, leftRanked, rightRanked, Bool.and_eq_true, List.all_eq_true, decide_eq_true_eq, true_and]
    exact ⟨fun inner member => looser inner (symbols_operator before inner member),
      fun inner member => tighter inner (symbols_operator after inner member)⟩

theorem of_symbols_ranked_iff (written : List Symbol) (expr : Expr) :
    ofSymbols written = .ok expr ↔ expr.isRanked = true ∧ expr.symbols = written := by
  constructor
  · exact fun read => ⟨of_symbols_is_ranked written expr read, symbols_of_symbols written expr read⟩
  · rintro ⟨ranked, rfl⟩
    exact of_symbols_ranked expr ranked

theorem of_symbols_alternate (written : List Symbol) (expr : Expr) (read : ofSymbols written = .ok expr) :
    Symbol.Alternate written := by
  refine reading (motive := fun written _ => Symbol.Alternate written) ?_ ?_ written expr read
  · exact fun symbol expr read => (Symbol.alternate_singleton symbol).mpr ((of_symbol_ok symbol).mp ⟨expr, read⟩)
  · intro written left operator right before after found _ _ leftAlternate rightAlternate
    rw [loosest_join written left right operator found]
    exact (Symbol.alternate_operator left right operator).mpr ⟨leftAlternate, rightAlternate⟩

theorem of_symbols_total (symbols : List Symbol) (alternate : Symbol.Alternate symbols) : ∃ expr, ofSymbols symbols = .ok expr := by
  induction symbols using ofSymbols.induct with
  | case1 => cases alternate.odd
  | case2 symbol =>
      rw [ofSymbols]
      exact (of_symbol_ok symbol).mpr ((Symbol.alternate_singleton symbol).mp alternate)
  | case3 first second rest left operator right found before after =>
      have whole := loosest_join _ left right operator found
      rw [whole] at alternate found ⊢
      obtain ⟨leftAlternate, rightAlternate⟩ := (Symbol.alternate_operator left right operator).mp alternate
      obtain ⟨earlier, leftRead⟩ := before leftAlternate
      obtain ⟨later, rightRead⟩ := after rightAlternate
      have nonempty : left ≠ [] := by
        rintro rfl
        cases leftAlternate.odd
      exact ⟨_, of_symbols_binary left right operator earlier later nonempty found leftRead rightRead⟩
  | case4 first second rest missing =>
      obtain ⟨operator, rfl⟩ := alternate.operator 1 second rfl rfl
      exact absurd (List.mem_cons_of_mem first List.mem_cons_self) (loosest_none _ missing operator)

/-- Reading succeeds on values with operators between them and on nothing else. It gives the one tree over them in which
operators bind by their rank, and equal ones to the left. -/
theorem of_symbols_infix (symbols : List Symbol) :
    ((∃ expr, ofSymbols symbols = .ok expr) ↔ Symbol.Alternate symbols) ∧
      (∀ expr, ofSymbols symbols = .ok expr ↔ expr.isRanked = true ∧ expr.symbols = symbols) ∧
      (Symbol.Alternate symbols ↔ ∃! expr : Expr, expr.isRanked = true ∧ expr.symbols = symbols) := by
  have total : (∃ expr, ofSymbols symbols = .ok expr) ↔ Symbol.Alternate symbols :=
    ⟨fun ⟨expr, read⟩ => of_symbols_alternate symbols expr read, of_symbols_total symbols⟩
  refine ⟨total, of_symbols_ranked_iff symbols, ?_⟩
  simp only [← total, ← of_symbols_ranked_iff]
  constructor
  · rintro ⟨expr, read⟩
    refine ⟨expr, read, fun other otherRead => ?_⟩
    rw [read] at otherRead
    exact (Except.ok.inj otherRead).symm
  · exact fun ⟨expr, read, _⟩ => ⟨expr, read⟩

end Expr

end Offside
