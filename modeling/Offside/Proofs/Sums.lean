import Mathlib.Data.List.Forall2
import Offside.Evaluation
import Offside.Proofs.Precedence

set_option autoImplicit false

namespace Offside

def Operator.isArithmetic : Operator → Bool
  | .plus | .minus | .divide | .times | .modulo => true
  | .and | .or | .equal | .notEqual | .less => false

def Symbol.isArithmetic : Symbol → Bool
  | .integer _ => true
  | .operator known => known.isArithmetic
  | .indent _ | .keyword _ | .text _ | .boolean _ | .var _ | .program _ | .cell _ => false

inductive Sign where
  | plus
  | minus
deriving DecidableEq, Repr

namespace Sign

def operator : Sign → Operator
  | .plus => .plus
  | .minus => .minus

def ofSymbol : Symbol → Option Sign
  | .operator .plus => some .plus
  | .operator .minus => some .minus
  | _ => none

def apply : Sign → Int64 → Int64 → Int64
  | .plus, total, value => total + value
  | .minus, total, value => total - value

theorem of_symbol_operator (sign : Sign) : ofSymbol (.operator sign.operator) = some sign := by
  cases sign <;> rfl

theorem of_symbol_some (symbol : Symbol) (sign : Sign) (found : ofSymbol symbol = some sign) :
    symbol = .operator sign.operator := by
  unfold ofSymbol at found
  split at found <;> cases found <;> rfl

end Sign

theorem Operator.unsigned_tight (operator : Operator) (arithmetic : operator.isArithmetic = true)
    (unsigned : Sign.ofSymbol (.operator operator) = none) : Operator.minus.rank < operator.rank := by
  cases operator with
  | divide => decide
  | times => decide
  | modulo => decide
  | plus => cases unsigned
  | minus => cases unsigned
  | _ => cases arithmetic

structure Chain (Term : Type) where
  first : Term
  more : List (Sign × Term)

namespace Chain

def terms {Term : Type} (chain : Chain Term) : List Term := chain.first :: chain.more.map Prod.snd

def signs {Term : Type} (chain : Chain Term) : List Sign := chain.more.map Prod.fst

def join {Term : Type} (left : Chain Term) (sign : Sign) (right : Chain Term) : Chain Term :=
  ⟨left.first, left.more ++ (sign, right.first) :: right.more⟩

def cut : List Symbol → Chain (List Symbol)
  | [] => ⟨[], []⟩
  | symbol :: rest =>
      match Sign.ofSymbol symbol with
      | some sign => ⟨[], (sign, (cut rest).first) :: (cut rest).more⟩
      | none => ⟨symbol :: (cut rest).first, (cut rest).more⟩

def symbols (chain : Chain (List Symbol)) : List Symbol :=
  chain.first ++ chain.more.flatMap fun (sign, term) => .operator sign.operator :: term

def total (chain : Chain Int64) : Int64 :=
  chain.more.foldl (fun reached (sign, value) => sign.apply reached value) chain.first

theorem terms_join {Term : Type} (left right : Chain Term) (sign : Sign) :
    (left.join sign right).terms = left.terms ++ right.terms := by
  simp [terms, join]

theorem signs_join {Term : Type} (left right : Chain Term) (sign : Sign) :
    (left.join sign right).signs = left.signs ++ sign :: right.signs := by
  simp [signs, join]

theorem ext_parts {Term : Type} (one other : Chain Term) (terms : one.terms = other.terms) (signs : one.signs = other.signs) :
    one = other := by
  obtain ⟨first, more⟩ := one
  obtain ⟨head, rest⟩ := other
  simp only [Chain.terms, Chain.signs, List.cons.injEq] at terms signs
  obtain ⟨rfl, values⟩ := terms
  rw [mk.injEq, List.zip_of_prod signs values, ← List.zip_of_prod rfl rfl]
  exact ⟨rfl, rfl⟩

theorem cut_symbols (written : List Symbol) : (cut written).symbols = written := by
  induction written with
  | nil => rfl
  | cons symbol rest ih =>
      rw [cut]
      split
      · next sign found =>
          rw [Sign.of_symbol_some symbol sign found]
          exact congrArg (List.cons _) ih
      · exact congrArg (List.cons _) ih

theorem cut_unsigned (written : List Symbol) :
    ∀ term ∈ (cut written).terms, ∀ symbol ∈ term, Sign.ofSymbol symbol = none := by
  induction written with
  | nil => simp [cut, terms]
  | cons symbol rest ih =>
      rw [terms, List.forall_mem_cons] at ih
      rw [cut]
      split
      · rw [terms, List.map_cons, List.forall_mem_cons, List.forall_mem_cons]
        exact ⟨List.forall_mem_nil _, ih⟩
      · next unsigned =>
          rw [terms, List.forall_mem_cons]
          exact ⟨List.forall_mem_cons.mpr ⟨unsigned, ih.1⟩, ih.2⟩

theorem cut_single (written : List Symbol) (unsigned : ∀ symbol ∈ written, Sign.ofSymbol symbol = none) :
    cut written = ⟨written, []⟩ := by
  induction written with
  | nil => rfl
  | cons symbol rest ih =>
      obtain ⟨here, below⟩ := List.forall_mem_cons.mp unsigned
      simp only [cut, here, ih below]

theorem cut_join (left right : List Symbol) (sign : Sign) :
    cut (left ++ .operator sign.operator :: right) = (cut left).join sign (cut right) := by
  induction left with
  | nil => simp only [List.nil_append, cut, sign.of_symbol_operator, join]
  | cons symbol rest ih =>
      rw [List.cons_append, cut, ih, cut]
      cases Sign.ofSymbol symbol <;> rfl

theorem fold_plus (more : List (Sign × Int64)) (before reached : Int64) :
    more.foldl (fun reached (sign, value) => sign.apply reached value) (before + reached) =
      before + more.foldl (fun reached (sign, value) => sign.apply reached value) reached := by
  induction more generalizing reached with
  | nil => rfl
  | cons signed more ih =>
      obtain ⟨sign, value⟩ := signed
      rw [List.foldl_cons, List.foldl_cons, ← ih]
      congr 1
      cases sign with
      | plus => exact Int64.add_assoc before reached value
      | minus =>
          change before + reached - value = before + (reached - value)
          rw [Int64.sub_eq_add_neg, Int64.sub_eq_add_neg, Int64.add_assoc]

-- A sum may be added to another as a whole, but only a single value may be taken from one.
theorem total_join (left right : Chain Int64) (sign : Sign) (single : sign = .minus → right.more = []) :
    (left.join sign right).total = sign.apply left.total right.total := by
  simp only [total, join, List.foldl_append, List.foldl_cons]
  cases sign with
  | plus => exact fold_plus right.more _ right.first
  | minus => rw [single rfl, List.foldl_nil, List.foldl_nil]

end Chain

def Symbol.Amounts (scope : Scope) (memory : Memory) (symbols : List Symbol) (outcome : Except Fault Value) : Prop :=
  ∃ expr, Expr.ofSymbols symbols = .ok expr ∧ expr.evaluate scope memory = outcome

def Symbol.Worth (scope : Scope) (memory : Memory) (symbols : List Symbol) (value : Int64) : Prop :=
  Amounts scope memory symbols (.ok (.integer value))

theorem Symbol.amounts_unique (scope : Scope) (memory : Memory) (symbols : List Symbol) (one other : Except Fault Value)
    (first : Amounts scope memory symbols one) (second : Amounts scope memory symbols other) : one = other := by
  obtain ⟨expr, read, rfl⟩ := first
  obtain ⟨twin, again, rfl⟩ := second
  rw [read] at again
  cases again
  rfl

namespace Value

theorem operate_sign (sign : Sign) (left right : Int64) :
    (Value.integer left).operate sign.operator (.integer right) = .ok (.integer (sign.apply left right)) := by
  cases sign <;> rfl

inductive Reckoned : Except Fault Value → Prop where
  | worth (value : Int64) : Reckoned (.ok (.integer value))
  | divided : Reckoned (.error .divisionByZero)

theorem operate_arithmetic (operator : Operator) (arithmetic : operator.isArithmetic = true) (left right : Int64) :
    Reckoned ((Value.integer left).operate operator (.integer right)) := by
  cases operator with
  | plus => exact .worth _
  | minus => exact .worth _
  | times => exact .worth _
  | divide =>
      rw [operate]
      split
      · exact .divided
      · exact .worth _
  | modulo =>
      rw [operate]
      split
      · exact .divided
      · exact .worth _
  | _ => cases arithmetic

end Value

namespace Expr

variable (scope : Scope) (memory : Memory)

theorem evaluate_arithmetic (written : List Symbol) (expr : Expr) (read : ofSymbols written = .ok expr)
    (arithmetic : ∀ symbol ∈ written, symbol.isArithmetic = true) : Value.Reckoned (expr.evaluate scope memory) := by
  refine reading (motive := fun written expr => (∀ symbol ∈ written, symbol.isArithmetic = true) →
    Value.Reckoned (expr.evaluate scope memory)) ?_ ?_ written expr read arithmetic
  · intro symbol expr read arithmetic
    have known := arithmetic symbol List.mem_cons_self
    cases symbol with
    | integer value =>
        cases read
        exact .worth value
    | operator operator => cases read
    | _ => cases known
  · intro written left operator right before after found _ _ leftReckoned rightReckoned arithmetic
    rw [loosest_join written left right operator found, List.forall_mem_append, List.forall_mem_cons] at arithmetic
    obtain ⟨leftArithmetic, known, rightArithmetic⟩ := arithmetic
    have earlier := leftReckoned leftArithmetic
    have later := rightReckoned rightArithmetic
    rw [evaluate]
    generalize before.evaluate scope memory = first at earlier
    generalize after.evaluate scope memory = second at later
    cases earlier with
    | divided => exact .divided
    | worth first =>
        cases later with
        | divided => exact .divided
        | worth second => exact Value.operate_arithmetic operator known first second

end Expr

namespace Chain

variable (scope : Scope) (memory : Memory)

-- The terms all come to integers, and the chain to their total, or the chain fails as the first term that fails does.
inductive Settles (chain : Chain (List Symbol)) : Except Fault Value → Prop where
  | total (values : Chain Int64) (alike : values.signs = chain.signs)
      (worth : List.Forall₂ (Symbol.Worth scope memory) chain.terms values.terms) : Settles chain (.ok (.integer values.total))
  | failure (front : List (List Symbol)) (term : List Symbol) (back : List (List Symbol))
      (split : chain.terms = front ++ term :: back)
      (worth : ∀ earlier ∈ front, ∃ value, Symbol.Worth scope memory earlier value)
      (failed : Symbol.Amounts scope memory term (.error .divisionByZero)) : Settles chain (.error .divisionByZero)

theorem worth_unique (terms : List (List Symbol)) (values others : List Int64)
    (worth : List.Forall₂ (Symbol.Worth scope memory) terms values)
    (again : List.Forall₂ (Symbol.Worth scope memory) terms others) : values = others := by
  refine List.right_unique_forall₂' (fun term value other first second => ?_) worth again
  cases Symbol.amounts_unique scope memory term _ _ first second
  rfl

theorem forall_worth (terms : List (List Symbol)) (values : List Int64)
    (worth : List.Forall₂ (Symbol.Worth scope memory) terms values) :
    ∀ term ∈ terms, ∃ value, Symbol.Worth scope memory term value := by
  induction worth with
  | nil => exact List.forall_mem_nil _
  | cons here _ ih => exact List.forall_mem_cons.mpr ⟨⟨_, here⟩, ih⟩

theorem settles_single (written : List Symbol) (expr : Expr) (read : Expr.ofSymbols written = .ok expr)
    (arithmetic : ∀ symbol ∈ written, symbol.isArithmetic = true) :
    Settles scope memory ⟨written, []⟩ (expr.evaluate scope memory) := by
  have reckoned := expr.evaluate_arithmetic scope memory written read arithmetic
  have amounts : Symbol.Amounts scope memory written (expr.evaluate scope memory) := ⟨expr, read, rfl⟩
  generalize expr.evaluate scope memory = outcome at reckoned amounts
  cases reckoned with
  | worth value => exact .total ⟨value, []⟩ rfl (.cons amounts .nil)
  | divided => exact .failure [] written [] rfl (List.forall_mem_nil _) amounts

theorem settles_join (left right : Chain (List Symbol)) (sign : Sign) (before after : Expr)
    (single : sign = .minus → right.more = [])
    (earlier : Settles scope memory left (before.evaluate scope memory))
    (later : Settles scope memory right (after.evaluate scope memory)) :
    Settles scope memory (left.join sign right) ((Expr.binary before sign.operator after).evaluate scope memory) := by
  rw [Expr.evaluate]
  generalize before.evaluate scope memory = first at earlier
  generalize after.evaluate scope memory = second at later
  cases earlier with
  | failure front term back split worth failed =>
      refine .failure front term (back ++ right.terms) ?_ worth failed
      rw [terms_join, split, List.append_assoc, List.cons_append]
  | total values alike worth =>
      cases later with
      | failure front term back split more failed =>
          refine .failure (left.terms ++ front) term back ?_ ?_ failed
          · rw [terms_join, split, List.append_assoc]
          · exact List.forall_mem_append.mpr ⟨forall_worth scope memory _ _ worth, more⟩
      | total others othersAlike othersWorth =>
          have alone : sign = .minus → others.more = [] := by
            intro minus
            rw [signs, signs, single minus, List.map_nil, List.map_eq_nil_iff] at othersAlike
            exact othersAlike
          change Settles scope memory _ ((Value.integer values.total).operate sign.operator (.integer others.total))
          rw [Value.operate_sign, ← total_join values others sign alone]
          refine .total (values.join sign others) ?_ ?_
          · rw [signs_join, signs_join, alike, othersAlike]
          · rw [terms_join, terms_join]
            exact List.rel_append worth othersWorth

theorem tight_unsigned (symbols : List Symbol) (tight : ∀ inner, .operator inner ∈ symbols → Operator.minus.rank < inner.rank) :
    ∀ symbol ∈ symbols, Sign.ofSymbol symbol = none := by
  intro symbol member
  by_contra signed
  obtain ⟨sign, found⟩ := Option.ne_none_iff_exists'.mp signed
  rw [Sign.of_symbol_some symbol sign found] at member
  have bound := tight _ member
  cases sign <;> exact absurd bound (by decide)

theorem of_symbols_settles (written : List Symbol) (expr : Expr) (read : Expr.ofSymbols written = .ok expr)
    (arithmetic : ∀ symbol ∈ written, symbol.isArithmetic = true) :
    Settles scope memory (cut written) (expr.evaluate scope memory) := by
  refine Expr.reading (motive := fun written expr => (∀ symbol ∈ written, symbol.isArithmetic = true) →
    Settles scope memory (cut written) (expr.evaluate scope memory)) ?_ ?_ written expr read arithmetic
  · intro symbol expr read arithmetic
    have alone : ∀ other ∈ [symbol], Sign.ofSymbol other = none := by
      refine List.forall_mem_singleton.mpr ?_
      cases symbol with
      | operator operator => cases read
      | _ => rfl
    rw [cut_single [symbol] alone]
    exact settles_single scope memory [symbol] expr (by rw [Expr.ofSymbols, read]) arithmetic
  · intro written left operator right before after found leftRead rightRead leftSettles rightSettles arithmetic
    obtain ⟨looser, tighter⟩ := Expr.loosest_ranked written left right operator found
    have whole := Expr.loosest_join written left right operator found
    subst whole
    have parts := arithmetic
    rw [List.forall_mem_append, List.forall_mem_cons] at parts
    obtain ⟨leftArithmetic, known, rightArithmetic⟩ := parts
    cases signed : Sign.ofSymbol (.operator operator) with
    | some sign =>
        cases Sign.of_symbol_some _ sign signed
        have single : sign = .minus → (cut right).more = [] := by
          rintro rfl
          rw [cut_single right (tight_unsigned right tighter)]
        rw [cut_join left right sign]
        exact settles_join scope memory _ _ sign before after single (leftSettles leftArithmetic) (rightSettles rightArithmetic)
    | none =>
        have tight := operator.unsigned_tight known signed
        have leftUnsigned := tight_unsigned left fun inner member => Nat.lt_of_lt_of_le tight (looser inner member)
        have rightUnsigned := tight_unsigned right fun inner member => Nat.lt_trans tight (tighter inner member)
        have nonempty : left ≠ [] := by
          rintro rfl
          rw [Expr.ofSymbols] at leftRead
          cases leftRead
        have read := Expr.of_symbols_binary left right operator before after nonempty found leftRead rightRead
        rw [cut_single _ (List.forall_mem_append.mpr ⟨leftUnsigned, List.forall_mem_cons.mpr ⟨signed, rightUnsigned⟩⟩)]
        exact settles_single scope memory _ _ read arithmetic

/-- Plus and minus differ in rank, but sums are added up from the left all the same, wrapping at each step. If some
terms divide by zero, the first of them makes the whole fail. -/
theorem of_symbols_summed (scope : Scope) (memory : Memory) (symbols : List Symbol) (alternate : Symbol.Alternate symbols)
    (arithmetic : ∀ symbol ∈ symbols, symbol.isArithmetic = true) :
    (cut symbols).symbols = symbols ∧
      (∀ term ∈ (cut symbols).terms, ∀ symbol ∈ term, Sign.ofSymbol symbol = none) ∧
      (∀ values : Chain Int64, values.signs = (cut symbols).signs →
        List.Forall₂ (Symbol.Worth scope memory) (cut symbols).terms values.terms → Symbol.Worth scope memory symbols values.total) ∧
      ((∃ term ∈ (cut symbols).terms, ¬∃ value, Symbol.Worth scope memory term value) →
        ∃ front term back, (cut symbols).terms = front ++ term :: back ∧
          (∀ earlier ∈ front, ∃ value, Symbol.Worth scope memory earlier value) ∧
          Symbol.Amounts scope memory term (.error .divisionByZero) ∧
          Symbol.Amounts scope memory symbols (.error .divisionByZero)) := by
  obtain ⟨expr, read⟩ := Expr.of_symbols_total symbols alternate
  have settles := of_symbols_settles scope memory symbols expr read arithmetic
  have amounts : Symbol.Amounts scope memory symbols (expr.evaluate scope memory) := ⟨expr, read, rfl⟩
  generalize expr.evaluate scope memory = outcome at settles amounts
  refine ⟨cut_symbols symbols, cut_unsigned symbols, fun values alike worth => ?_, fun ⟨term, member, worthless⟩ => ?_⟩
  · cases settles with
    | total others othersAlike othersWorth =>
        have same := worth_unique scope memory _ _ _ worth othersWorth
        rw [ext_parts values others same (alike.trans othersAlike.symm)]
        exact amounts
    | failure front term back split _ failed =>
        have member : term ∈ (cut symbols).terms := by
          rw [split]
          exact List.mem_append_right front List.mem_cons_self
        obtain ⟨value, found⟩ := forall_worth scope memory _ _ worth term member
        cases Symbol.amounts_unique scope memory term _ _ found failed
  · cases settles with
    | total values alike worth => exact absurd (forall_worth scope memory _ _ worth term member) worthless
    | failure front first back split worth failed => exact ⟨front, first, back, split, worth, failed, amounts⟩

theorem of_symbols_summed_wrapping :
    let symbols : List Symbol := [.integer 9223372036854775807, .operator .plus, .integer 1, .operator .minus, .integer 2,
      .operator .times, .integer 3, .operator .minus, .integer 7, .operator .modulo, .integer 4]
    let divided : List Symbol := [.integer 1, .operator .minus, .integer 2, .operator .divide, .integer 0, .operator .plus,
      .integer 3, .operator .modulo, .integer 0]
    Symbol.Alternate symbols ∧ (∀ symbol ∈ symbols, symbol.isArithmetic = true) ∧
      Symbol.Worth .empty .blank symbols 9223372036854775799 ∧
      Symbol.Alternate divided ∧ (∀ symbol ∈ divided, symbol.isArithmetic = true) ∧
      Symbol.Amounts .empty .blank divided (.error .divisionByZero) := by
  intro symbols divided
  let product : Expr := .binary (.integer 2) .times (.integer 3)
  let remainder : Expr := .binary (.integer 7) .modulo (.integer 4)
  let sum : Expr := .binary (.integer 9223372036854775807) .plus (.binary (.binary (.integer 1) .minus product) .minus remainder)
  have alternate : Symbol.Alternate symbols := Expr.of_symbols_alternate symbols sum (Expr.of_symbols_ranked sum rfl)
  have arithmetic : ∀ symbol ∈ symbols, symbol.isArithmetic = true := by decide
  have worth : List.Forall₂ (Symbol.Worth .empty .blank) (cut symbols).terms [9223372036854775807, 1, 6, 3] :=
    .cons ⟨_, Expr.of_symbols_ranked (.integer 9223372036854775807) rfl, rfl⟩
      (.cons ⟨_, Expr.of_symbols_ranked (.integer 1) rfl, rfl⟩
        (.cons ⟨_, Expr.of_symbols_ranked product rfl, rfl⟩ (.cons ⟨_, Expr.of_symbols_ranked remainder rfl, rfl⟩ .nil)))
  obtain ⟨_, _, summed, _⟩ := of_symbols_summed .empty .blank symbols alternate arithmetic
  have whole := summed ⟨9223372036854775807, [(.plus, 1), (.minus, 6), (.minus, 3)]⟩ rfl worth
  let quotient : Expr := .binary (.integer 2) .divide (.integer 0)
  let difference : Expr := .binary (.binary (.integer 1) .minus quotient) .plus (.binary (.integer 3) .modulo (.integer 0))
  have apart : Symbol.Alternate divided :=
    Expr.of_symbols_alternate divided difference (Expr.of_symbols_ranked difference rfl)
  have reckoned : ∀ symbol ∈ divided, symbol.isArithmetic = true := by decide
  obtain ⟨_, _, _, failing⟩ := of_symbols_summed .empty .blank divided apart reckoned
  have failed : Symbol.Amounts .empty .blank quotient.symbols (.error .divisionByZero) :=
    ⟨_, Expr.of_symbols_ranked quotient rfl, rfl⟩
  obtain ⟨_, _, _, _, _, _, outcome⟩ := failing ⟨quotient.symbols, by simp [divided, quotient, Expr.symbols, cut, terms, Sign.ofSymbol],
    fun ⟨value, found⟩ => by cases Symbol.amounts_unique _ _ _ _ _ found failed⟩
  exact ⟨alternate, arithmetic, whole, apart, reckoned, outcome⟩

end Chain

end Offside
