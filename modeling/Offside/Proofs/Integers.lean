import Mathlib.Data.Int.ModEq
import Offside.Value.Operation

set_option autoImplicit false

namespace Offside.Value

-- The result is the one integer of 64 bits that is congruent to the number.
def Yields (number : Int) (result : Except Fault Value) : Prop :=
  ∃ word : Int64, result = .ok (.integer word) ∧ ∀ other : Int64, other.toInt ≡ number [ZMOD 2 ^ 64] ↔ other = word

theorem congruent_iff (number : Int) (word : Int64) : word.toInt ≡ number [ZMOD 2 ^ 64] ↔ word = Int64.ofInt number := by
  rw [eq_comm, Int64.ofInt_eq_iff_bmod_eq_toInt]
  constructor
  · intro congruent
    have same : word.toInt % ((2 ^ 64 : Nat) : Int) = number % ((2 ^ 64 : Nat) : Int) := congruent
    calc
      number.bmod (2 ^ 64) = (number % ((2 ^ 64 : Nat) : Int)).bmod (2 ^ 64) := (Int.emod_bmod number _).symm
      _ = word.toInt.bmod (2 ^ 64) := by rw [← same, Int.emod_bmod]
      _ = word.toInt := word.toInt_bmod
  · intro same
    rw [← same]
    exact Int.bmod_emod

theorem yields_of_int (number : Int) : Yields number (.ok (.integer (Int64.ofInt number))) :=
  ⟨_, rfl, congruent_iff number⟩

theorem plus_yields (a b : Int64) : Yields (a.toInt + b.toInt) ((Value.integer a).operate .plus (.integer b)) := by
  have same : a + b = Int64.ofInt (a.toInt + b.toInt) := by simp [Int64.ofInt_add]
  rw [operate, same]
  exact yields_of_int _

theorem minus_yields (a b : Int64) : Yields (a.toInt - b.toInt) ((Value.integer a).operate .minus (.integer b)) := by
  have same : a - b = Int64.ofInt (a.toInt - b.toInt) := by simp [Int64.ofInt_sub]
  rw [operate, same]
  exact yields_of_int _

theorem times_yields (a b : Int64) : Yields (a.toInt * b.toInt) ((Value.integer a).operate .times (.integer b)) := by
  have same : a * b = Int64.ofInt (a.toInt * b.toInt) := by simp [Int64.ofInt_mul]
  rw [operate, same]
  exact yields_of_int _

theorem divide_ok (a b : Int64) (nonzero : b ≠ 0) :
    (Value.integer a).operate .divide (.integer b) = .ok (.integer (a / b)) := by
  simp [operate, nonzero]

theorem modulo_ok (a b : Int64) (nonzero : b ≠ 0) :
    (Value.integer a).operate .modulo (.integer b) = .ok (.integer (a % b)) := by
  simp [operate, nonzero]

theorem division_failed (a b : Int64) (operator : Operator) (divides : operator = .divide ∨ operator = .modulo)
    (fault : Fault) : (Value.integer a).operate operator (.integer b) = .error fault ↔ b = 0 ∧ fault = .divisionByZero := by
  rcases divides with rfl | rfl
  · by_cases zero : b = 0
    · simp [operate, zero, eq_comm]
    · simp [operate, zero]
  · by_cases zero : b = 0
    · simp [operate, zero, eq_comm]
    · simp [operate, zero]

-- What a division that does not fail leaves as quotient and remainder. The smallest integer over minus one is the only
-- quotient that is out of range.
structure Parts (a b quotient remainder : Int64) : Prop where
  truncated : ¬(a = Int64.minValue ∧ b = -1) → quotient.toInt = a.toInt.tdiv b.toInt
  overflown : a = Int64.minValue ∧ b = -1 → quotient = Int64.minValue ∧ remainder = 0
  sign : remainder = 0 ∨ remainder.toInt.sign = a.toInt.sign
  small : remainder.toInt.natAbs < b.toInt.natAbs
  whole : ∃ product, (Value.integer quotient).operate .times (.integer b) = .ok product ∧
    product.operate .plus (.integer remainder) = .ok (.integer a)

theorem divide_truncated (a b : Int64) (inside : ¬(a = Int64.minValue ∧ b = -1)) :
    (a / b).toInt = a.toInt.tdiv b.toInt := by
  by_cases smallest : a = Int64.minValue
  · exact Int64.toInt_div_of_ne_right a b fun negated => inside ⟨smallest, negated⟩
  · exact Int64.toInt_div_of_ne_left a b smallest

theorem modulo_sign (a b : Int64) : a % b = 0 ∨ (a % b).toInt.sign = a.toInt.sign := by
  have sign := Int.sign_tmod a.toInt b.toInt
  rw [← Int64.toInt_mod] at sign
  by_cases divides : b.toInt ∣ a.toInt
  · rw [if_pos divides, Int.sign_eq_zero_iff_zero] at sign
    exact .inl (Int64.toInt_inj.mp sign)
  · rw [if_neg divides] at sign
    exact .inr sign

theorem modulo_small (a b : Int64) (nonzero : b ≠ 0) : (a % b).toInt.natAbs < b.toInt.natAbs := by
  have positive : 0 < b.toInt.natAbs := by
    rw [Int.natAbs_pos]
    exact fun zero => nonzero (Int64.toInt_inj.mp zero)
  rw [Int64.toInt_mod, Int.natAbs_tmod]
  exact Nat.mod_lt _ positive

theorem parts_whole (a b : Int64) : a / b * b + a % b = a := by
  have quotient : a / b = Int64.ofInt (a.toInt.tdiv b.toInt) :=
    ((Int64.ofInt_eq_iff_bmod_eq_toInt _ _).mpr (Int64.toInt_div a b).symm).symm
  have remainder : a % b = Int64.ofInt (a.toInt.tmod b.toInt) := by rw [← Int64.toInt_mod, Int64.ofInt_toInt]
  calc
    a / b * b + a % b = Int64.ofInt (b.toInt * a.toInt.tdiv b.toInt + a.toInt.tmod b.toInt) := by
      rw [Int64.ofInt_add, Int64.ofInt_mul, Int64.ofInt_toInt, ← quotient, ← remainder, Int64.mul_comm]
    _ = a := by rw [Int.mul_tdiv_add_tmod, Int64.ofInt_toInt]

theorem division_parts (a b : Int64) (nonzero : b ≠ 0) : Parts a b (a / b) (a % b) := by
  refine ⟨divide_truncated a b, ?_, modulo_sign a b, modulo_small a b nonzero, .integer (a / b * b), rfl, ?_⟩
  · rintro ⟨rfl, rfl⟩
    decide
  · rw [operate, parts_whole]

/-- Arithmetic on integers is exact modulo 2 ^ 64, and fails for a division by zero only. -/
theorem operate_modular (a b : Int64) :
    Yields (a.toInt + b.toInt) ((Value.integer a).operate .plus (.integer b)) ∧
      Yields (a.toInt - b.toInt) ((Value.integer a).operate .minus (.integer b)) ∧
      Yields (a.toInt * b.toInt) ((Value.integer a).operate .times (.integer b)) ∧
      (∀ operator, operator = .divide ∨ operator = .modulo → ∀ fault,
        (Value.integer a).operate operator (.integer b) = .error fault ↔ b = 0 ∧ fault = .divisionByZero) ∧
      (b ≠ 0 → ∃ quotient remainder, (Value.integer a).operate .divide (.integer b) = .ok (.integer quotient) ∧
        (Value.integer a).operate .modulo (.integer b) = .ok (.integer remainder) ∧ Parts a b quotient remainder) := by
  refine ⟨plus_yields a b, minus_yields a b, times_yields a b, division_failed a b, ?_⟩
  intro nonzero
  exact ⟨a / b, a % b, divide_ok a b nonzero, modulo_ok a b nonzero, division_parts a b nonzero⟩

example : (Value.integer (-7)).operate .divide (.integer 2) = .ok (.integer (-3)) ∧
    (Value.integer (-7)).operate .modulo (.integer 2) = .ok (.integer (-1)) := by
  decide

end Offside.Value
