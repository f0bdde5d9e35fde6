set_option autoImplicit false

namespace Offside.Numeral

def digit (c : Char) : Option Nat :=
  if '0' ≤ c ∧ c ≤ '9' then some (c.toNat - '0'.toNat)
  else if 'a' ≤ c ∧ c ≤ 'f' then some (c.toNat - 'a'.toNat + 10)
  else if 'A' ≤ c ∧ c ≤ 'F' then some (c.toNat - 'A'.toNat + 10)
  else none

def extend (base : Nat) : Nat → List Char → Option Nat
  | read, [] => some read
  | read, c :: rest =>
      match digit c with
      | some value => if value < base then extend base (base * read + value) rest else none
      | none => none

def natural (base : Nat) : List Char → Option Nat
  | [] => none
  | digits => extend base 0 digits

def unsigned (base : Nat) : List Char → Option Nat
  | '+' :: digits => natural base digits
  | digits => natural base digits

def signed : List Char → Option Int
  | '-' :: digits => (natural 10 digits).map fun (size : Nat) => -(size : Int)
  | digits => (unsigned 10 digits).map Int.ofNat

def integer (text : List Char) : Option Int64 :=
  match signed text with
  | some value =>
      if Int64.minValue.toInt ≤ value ∧ value ≤ Int64.maxValue.toInt then some (Int64.ofInt value) else none
  | none => none

def scalar (text : List Char) : Option Char :=
  match unsigned 16 text with
  | some value => if value.isValidChar then some (Char.ofNat value) else none
  | none => none

def digitChar (value : Nat) : Char :=
  if value < 10 then Char.ofNat ('0'.toNat + value) else Char.ofNat ('a'.toNat + (value - 10))

def digits (base value : Nat) : List Char :=
  if base < 2 ∨ value < base then [digitChar value]
  else digits base (value / base) ++ [digitChar (value % base)]
termination_by value
decreasing_by exact Nat.div_lt_self (by omega) (by omega)

def ofNat (value : Nat) : List Char := digits 10 value

def ofInt : Int → List Char
  | .ofNat size => ofNat size
  | .negSucc size => '-' :: ofNat (size + 1)

def ofInteger (value : Int64) : List Char := ofInt value.toInt

theorem digit_digit_char (value : Nat) (bounded : value < 16) : digit (digitChar value) = some value := by
  have checked : ∀ value ∈ List.range 16, digit (digitChar value) = some value := by decide
  exact checked value (List.mem_range.mpr bounded)

theorem extend_append (base read : Nat) (front back : List Char) :
    extend base read (front ++ back) = (extend base read front).bind fun value => extend base value back := by
  induction front generalizing read with
  | nil => rfl
  | cons c rest ih =>
      simp only [List.cons_append, extend]
      split
      · split
        · exact ih _
        · rfl
      · rfl

theorem extend_digits (base value : Nat) (low : 2 ≤ base) (high : base ≤ 16) :
    extend base 0 (digits base value) = some value := by
  induction value using Nat.strongRecOn with
  | ind value ih =>
      rw [digits]
      split
      · next small =>
          have bounded : value < base := by omega
          simp [extend, digit_digit_char value (by omega), bounded]
      · next large =>
          have shorter : value / base < value := Nat.div_lt_self (by omega) (by omega)
          have bounded : value % base < base := Nat.mod_lt _ (by omega)
          rw [extend_append, ih _ shorter, Option.bind_some]
          simp [extend, digit_digit_char _ (Nat.lt_of_lt_of_le bounded high), bounded, Nat.div_add_mod]

theorem digits_ne_nil (base value : Nat) : digits base value ≠ [] := by
  rw [digits]
  split <;> simp

theorem natural_digits (base value : Nat) (low : 2 ≤ base) (high : base ≤ 16) :
    natural base (digits base value) = some value := by
  rw [natural]
  · exact extend_digits base value low high
  · exact digits_ne_nil base value

theorem unsigned_digits (value : Nat) : unsigned 10 (digits 10 value) = some value := by
  have read := natural_digits 10 value (by decide) (by decide)
  unfold unsigned
  split
  · next rest same =>
      rw [same, natural, extend] at read
      · simp [digit] at read
      · simp
  · exact read

theorem signed_of_int (value : Int) : signed (ofInt value) = some value := by
  cases value with
  | ofNat size =>
      unfold signed
      split
      · next rest same =>
          have read := natural_digits 10 size (by decide) (by decide)
          rw [show digits 10 size = '-' :: rest from same, natural, extend] at read
          · simp [digit] at read
          · simp
      · simp [ofInt, ofNat, unsigned_digits]
  | negSucc size =>
      have read := natural_digits 10 (size + 1) (by decide) (by decide)
      change (natural 10 (digits 10 (size + 1))).map (fun (size : Nat) => -(size : Int)) = _
      rw [read, Option.map_some, Option.some.injEq]
      omega

theorem integer_of_integer (value : Int64) : integer (ofInteger value) = some value := by
  have low := Int64.minValue_le_toInt value
  have high := Int64.toInt_le value
  rw [integer, ofInteger, signed_of_int]
  simp only [low, high, and_self, if_true, Int64.ofInt_toInt]

end Offside.Numeral
