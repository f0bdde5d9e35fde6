import Mathlib.Algebra.Group.Nat.Defs
import Offside.Value.Operation

set_option autoImplicit false

namespace Offside.Value

theorem text_length_exact (text : String) (fits : text.length ≤ 2 ^ 63 - 1) : (textLength text).toInt = text.length := by
  have small : (text.length : Int) ≤ Int64.maxValue.toInt := by
    change (text.length : Int) ≤ 2 ^ 63 - 1
    omega
  rw [textLength, Int.min_eq_left small, Int64.toInt_ofInt_of_le] <;> omega

theorem less_length (text : String) (fits : text.length ≤ 2 ^ 63 - 1) (index : Int64) :
    (Value.integer index).operate .less (.text text) = .ok (.boolean (index.toInt < text.length)) := by
  simp only [operate, Int64.lt_iff_toInt_lt, text_length_exact text fits]

theorem length_less (text : String) (fits : text.length ≤ 2 ^ 63 - 1) (index : Int64) :
    (Value.text text).operate .less (.integer index) = .ok (.boolean ((text.length : Int) < index.toInt)) := by
  simp only [operate, Int64.lt_iff_toInt_lt, text_length_exact text fits]

-- The index is less than the length, as a program finds out.
def Precedes (index : Int64) (text : String) : Prop :=
  (Value.integer index).operate .less (.text text) = .ok (.boolean true)

theorem precedes_length (text : String) (fits : text.length ≤ 2 ^ 63 - 1) (index : Int64) :
    Precedes index text ↔ index.toInt < text.length := by
  rw [Precedes, less_length text fits]
  simp

theorem character_found (text : String) (index : Int64) (c : Char) (low : 0 ≤ index)
    (found : text.toList[index.toInt.toNat]? = some c) :
    (Value.text text).operate .modulo (.integer index) = .ok (.text (String.singleton c)) := by
  simp only [operate, characterAt, if_pos low, found]

theorem character_missing (text : String) (index : Int64) (missing : 0 ≤ index → text.toList[index.toInt.toNat]? = none) :
    (Value.text text).operate .modulo (.integer index) = .error (.characterOutOfRange index text.length) := by
  by_cases low : 0 ≤ index
  · simp only [operate, characterAt, if_pos low, missing low]
  · simp only [operate, characterAt, if_neg low]

theorem character_read (text : String) (index : Int64) (value : Value) :
    (Value.text text).operate .modulo (.integer index) = .ok value ↔
      0 ≤ index ∧ ∃ c, text.toList[index.toInt.toNat]? = some c ∧ value = .text (String.singleton c) := by
  constructor
  · intro read
    by_cases low : 0 ≤ index
    · cases found : text.toList[index.toInt.toNat]? with
      | none =>
          rw [character_missing text index fun _ => found] at read
          cases read
      | some c =>
          rw [character_found text index c low found] at read
          cases read
          exact ⟨low, c, rfl, rfl⟩
    · rw [character_missing text index fun within => absurd within low] at read
      cases read
  · rintro ⟨low, c, found, rfl⟩
    exact character_found text index c low found

theorem character_place (text : String) (index : Int64) (low : 0 ≤ index) :
    (∃ c, text.toList[index.toInt.toNat]? = some c) ↔ index.toInt < text.length := by
  have natural : 0 ≤ index.toInt := Int64.le_iff_toInt_le.mp low
  rw [← Option.isSome_iff_exists, isSome_getElem?, String.length_toList]
  omega

theorem character_within (text : String) (index : Int64) :
    (∃ value, (Value.text text).operate .modulo (.integer index) = .ok value) ↔ 0 ≤ index ∧ index.toInt < text.length := by
  simp only [character_read]
  constructor
  · rintro ⟨_, low, c, found, rfl⟩
    exact ⟨low, (character_place text index low).mp ⟨c, found⟩⟩
  · rintro ⟨low, inside⟩
    obtain ⟨c, found⟩ := (character_place text index low).mpr inside
    exact ⟨_, low, c, found, rfl⟩

theorem character_outside (text : String) (index : Int64) (outside : ¬(0 ≤ index ∧ index.toInt < text.length)) :
    (Value.text text).operate .modulo (.integer index) = .error (.characterOutOfRange index text.length) := by
  refine character_missing text index fun low => Option.eq_none_iff_forall_ne_some.mpr fun c found => ?_
  exact outside ⟨low, (character_place text index low).mp ⟨c, found⟩⟩

theorem join_front (front back : String) (index : Int64) (low : 0 ≤ index) (inside : index.toInt < front.length) :
    (Value.text (front ++ back)).operate .modulo (.integer index) = (Value.text front).operate .modulo (.integer index) := by
  obtain ⟨c, found⟩ := (character_place front index low).mpr inside
  have whole : (front ++ back).toList[index.toInt.toNat]? = some c := by
    rw [String.toList_append, List.getElem?_append_left (List.getElem?_eq_some_iff.mp found).1, found]
  rw [character_found front index c low found, character_found (front ++ back) index c low whole]

theorem join_back (front back : String) (index : Int64) (outside : front.length ≤ index.toInt) (value : Value) :
    (Value.text (front ++ back)).operate .modulo (.integer index) = .ok value ↔
      (Value.text back).operate .modulo (.integer (index - Int64.ofNat front.length)) = .ok value := by
  have high := Int64.toInt_lt index
  have length : (Int64.ofNat front.length).toInt = front.length := Int64.toInt_ofNat_of_lt (by omega)
  have shifted : (index - Int64.ofNat front.length).toInt = index.toInt - front.length := by
    rw [Int64.toInt_sub, length, Int.bmod_eq_of_le] <;> omega
  have low : 0 ≤ index := Int64.le_iff_toInt_le.mpr (Int.le_trans (Int.natCast_nonneg _) outside)
  have shiftedLow : 0 ≤ index - Int64.ofNat front.length := by
    rw [Int64.le_iff_toInt_le, shifted]
    exact Int.sub_nonneg_of_le outside
  have place : (front ++ back).toList[index.toInt.toNat]? = back.toList[(index - Int64.ofNat front.length).toInt.toNat]? := by
    rw [String.toList_append, List.getElem?_append_right (by rw [String.length_toList]; omega), shifted, String.length_toList]
    congr 1
    omega
  rw [character_read, character_read, place]
  simp only [low, shiftedLow, true_and]

-- What is built from the characters of a text, from an index on for as long as it is less than the length.
inductive Gathers (source : Value) : Int64 → Value → Value → Prop where
  | done (index : Int64) (built : Value) (ended : (Value.integer index).operate .less source = .ok (.boolean false)) :
      Gathers source index built built
  | next (index : Int64) (built character longer result : Value)
      (within : (Value.integer index).operate .less source = .ok (.boolean true))
      (found : source.operate .modulo (.integer index) = .ok character)
      (added : built.operate .plus character = .ok longer) (onward : Gathers source (index + 1) longer result) :
      Gathers source index built result

theorem gathers_unique (source : Value) (index : Int64) (built one other : Value) (first : Gathers source index built one)
    (second : Gathers source index built other) : one = other := by
  induction first with
  | done index built ended =>
      cases second with
      | done _ _ _ => rfl
      | next _ _ _ _ _ within _ _ _ =>
          rw [ended] at within
          cases within
  | next index built character longer result within found added _ ih =>
      cases second with
      | done _ _ ended =>
          rw [within] at ended
          cases ended
      | next _ _ again further _ _ foundAgain addedAgain onward =>
          rw [found] at foundAgain
          cases foundAgain
          rw [added] at addedAgain
          cases addedAgain
          exact ih onward

theorem length_split (text : String) (front back : List Char) (split : text.toList = front ++ back) :
    text.length = front.length + back.length := by
  rw [← String.length_toList, split, List.length_append]

theorem gathers_back (text : String) (fits : text.length ≤ 2 ^ 63 - 1) (front back : List Char)
    (split : text.toList = front ++ back) :
    Gathers (.text text) (Int64.ofNat front.length) (.text (String.ofList front)) (.text text) := by
  induction back generalizing front with
  | nil =>
      have length := length_split text front [] split
      have place : (Int64.ofNat front.length).toInt = front.length := Int64.toInt_ofNat_of_lt (by omega)
      have whole : String.ofList front = text := by
        rw [← String.toList_inj, String.toList_ofList, split, List.append_nil]
      have ended : (Value.integer (Int64.ofNat front.length)).operate .less (.text text) = .ok (.boolean false) := by
        rw [less_length text fits, place, length]
        simp
      rw [whole]
      exact .done _ _ ended
  | cons c rest ih =>
      have length := length_split text front (c :: rest) split
      have place : (Int64.ofNat front.length).toInt = front.length := Int64.toInt_ofNat_of_lt (by omega)
      have low : 0 ≤ Int64.ofNat front.length := by
        rw [Int64.le_iff_toInt_le, place]
        exact Int.natCast_nonneg _
      have within : Precedes (Int64.ofNat front.length) text := by
        rw [precedes_length text fits, place, length, List.length_cons]
        omega
      have found : (Value.text text).operate .modulo (.integer (Int64.ofNat front.length)) = .ok (.text (String.singleton c)) :=
        character_found text _ c low (by rw [place, split]; simp)
      have longer : String.ofList front ++ String.singleton c = String.ofList (front ++ [c]) := by
        rw [← String.toList_inj, String.toList_append, String.toList_singleton, String.toList_ofList, String.toList_ofList]
      have added : (Value.text (String.ofList front)).operate .plus (.text (String.singleton c)) =
          .ok (.text (String.ofList (front ++ [c]))) := by
        rw [operate, shown, longer]
      have next : Int64.ofNat front.length + 1 = Int64.ofNat (front ++ [c]).length := by
        rw [List.length_append, Int64.ofNat_add]
        rfl
      have onward := ih (front ++ [c]) (by rw [split, List.append_assoc, List.singleton_append])
      rw [← next] at onward
      exact .next _ _ _ _ _ within found added onward

theorem gathers_iff (text : String) (fits : text.length ≤ 2 ^ 63 - 1) (result : Value) :
    Gathers (.text text) 0 (.text "") result ↔ result = .text text := by
  have whole : Gathers (.text text) 0 (.text "") (.text text) := gathers_back text fits [] text.toList rfl
  constructor
  · exact fun gathered => gathers_unique _ _ _ _ _ gathered whole
  · rintro rfl
    exact whole

/-- Comparing, picking characters and joining all mean the same by a position in a text: integers from zero on that are
less than the length are the positions of its characters, and the positions of a text joined to another begin where that
ends. -/
theorem operate_positions (a b : String) (index : Int64) (fits : a.length + b.length ≤ 2 ^ 63 - 1) :
    (Value.integer index).operate .less (.text a) = .ok (.boolean (index.toInt < a.length)) ∧
      (Value.text a).operate .less (.integer index) = .ok (.boolean ((a.length : Int) < index.toInt)) ∧
      ((∃ value, (Value.text a).operate .modulo (.integer index) = .ok value) ↔ 0 ≤ index ∧ Precedes index a) ∧
      (¬(0 ≤ index ∧ Precedes index a) →
        (Value.text a).operate .modulo (.integer index) = .error (.characterOutOfRange index a.length)) ∧
      (∃ joined, (Value.text a).operate .plus (.text b) = .ok joined ∧
        (0 ≤ index → Precedes index a →
          joined.operate .modulo (.integer index) = (Value.text a).operate .modulo (.integer index)) ∧
        (0 ≤ index → ¬Precedes index a → ∀ value, joined.operate .modulo (.integer index) = .ok value ↔
          (Value.text b).operate .modulo (.integer (index - Int64.ofNat a.length)) = .ok value)) ∧
      ∀ result, Gathers (.text a) 0 (.text "") result ↔ result = .text a := by
  have small : a.length ≤ 2 ^ 63 - 1 := by omega
  simp only [precedes_length a small]
  refine ⟨less_length a small index, length_less a small index, character_within a index, character_outside a index,
    ⟨.text (a ++ b), rfl, join_front a b index, fun _ beyond => join_back a b index (Int.not_lt.mp beyond)⟩,
    gathers_iff a small⟩

theorem operate_positions_wide :
    "añ😀".length + "ßx".length ≤ 2 ^ 63 - 1 ∧
      (Value.text "añ😀").operate .modulo (.integer 4) = .error (.characterOutOfRange 4 3) ∧
      (Value.text ("añ😀" ++ "ßx")).operate .modulo (.integer 4) = .ok (.text "x") ∧
      Gathers (.text "añ😀") 0 (.text "") (.text "añ😀") := by
  have fits : "añ😀".length + "ßx".length ≤ 2 ^ 63 - 1 := by decide
  have beyond : ¬Precedes 4 "añ😀" := by
    rw [precedes_length "añ😀" (by decide)]
    decide
  have character : (Value.text "ßx").operate .modulo (.integer 1) = .ok (.text "x") :=
    character_found "ßx" 1 'x' (by decide) rfl
  obtain ⟨_, _, _, outside, ⟨joined, added, _, shifted⟩, gathered⟩ := operate_positions "añ😀" "ßx" 4 fits
  cases added
  exact ⟨fits, outside fun within => beyond within.2, (shifted (by decide) beyond _).mpr character, (gathered _).mpr rfl⟩

end Offside.Value
