import Mathlib.Data.List.TakeWhile
import Offside.Text.Literal

set_option autoImplicit false

namespace Offside

namespace Quoted

def escapes : List (Char × Char) :=
  [('a', '\x07'), ('b', '\x08'), ('v', '\x0b'), ('f', '\x0c'), ('n', '\n'), ('r', '\r'), ('t', '\t'), ('e', '\x1b'),
    ('E', '\x1b'), ('\\', '\\'), ('\'', '\''), ('"', '"'), ('$', '$'), ('\u0060', '\u0060'), (' ', ' ')]

theorem escape_lookup (c : Char) : escape c = escapes.lookup c := by
  by_cases known : c ∈ escapes.map Prod.fst
  · have table : ∀ d ∈ escapes.map Prod.fst, escape d = escapes.lookup d := by simp [escapes, escape, List.lookup_cons]
    exact table c known
  · have missed : escapes.lookup c = none := by
      rw [List.lookup_eq_none_iff]
      rintro ⟨key, meant⟩ member
      refine bne_iff_ne.mpr ?_
      rintro rfl
      exact known (List.mem_map_of_mem member)
    rw [missed]
    simp [escapes] at known
    simp [escape, known]

-- What is relied on of a reader of double-quoted texts once it is past the opening quote.
structure Lawful (inside : List Char → Option (List Char)) : Prop where
  closed : inside ['"'] = some []
  plain : ∀ c rest, c ≠ '\\' → c ≠ '"' → inside (c :: rest) = (inside rest).map (c :: ·)
  escaped : ∀ c rest, (c = 'u' → rest.head? ≠ some '\x7b') →
    inside ('\\' :: c :: rest) = (escapes.lookup c).bind fun meant => (inside rest).map (meant :: ·)
  scalar : ∀ digits rest, '\x7d' ∉ digits →
    inside ('\\' :: 'u' :: '\x7b' :: (digits ++ '\x7d' :: rest)) =
      (Numeral.scalar digits).bind fun c => (inside rest).map (c :: ·)
  -- Where no brace closes, the digits reach to the end, and the closing quote is taken for one of them.
  unended : ∀ digits, '\x7d' ∉ digits → Numeral.scalar digits = none → inside ('\\' :: 'u' :: '\x7b' :: digits) = none

theorem brace_free (digits : List Char) (free : '\x7d' ∉ digits) : ∀ c ∈ digits, decide (c ≠ '\x7d') = true := by
  intro c member
  exact decide_eq_true fun same => free (same ▸ member)

theorem inside_lawful : Lawful inside := by
  refine ⟨by simp [inside], ?_, ?_, ?_, ?_⟩
  · intro c rest backslash quote
    rw [inside] <;> simp [backslash, quote]
  · intro c rest single
    rw [inside, ← escape_lookup]
    · cases escape c <;> rfl
    · rintro more rfl rfl
      exact single rfl rfl
  · intro digits rest free
    have others := brace_free digits free
    rw [inside, List.takeWhile_append_of_pos others, List.dropWhile_append_of_pos others,
      List.takeWhile_cons_of_neg (by simp), List.dropWhile_cons_of_neg (by simp), List.append_nil]
    cases Numeral.scalar digits <;> rfl
  · intro digits free unread
    have whole : digits.takeWhile (· ≠ '\x7d') = digits := List.takeWhile_eq_self_iff.mpr (brace_free digits free)
    rw [inside, whole, unread]

end Quoted

end Offside
