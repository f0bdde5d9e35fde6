import Offside.Proofs.Apostrophes
import Offside.Proofs.Writing.Quotation

set_option autoImplicit false

namespace Offside

namespace Numeral

def hexadecimal (text : List Char) : Option Nat :=
  match unsigned 16 text with
  | some value => if value < 2 ^ 32 then some value else none
  | none => none

def character (value : Nat) : Option Char := if value.isValidChar then some (Char.ofNat value) else none

theorem scalar_character (text : List Char) : scalar text = (hexadecimal text).bind character := by
  rw [scalar, hexadecimal]
  cases unsigned 16 text with
  | none => rfl
  | some value =>
      change character value = (if value < 2 ^ 32 then some value else none).bind character
      by_cases narrow : value < 2 ^ 32
      · rw [if_pos narrow, Option.bind_some]
      · have wide : ¬value.isValidChar := by
          unfold Nat.isValidChar
          omega
        rw [if_neg narrow, character, if_neg wide, Option.bind_none]

end Numeral

namespace Literal

def braced (text : List Char) : Option (List Char × List Char) :=
  match text.dropWhile (· ≠ '\x7d') with
  | [] => none
  | _ :: more => some (text.takeWhile (· ≠ '\x7d'), more)

theorem braced_front (digits more : List Char) (free : '\x7d' ∉ digits) :
    braced (digits ++ '\x7d' :: more) = some (digits, more) := by
  have others := Quoted.brace_free digits free
  rw [braced, List.dropWhile_append_of_pos others, List.takeWhile_append_of_pos others]
  simp

theorem braced_split (text digits more : List Char) (found : braced text = some (digits, more)) :
    text = digits ++ '\x7d' :: more ∧ '\x7d' ∉ digits := by
  unfold braced at found
  split at found
  · cases found
  · next c rest behind =>
      cases found
      have first := List.head?_dropWhile_not (· ≠ '\x7d') text
      rw [behind] at first
      have brace : c = '\x7d' := by simpa using first
      have whole : text.takeWhile (· ≠ '\x7d') ++ text.dropWhile (· ≠ '\x7d') = text := List.takeWhile_append_dropWhile
      rw [behind, brace] at whole
      refine ⟨whole.symm, fun member => ?_⟩
      have other := List.mem_takeWhile_imp member
      simp at other

theorem braced_none (text : List Char) (found : braced text = none) : '\x7d' ∉ text := by
  unfold braced at found
  split at found
  · next whole =>
      intro member
      exact absurd (List.dropWhile_eq_nil_iff.mp whole _ member) (by decide)
  · cases found

theorem braced_shorter (text digits more : List Char) (found : braced text = some (digits, more)) :
    more.length < text.length := by
  rw [(braced_split text digits more found).1, List.length_append, List.length_cons]
  omega

-- What the inside of a literal means, read in one pass: escapes are carried out, and all else stands for itself.
def meaning : List Char → Option (List Char)
  | [] => some []
  | '\\' :: 'u' :: '\x7b' :: rest =>
      match _ : braced rest with
      | some (digits, more) =>
          match (Numeral.hexadecimal digits).bind Numeral.character with
          | some c => (meaning more).map (c :: ·)
          | none => none
      | none => none
  | '\\' :: c :: rest =>
      match Quoted.escapes.lookup c with
      | some meant => (meaning rest).map (meant :: ·)
      | none => none
  | ['\\'] => none
  | c :: rest => (meaning rest).map (c :: ·)
termination_by text => text.length
decreasing_by
  · have shorter := braced_shorter rest digits more ‹_›
    simp only [List.length_cons]
    omega
  all_goals simp only [List.length_cons]; omega

def Quiet (c : Char) : Prop := c ≠ '\\' ∧ c ≠ '"' ∧ c ≠ '\''

instance (c : Char) : Decidable (Quiet c) := inferInstanceAs (Decidable (c ≠ '\\' ∧ c ≠ '"' ∧ c ≠ '\''))

theorem requote_quiet (front rest : List Char) (quiet : ∀ c ∈ front, Quiet c) :
    requote (front ++ rest) = (requote rest).map (front ++ ·) := by
  induction front with
  | nil => simp
  | cons c more ih =>
      obtain ⟨backslash, quote, _⟩ := quiet c List.mem_cons_self
      have plain : requote (c :: (more ++ rest)) = (requote (more ++ rest)).map (c :: ·) := by
        rw [requote] <;> simp [backslash, quote]
      rw [List.cons_append, plain, ih fun d member => quiet d (List.mem_cons_of_mem c member), Option.map_map]
      rfl

theorem requoted_first (c : Char) (text back : List Char) (quiet : Quiet c) (found : requote text = some (c :: back)) :
    ∃ rest, text = c :: rest ∧ requote rest = some back := by
  obtain ⟨backslash, quote, apostrophe⟩ := quiet
  unfold requote at found
  split at found
  · cases found
  · obtain ⟨_, _, same⟩ := Option.map_eq_some_iff.mp found
    exact absurd (List.cons.inj same).1.symm apostrophe
  · obtain ⟨_, _, same⟩ := Option.map_eq_some_iff.mp found
    exact absurd (List.cons.inj same).1.symm backslash
  · cases found
  · obtain ⟨_, _, same⟩ := Option.map_eq_some_iff.mp found
    exact absurd (List.cons.inj same).1.symm backslash
  · next d rest _ _ _ _ =>
      obtain ⟨requoted, read, same⟩ := Option.map_eq_some_iff.mp found
      obtain ⟨rfl, rfl⟩ := List.cons.inj same
      exact ⟨rest, rfl, read⟩

theorem requoted_quiet (front text back : List Char) (quiet : ∀ c ∈ front, Quiet c)
    (found : requote text = some (front ++ back)) : ∃ rest, text = front ++ rest ∧ requote rest = some back := by
  induction front generalizing text with
  | nil => exact ⟨text, rfl, found⟩
  | cons c more ih =>
      obtain ⟨rest, rfl, read⟩ := requoted_first c text (more ++ back) (quiet c List.mem_cons_self) found
      obtain ⟨behind, rfl, others⟩ := ih rest (fun d member => quiet d (List.mem_cons_of_mem c member)) read
      exact ⟨behind, rfl, others⟩

end Literal

namespace Numeral

theorem digit_quiet (c : Char) (value : Nat) (found : digit c = some value) : Literal.Quiet c := by
  refine ⟨?_, ?_, ?_⟩ <;> (rintro rfl; exact absurd found (by simp [digit]))

theorem extend_quiet (base read value : Nat) (digits : List Char) (found : extend base read digits = some value) :
    ∀ c ∈ digits, Literal.Quiet c := by
  induction digits generalizing read with
  | nil => exact List.forall_mem_nil _
  | cons c rest ih =>
      rw [extend] at found
      split at found
      · next size known =>
          split at found
          · exact List.forall_mem_cons.mpr ⟨digit_quiet c size known, ih _ found⟩
          · cases found
      · cases found

theorem natural_quiet (base value : Nat) (digits : List Char) (found : natural base digits = some value) :
    ∀ c ∈ digits, Literal.Quiet c := by
  cases digits with
  | nil => exact List.forall_mem_nil _
  | cons c rest => exact extend_quiet base 0 value (c :: rest) found

theorem scalar_quiet (digits : List Char) (c : Char) (found : scalar digits = some c) : ∀ d ∈ digits, Literal.Quiet d := by
  unfold scalar at found
  split at found
  · next value read =>
      unfold unsigned at read
      split at read
      · next rest => exact List.forall_mem_cons.mpr ⟨by decide, natural_quiet 16 value rest read⟩
      · exact natural_quiet 16 value digits read
  · cases found

end Numeral

namespace Literal

theorem quiet_digits (digits : List Char) (c : Char) (scalar : Numeral.scalar digits = some c) :
    ∀ d ∈ digits ++ ['\x7d'], Quiet d :=
  List.forall_mem_append.mpr ⟨Numeral.scalar_quiet digits c scalar, List.forall_mem_singleton.mpr (by decide)⟩

theorem requote_opened (rest : List Char) :
    requote ('\\' :: 'u' :: '\x7b' :: rest) = (requote rest).map ('\\' :: 'u' :: '\x7b' :: ·) := by
  simp [requote, Function.comp_def]

theorem requoted_scalar (rest requoted digits behind : List Char) (c : Char) (found : requote rest = some requoted)
    (closed : braced (requoted ++ ['"']) = some (digits, behind)) (scalar : Numeral.scalar digits = some c) :
    ∃ more, braced rest = some (digits, more) := by
  obtain ⟨whole, free⟩ := braced_split _ digits behind closed
  cases behind using List.reverseRecOn with
  | nil => cases (List.append_inj' whole rfl).2
  | append_singleton front last =>
      rw [← List.cons_append, ← List.append_assoc] at whole
      obtain ⟨rfl, _⟩ := List.append_inj' whole rfl
      rw [← List.singleton_append, ← List.append_assoc] at found
      obtain ⟨more, rfl, _⟩ := requoted_quiet _ rest front (quiet_digits digits c scalar) found
      rw [List.append_assoc]
      exact ⟨more, braced_front digits more free⟩

theorem single_head (c : Char) (rest : List Char) (single : ∀ more, c = 'u' → rest = '\x7b' :: more → False) :
    c = 'u' → rest.head? ≠ some '\x7b' := by
  intro letter opened
  obtain ⟨more, same⟩ := List.head?_eq_some_iff.mp opened
  exact single more letter same

end Literal

section Reading

variable {inside : List Char → Option (List Char)} (lawful : Quoted.Lawful inside)

include lawful

-- The closing quote is no digit.
theorem Quoted.inside_open (text : List Char) (unclosed : '\x7d' ∉ text ++ ['"']) :
    inside ('\\' :: 'u' :: '\x7b' :: (text ++ ['"'])) = none := by
  refine lawful.unended _ unclosed ?_
  cases read : Numeral.scalar (text ++ ['"']) with
  | none => rfl
  | some c =>
      have quiet := Numeral.scalar_quiet _ c read '"' (List.mem_append_right _ (List.mem_singleton_self _))
      exact absurd rfl quiet.2.1

namespace Literal

theorem unquote_escaped (c : Char) (rest : List Char) (single : c = 'u' → rest.head? ≠ some '\x7b') :
    unquote inside ('\\' :: c :: rest) =
      (Quoted.escapes.lookup c).bind fun meant => (unquote inside rest).map (meant :: ·) := by
  by_cases apostrophe : c = '\''
  · subst apostrophe
    have bare : requote ('\\' :: '\'' :: rest) = (requote rest).map ('\'' :: ·) := rfl
    rw [unquote, unquote, bare]
    cases requote rest with
    | none => rfl
    | some requoted => exact lawful.plain '\'' (requoted ++ ['"']) (by decide) (by decide)
  · have kept : requote ('\\' :: c :: rest) = (requote rest).map ('\\' :: c :: ·) := by
      rw [requote]
      simp [apostrophe]
    rw [unquote, unquote, kept]
    cases found : requote rest with
    | none => cases Quoted.escapes.lookup c <;> rfl
    | some requoted =>
        refine lawful.escaped c (requoted ++ ['"']) ?_
        intro letter opened
        cases requoted with
        | nil => cases opened
        | cons d more =>
            obtain rfl := Option.some.inj opened
            obtain ⟨others, rfl, _⟩ := requoted_first '\x7b' rest more (by decide) found
            exact single letter rfl

-- Requoting leaves the digits of a scalar value and the brace behind them alone.
theorem unquote_scalar (rest digits more : List Char) (c : Char) (found : braced rest = some (digits, more))
    (scalar : Numeral.scalar digits = some c) :
    unquote inside ('\\' :: 'u' :: '\x7b' :: rest) = (unquote inside more).map (c :: ·) := by
  obtain ⟨rfl, free⟩ := braced_split rest digits more found
  have kept := requote_quiet (digits ++ ['\x7d']) more (quiet_digits digits c scalar)
  rw [List.append_assoc] at kept
  rw [unquote, unquote, requote_opened, ← List.singleton_append, kept]
  cases requote more with
  | none => rfl
  | some requoted =>
      have read := lawful.scalar digits (requoted ++ ['"']) free
      rw [scalar] at read
      simpa using read

theorem unquote_unscaled (rest : List Char)
    (missed : ∀ digits more, braced rest = some (digits, more) → Numeral.scalar digits = none) :
    unquote inside ('\\' :: 'u' :: '\x7b' :: rest) = none := by
  rw [unquote, requote_opened]
  cases found : requote rest with
  | none => rfl
  | some requoted =>
      change inside ('\\' :: 'u' :: '\x7b' :: (requoted ++ ['"'])) = none
      cases closed : braced (requoted ++ ['"']) with
      | none => exact Quoted.inside_open lawful requoted (braced_none _ closed)
      | some parts =>
          obtain ⟨digits, behind⟩ := parts
          obtain ⟨whole, free⟩ := braced_split _ digits behind closed
          rw [whole, lawful.scalar digits behind free]
          cases scalar : Numeral.scalar digits with
          | none => rfl
          | some c =>
              obtain ⟨more, before⟩ := requoted_scalar rest requoted digits behind c found closed scalar
              cases scalar.symm.trans (missed digits more before)

-- Reading the requoted text comes to the same as reading the text in one pass.
theorem unquote_meaning (text : List Char) : unquote inside text = meaning text := by
  induction text using meaning.induct with
  | case1 => rw [unquote_nothing lawful, meaning]
  | case2 rest digits more found c scalar ih =>
      rw [unquote_scalar lawful rest digits more c found ((Numeral.scalar_character digits).trans scalar), ih, meaning]
      split
      · next read =>
          cases found.symm.trans read
          rw [scalar]
      · next missed => cases found.symm.trans missed
  | case3 rest digits more found missed =>
      rw [meaning]
      split
      · next read =>
          cases found.symm.trans read
          rw [missed]
          refine unquote_unscaled lawful rest ?_
          intro _ _ again
          cases found.symm.trans again
          exact (Numeral.scalar_character digits).trans missed
      · next absent => cases found.symm.trans absent
  | case4 rest missed =>
      rw [meaning]
      split
      · next read => cases missed.symm.trans read
      · refine unquote_unscaled lawful rest ?_
        intro _ _ read
        cases missed.symm.trans read
  | case5 c rest single meant escaped ih =>
      rw [unquote_escaped lawful c rest (single_head c rest single), escaped, ih, meaning, escaped]
      · rfl
      · exact single
  | case6 c rest single missed =>
      rw [unquote_escaped lawful c rest (single_head c rest single), missed, meaning, missed]
      · rfl
      · exact single
  | case7 => rw [meaning, unquote, requote, Option.bind_none]
  | case8 c rest scalar escaped lone ih =>
      have backslash : c ≠ '\\' := by
        intro same
        cases rest with
        | nil => exact lone same rfl
        | cons d more => exact escaped d more same rfl
      rw [unquote_unescaped lawful c rest backslash, ih, meaning]
      · exact scalar
      · exact escaped
      · exact lone

end Literal

end Reading

namespace Literal

theorem decode_quoted (inner : List Char) :
    decode ('\'' :: (inner ++ ['\''])) = if inner.getLast? = some '\\' then none else meaning inner := by
  have found : body ('\'' :: (inner ++ ['\''])) = some inner := by simp [body]
  rw [decode_body _ inner found, unquote_meaning Quoted.inside_lawful]

theorem decode_meaning (rest value : List Char) :
    decode ('\'' :: rest) = some value ↔
      ∃ inner, rest = inner ++ ['\''] ∧ inner.getLast? ≠ some '\\' ∧ meaning inner = some value := by
  constructor
  · intro read
    obtain ⟨inner, same, closed⟩ := decode_closed _ value read
    obtain rfl := (List.cons.inj same).2
    rw [decode_quoted, if_neg closed] at read
    exact ⟨inner, rfl, closed, read⟩
  · rintro ⟨inner, rfl, closed, means⟩
    rw [decode_quoted, if_neg closed, means]

end Literal

namespace Symbol

theorem of_word_literal (rest : List Char) : ofWord ('\'' :: rest) = ofLiteral ('\'' :: rest) :=
  of_word_marked '\'' rest (by decide)

/-- A word that an apostrophe begins is a text when an apostrophe that no backslash stands before ends it, and what
stands between the two means this text. Any other is malformed. -/
theorem of_word_unescaped (rest : List Char) :
    (∀ value, ofWord ('\'' :: rest) = .ok (.text value) ↔
      ∃ inner, rest = inner ++ ['\''] ∧ inner.getLast? ≠ some '\\' ∧ Literal.meaning inner = some value.toList) ∧
    ((∃ value, ofWord ('\'' :: rest) = .ok (.text value)) ∨
      ofWord ('\'' :: rest) = .error (.malformedText (String.ofList ('\'' :: rest)))) := by
  refine ⟨?_, ?_⟩
  · intro value
    rw [of_word_literal, of_literal_text, Literal.decode_meaning]
  · rw [of_word_literal, ofLiteral]
    cases Literal.decode ('\'' :: rest) with
    | none => exact .inr rfl
    | some value => exact .inl ⟨_, rfl⟩

example :
    ofWord "'\"\\u\x7b41\x7d\\' '".toList = .ok (.text "\"A' ") ∧
      ofWord "'\\u\x7b41\"'".toList = .error (.malformedText "'\\u\x7b41\"'") :=
  ⟨by with_unfolding_all rfl, by with_unfolding_all rfl⟩

end Symbol

end Offside
