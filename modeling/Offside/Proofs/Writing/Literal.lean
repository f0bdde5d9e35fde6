import Mathlib.Data.List.Induction
import Offside.Proofs.Escapes

set_option autoImplicit false

namespace Offside.Literal

-- A backslash is spelled by its number: written twice, the second one would keep the closing apostrophe from closing.
def escape (c : Char) : List Char :=
  if c = '\'' then ['\\', '\'']
  else if c = '\\' then ['\\', 'u', '\x7b', '5', 'c', '\x7d']
  else if c = '\n' then ['\\', 'n']
  else [c]

def write (text : List Char) : List Char := '\'' :: text.flatMap escape ++ ['\'']

def requoted (c : Char) : List Char :=
  if c = '\'' then ['\'']
  else if c = '\\' then ['\\', 'u', '\x7b', '5', 'c', '\x7d']
  else if c = '\n' then ['\\', 'n']
  else if c = '"' then ['\\', '"']
  else [c]

theorem requote_escape (c : Char) (rest : List Char) :
    requote (escape c ++ rest) = (requote rest).map (requoted c ++ ·) := by
  by_cases apostrophe : c = '\''
  · subst apostrophe
    rfl
  · by_cases backslash : c = '\\'
    · subst backslash
      simp [escape, requoted, requote, Function.comp_def]
    · by_cases feed : c = '\n'
      · subst feed
        simp [escape, requoted, requote]
      · by_cases quote : c = '"'
        · subst quote
          simp [escape, requoted, requote]
        · simp [escape, requoted, requote, apostrophe, backslash, feed, quote]

theorem requote_escapes (text : List Char) : requote (text.flatMap escape) = some (text.flatMap requoted) := by
  induction text with
  | nil => rfl
  | cons c rest ih => rw [List.flatMap_cons, requote_escape, ih, Option.map_some, List.flatMap_cons]

section Reading

variable {inside : List Char → Option (List Char)} (lawful : Quoted.Lawful inside)

include lawful

theorem inside_requoted (c : Char) (rest : List Char) : inside (requoted c ++ rest) = (inside rest).map (c :: ·) := by
  by_cases apostrophe : c = '\''
  · subst apostrophe
    exact lawful.plain '\'' rest (by decide) (by decide)
  · by_cases backslash : c = '\\'
    · subst backslash
      have scalar : Numeral.scalar ['5', 'c'] = some '\\' := by decide
      have read := lawful.scalar ['5', 'c'] rest (by decide)
      rw [scalar] at read
      exact read
    · by_cases feed : c = '\n'
      · subst feed
        exact lawful.escaped 'n' rest fun letter => absurd letter (by decide)
      · by_cases quote : c = '"'
        · subst quote
          exact lawful.escaped '"' rest fun letter => absurd letter (by decide)
        · simp only [requoted, apostrophe, backslash, feed, quote, if_false]
          exact lawful.plain c rest backslash quote

theorem inside_requoteds (text : List Char) : inside (text.flatMap requoted ++ ['"']) = some text := by
  induction text with
  | nil => exact lawful.closed
  | cons c rest ih => rw [List.flatMap_cons, List.append_assoc, inside_requoted lawful, ih, Option.map_some]

end Reading

theorem escape_ends (c : Char) : ∃ front last, escape c = front ++ [last] ∧ last ≠ '\\' := by
  by_cases apostrophe : c = '\''
  · exact ⟨['\\'], '\'', by simp [escape, apostrophe], by decide⟩
  · by_cases backslash : c = '\\'
    · exact ⟨['\\', 'u', '\x7b', '5', 'c'], '\x7d', by simp [escape, backslash], by decide⟩
    · by_cases feed : c = '\n'
      · exact ⟨['\\'], 'n', by simp [escape, feed], by decide⟩
      · exact ⟨[], c, by simp [escape, apostrophe, backslash, feed], backslash⟩

theorem escapes_closed (text : List Char) : (text.flatMap escape).getLast? ≠ some '\\' := by
  cases text using List.reverseRecOn with
  | nil => simp
  | append_singleton front c =>
      obtain ⟨start, last, spelled, other⟩ := escape_ends c
      rw [List.flatMap_append, List.flatMap_singleton, spelled, ← List.append_assoc, List.getLast?_concat]
      exact fun same => other (Option.some.inj same)

theorem body_write (text : List Char) : body (write text) = some (text.flatMap escape) := by
  simp [body, write]

theorem decode_write (text : List Char) : decode (write text) = some text := by
  rw [decode, body_write]
  simp only [escapes_closed, if_false, requote_escapes, Option.bind_some, List.cons_append, Quoted.decode,
    inside_requoteds Quoted.inside_lawful]

end Offside.Literal
