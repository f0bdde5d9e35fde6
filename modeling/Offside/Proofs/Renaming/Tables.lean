import Mathlib.Data.List.Nodup
import Offside.Table

set_option autoImplicit false

namespace Offside.Table

universe u

variable {Entry : Type u}

def firsts : List (String × Entry) → List (String × Entry)
  | [] => []
  | entry :: rest => entry :: (firsts rest).filter fun other => other.1 ≠ entry.1

theorem firsts_distinct (entries : List (String × Entry)) : ((firsts entries).map Prod.fst).Nodup := by
  induction entries with
  | nil => exact List.nodup_nil
  | cons entry rest ih =>
      refine List.nodup_cons.mpr ⟨?_, (List.filter_sublist.map Prod.fst).nodup ih⟩
      intro again
      obtain ⟨other, kept, same⟩ := List.mem_map.mp again
      exact of_decide_eq_true (List.mem_filter.mp kept).2 same

theorem find_filter (entries : List (String × Entry)) (gone query : String) (different : query ≠ gone) :
    findIn query (entries.filter fun other => other.1 ≠ gone) = findIn query entries := by
  induction entries with
  | nil => rfl
  | cons entry rest ih =>
      obtain ⟨key, entry⟩ := entry
      by_cases dropped : key = gone
      · subst dropped
        simpa [findIn, different.symm] using ih
      · rw [List.filter_cons_of_pos (by simpa using dropped), findIn, findIn, ih]

theorem put_filter (entries : List (String × Entry)) (gone name : String) (fresh : Entry) (different : name ≠ gone) :
    putIn name fresh (entries.filter fun other => other.1 ≠ gone) =
      (putIn name fresh entries).filter fun other => other.1 ≠ gone := by
  induction entries with
  | nil => simp [putIn, different]
  | cons entry rest ih =>
      obtain ⟨key, entry⟩ := entry
      by_cases dropped : key = gone
      · subst dropped
        simpa [putIn, different.symm] using ih
      · by_cases hit : key = name
        · simp [putIn, hit, different]
        · simpa [putIn, dropped, hit] using ih

theorem find_firsts (entries : List (String × Entry)) (query : String) :
    findIn query (firsts entries) = findIn query entries := by
  induction entries with
  | nil => rfl
  | cons entry rest ih =>
      obtain ⟨key, entry⟩ := entry
      by_cases hit : key = query
      · simp [firsts, findIn, hit]
      · rw [firsts, findIn, findIn, if_neg hit, if_neg hit, find_filter _ _ _ (Ne.symm hit), ih]

theorem put_firsts (entries : List (String × Entry)) (name : String) (fresh : Entry) :
    putIn name fresh (firsts entries) = firsts (putIn name fresh entries) := by
  induction entries with
  | nil => rfl
  | cons entry rest ih =>
      obtain ⟨key, entry⟩ := entry
      by_cases hit : key = name
      · simp [firsts, putIn, hit]
      · rw [firsts, putIn, putIn, if_neg hit, if_neg hit, put_filter _ _ _ _ (Ne.symm hit), ih, firsts]

def rename (map : String → String) (entries : List (String × Entry)) : List (String × Entry) :=
  entries.map fun entry => (map entry.1, entry.2)

theorem find_rename (map : String → String) (name : String) (entries : List (String × Entry))
    (apart : ∀ key ∈ entries.map Prod.fst, map key = map name → key = name) :
    findIn (map name) (rename map entries) = findIn name entries := by
  induction entries with
  | nil => rfl
  | cons entry rest ih =>
      obtain ⟨key, entry⟩ := entry
      obtain ⟨first, others⟩ := List.forall_mem_cons.mp apart
      by_cases hit : key = name
      · subst hit
        simp [rename, findIn]
      · have missed : ¬ map key = map name := fun same => hit (first same)
        simpa [rename, findIn, hit, missed] using ih others

theorem put_rename (map : String → String) (name : String) (fresh : Entry) (entries : List (String × Entry))
    (apart : ∀ key ∈ entries.map Prod.fst, map key = map name → key = name) :
    putIn (map name) fresh (rename map entries) = rename map (putIn name fresh entries) := by
  induction entries with
  | nil => rfl
  | cons entry rest ih =>
      obtain ⟨key, entry⟩ := entry
      obtain ⟨first, others⟩ := List.forall_mem_cons.mp apart
      by_cases hit : key = name
      · subst hit
        simp [rename, putIn]
      · have missed : ¬ map key = map name := fun same => hit (first same)
        simpa [rename, putIn, hit, missed] using ih others

-- The entries under other names. Where two names become one, the first entry counts.
def rekey (map : String → String) (table : Table Entry) : Table Entry :=
  ⟨firsts (rename map table.entries), firsts_distinct _⟩

theorem find_rekey (map : String → String) (name : String) (table : Table Entry)
    (apart : ∀ key ∈ table.names, map key = map name → key = name) : (table.rekey map).find (map name) = table.find name :=
  (find_firsts _ _).trans (find_rename map name table.entries apart)

theorem put_rekey (map : String → String) (name : String) (fresh : Entry) (table : Table Entry)
    (apart : ∀ key ∈ table.names, map key = map name → key = name) :
    put (map name) fresh (table.rekey map) = (put name fresh table).rekey map := by
  apply Table.ext
  change putIn (map name) fresh (firsts (rename map table.entries)) = firsts (rename map (putIn name fresh table.entries))
  rw [put_firsts, put_rename map name fresh table.entries apart]

end Offside.Table
