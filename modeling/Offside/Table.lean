set_option autoImplicit false

namespace Offside

universe u v

-- Entries under distinct names, in the order in which the names first appeared.
@[ext]
structure Table (Entry : Type u) where
  entries : List (String × Entry)
  distinct : (entries.map Prod.fst).Nodup

namespace Table

variable {Entry : Type u}

def findIn (name : String) : List (String × Entry) → Option Entry
  | [] => none
  | (key, entry) :: rest => if key = name then some entry else findIn name rest

def putIn (name : String) (fresh : Entry) : List (String × Entry) → List (String × Entry)
  | [] => [(name, fresh)]
  | (key, entry) :: rest => if key = name then (key, fresh) :: rest else (key, entry) :: putIn name fresh rest

theorem keys_put_in (name : String) (fresh : Entry) (entries : List (String × Entry)) :
    (putIn name fresh entries).map Prod.fst =
      if name ∈ entries.map Prod.fst then entries.map Prod.fst else entries.map Prod.fst ++ [name] := by
  induction entries with
  | nil => rfl
  | cons entry rest ih =>
      rcases entry with ⟨key, entry⟩
      by_cases same : key = name
      · simp [putIn, same]
      · simp only [List.map_cons, putIn, same, if_false, List.mem_cons, Ne.symm same, false_or, ih]
        by_cases present : name ∈ rest.map Prod.fst <;> simp [present]

theorem put_in_distinct (name : String) (fresh : Entry) (entries : List (String × Entry))
    (distinct : (entries.map Prod.fst).Nodup) : ((putIn name fresh entries).map Prod.fst).Nodup := by
  rw [keys_put_in]
  split
  · exact distinct
  · next absent =>
      refine List.nodup_append.mpr ⟨distinct, List.nodup_cons.mpr ⟨List.not_mem_nil, List.nodup_nil⟩, ?_⟩
      intro key held other last same
      rw [same, List.mem_singleton.mp last] at held
      exact absent held

def empty : Table Entry := ⟨[], List.nodup_nil⟩

def find (name : String) (table : Table Entry) : Option Entry := findIn name table.entries

def put (name : String) (fresh : Entry) (table : Table Entry) : Table Entry :=
  ⟨putIn name fresh table.entries, put_in_distinct name fresh table.entries table.distinct⟩

def names (table : Table Entry) : List String := table.entries.map Prod.fst

theorem find_put_in (name query : String) (fresh : Entry) (entries : List (String × Entry)) :
    findIn query (putIn name fresh entries) = if name = query then some fresh else findIn query entries := by
  induction entries with
  | nil => rfl
  | cons entry rest ih =>
      rcases entry with ⟨key, entry⟩
      by_cases same : key = name
      · subst same
        by_cases hit : key = query <;> simp [putIn, findIn, hit]
      · by_cases hit : key = query
        · subst hit
          simp [putIn, findIn, same, Ne.symm same]
        · simp [putIn, findIn, same, hit, ih]

theorem find_put (name query : String) (fresh : Entry) (table : Table Entry) :
    (put name fresh table).find query = if name = query then some fresh else table.find query :=
  find_put_in name query fresh table.entries

theorem find_in_is_some (name : String) (entries : List (String × Entry)) :
    (findIn name entries).isSome ↔ name ∈ entries.map Prod.fst := by
  induction entries with
  | nil => simp [findIn]
  | cons entry rest ih =>
      rcases entry with ⟨key, entry⟩
      rw [List.map_cons, List.mem_cons, findIn]
      split
      · next same => simp [same]
      · next different =>
          rw [ih]
          exact ⟨Or.inr, fun present => present.resolve_left (Ne.symm different)⟩

theorem find_is_some (name : String) (table : Table Entry) : (table.find name).isSome ↔ name ∈ table.names :=
  find_in_is_some name table.entries

theorem names_put (name : String) (fresh : Entry) (table : Table Entry) :
    (put name fresh table).names = if name ∈ table.names then table.names else table.names ++ [name] :=
  keys_put_in name fresh table.entries

def mapEntries {Image : Type v} (change : Entry → Image) (table : Table Entry) : Table Image :=
  ⟨table.entries.map fun entry => (entry.1, change entry.2), by
    rw [List.map_map]
    exact table.distinct⟩

theorem find_map_entries {Image : Type v} (change : Entry → Image) (name : String) (table : Table Entry) :
    (table.mapEntries change).find name = (table.find name).map change := by
  obtain ⟨entries, distinct⟩ := table
  change findIn name (entries.map _) = (findIn name entries).map change
  clear distinct
  induction entries with
  | nil => rfl
  | cons entry rest ih =>
      rcases entry with ⟨key, entry⟩
      by_cases hit : key = name
      · simp [findIn, hit]
      · simpa [findIn, hit] using ih

theorem map_entries_map_entries {Middle Image : Type v} (outer : Middle → Image) (inner : Entry → Middle)
    (table : Table Entry) : (table.mapEntries inner).mapEntries outer = table.mapEntries fun entry => outer (inner entry) := by
  simp [mapEntries, Function.comp_def]

theorem put_map_entries {Image : Type v} (change : Entry → Image) (name : String) (fresh : Entry)
    (table : Table Entry) : put name (change fresh) (table.mapEntries change) = (put name fresh table).mapEntries change := by
  obtain ⟨entries, distinct⟩ := table
  apply Table.ext
  change putIn name (change fresh) (entries.map _) = (putIn name fresh entries).map _
  clear distinct
  induction entries with
  | nil => rfl
  | cons entry rest ih =>
      rcases entry with ⟨key, entry⟩
      by_cases hit : key = name
      · simp [putIn, hit]
      · simpa [putIn, hit] using ih

end Table

end Offside
