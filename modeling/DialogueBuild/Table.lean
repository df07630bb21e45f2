/-!
Tables: values under distinct names, in the order in which the names were first written.

Results:

1. `get?_insert_self`, `get?_insert_of_ne`   a write is read back and changes no other name;
2. `keys_insert`                             a known name keeps its place, a new one comes last;
3. `keys_map`                                changing the values keeps the names.
-/
namespace DialogueBuild

/-! ## Entries -/

/-- Writes a value under a key: in place of the old value, or else at the end. -/
def insertEntry {κ α : Type} [DecidableEq κ] (key : κ) (value : α) : List (κ × α) → List (κ × α)
  | [] => [(key, value)]
  | (k, v) :: rest =>
    if k = key then (key, value) :: rest else (k, v) :: insertEntry key value rest

/-- The value under a key. -/
def findEntry? {κ α : Type} [DecidableEq κ] (key : κ) : List (κ × α) → Option α
  | [] => none
  | (k, v) :: rest => if k = key then some v else findEntry? key rest

theorem insertEntry_keys {κ α : Type} [DecidableEq κ] (key : κ) (value : α)
    (entries : List (κ × α)) :
    (insertEntry key value entries).map Prod.fst
      = if key ∈ entries.map Prod.fst then entries.map Prod.fst
        else entries.map Prod.fst ++ [key] := by
  induction entries with
  | nil => simp [insertEntry]
  | cons e rest ih =>
    obtain ⟨k, v⟩ := e
    by_cases hk : k = key
    · simp [insertEntry, hk]
    · have hk' : ¬ key = k := fun h => hk h.symm
      simp only [insertEntry, hk, if_false, List.map_cons, ih, List.mem_cons, hk', false_or]
      split <;> simp

theorem insertEntry_nodup {κ α : Type} [DecidableEq κ] {key : κ} {value : α}
    {entries : List (κ × α)} (h : (entries.map Prod.fst).Nodup) :
    ((insertEntry key value entries).map Prod.fst).Nodup := by
  rw [insertEntry_keys]
  split
  · exact h
  · rename_i hk
    exact List.nodup_append.mpr ⟨h, by simp, by
      intro a ha b hb
      rw [List.mem_singleton] at hb
      rintro rfl
      exact hk (hb ▸ ha)⟩

theorem findEntry?_insertEntry {κ α : Type} [DecidableEq κ] (key k : κ) (value : α)
    (entries : List (κ × α)) :
    findEntry? k (insertEntry key value entries)
      = if k = key then some value else findEntry? k entries := by
  induction entries with
  | nil =>
    by_cases h : key = k
    · simp [insertEntry, findEntry?, h]
    · have h' : ¬ k = key := fun e => h e.symm
      simp [insertEntry, findEntry?, h, h']
  | cons e rest ih =>
    obtain ⟨a, v⟩ := e
    by_cases hk : a = key
    · subst hk
      by_cases h : a = k
      · simp [insertEntry, findEntry?, h]
      · have h' : ¬ k = a := fun e => h e.symm
        simp [insertEntry, findEntry?, h, h']
    · by_cases h : a = k
      · subst h
        simp [insertEntry, findEntry?, hk]
      · simp [insertEntry, findEntry?, hk, h, ih]

theorem insertEntry_of_notMem {κ α : Type} [DecidableEq κ] {key : κ} {value : α}
    {entries : List (κ × α)} (h : key ∉ entries.map Prod.fst) :
    insertEntry key value entries = entries ++ [(key, value)] := by
  induction entries with
  | nil => rfl
  | cons e rest ih =>
    obtain ⟨k, v⟩ := e
    rw [List.map_cons, List.mem_cons, not_or] at h
    rw [insertEntry, if_neg (fun hk => h.1 hk.symm), ih h.2]
    rfl

/-- Of distinct names the next one is added at the end. -/
theorem insertEntry_of_nodup {κ α : Type} [DecidableEq κ] {key : κ} {value : α}
    {entries rest : List (κ × α)} (h : ((entries ++ (key, value) :: rest).map Prod.fst).Nodup) :
    insertEntry key value entries = entries ++ [(key, value)] := by
  apply insertEntry_of_notMem
  rw [List.map_append, List.nodup_append] at h
  exact fun hmem => h.2.2 _ hmem key List.mem_cons_self rfl

theorem findEntry?_eq_none_iff {κ α : Type} [DecidableEq κ] {key : κ} {entries : List (κ × α)} :
    findEntry? key entries = none ↔ key ∉ entries.map Prod.fst := by
  induction entries with
  | nil => simp [List.map_nil, findEntry?]
  | cons e rest ih =>
    obtain ⟨k, v⟩ := e
    by_cases hk : k = key
    · simp [hk, findEntry?]
    · have hk' : ¬ key = k := fun h => hk h.symm
      simp [hk, hk', ih, findEntry?]

/-- Only the last value that is written under a key counts. -/
theorem insertEntry_insertEntry {κ α : Type} [DecidableEq κ] (key : κ) (v w : α)
    (entries : List (κ × α)) :
    insertEntry key w (insertEntry key v entries) = insertEntry key w entries := by
  induction entries with
  | nil => simp [insertEntry]
  | cons e rest ih =>
    obtain ⟨k, u⟩ := e
    by_cases hk : k = key
    · simp [insertEntry, hk]
    · simp [insertEntry, hk, ih]

/-! ## Tables -/

/-- Entries under distinct names. -/
structure Table (α : Type) where
  entries : List (String × α)
  nodup : (entries.map Prod.fst).Nodup

namespace Table

variable {α β : Type}

@[ext] theorem ext {s t : Table α} (h : s.entries = t.entries) : s = t := by
  cases s
  cases t
  simp_all

def empty : Table α := ⟨[], List.nodup_nil⟩

instance : Inhabited (Table α) := ⟨empty⟩

def keys (t : Table α) : List String := t.entries.map Prod.fst

def isEmpty (t : Table α) : Bool := t.entries.isEmpty

def get? (t : Table α) (key : String) : Option α := findEntry? key t.entries

def insert (t : Table α) (key : String) (value : α) : Table α :=
  ⟨insertEntry key value t.entries, insertEntry_nodup t.nodup⟩

/-- The entries of a list, written one after the other. -/
def ofList (entries : List (String × α)) : Table α :=
  entries.foldl (fun t (key, value) => t.insert key value) empty

/-- The same names over changed values. -/
def map (f : α → β) (t : Table α) : Table β :=
  ⟨t.entries.map fun (key, value) => (key, f value), by
    have h : (t.entries.map fun (key, value) => (key, f value)).map Prod.fst
        = t.entries.map Prod.fst := by simp [Function.comp_def]
    rw [h]
    exact t.nodup⟩

theorem keys_insert (t : Table α) (key : String) (value : α) :
    (t.insert key value).keys = if key ∈ t.keys then t.keys else t.keys ++ [key] :=
  insertEntry_keys key value t.entries

theorem get?_insert_self (t : Table α) (key : String) (value : α) :
    (t.insert key value).get? key = some value := by
  simp [get?, insert, findEntry?_insertEntry]

theorem get?_insert_of_ne (t : Table α) {key k : String} (value : α) (h : k ≠ key) :
    (t.insert key value).get? k = t.get? k := by
  simp [get?, insert, findEntry?_insertEntry, h]

theorem keys_map (f : α → β) (t : Table α) : (t.map f).keys = t.keys := by
  simp [keys, map, Function.comp_def]

end Table

end DialogueBuild
