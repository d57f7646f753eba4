/-!
# Dictionaries

A dictionary is a list of keys with their values in which no key occurs twice.  It serves the small
tables of a registry; `find?` is its view, and the lemmas below say what each operation does to it.
-/

namespace ObjectWire

/-- A table of keys with their values. -/
structure Dict (α β : Type) where
  entries : List (α × β) := []
deriving Repr

namespace Dict

variable {α β : Type} [DecidableEq α]

instance : Inhabited (Dict α β) := ⟨{}⟩

/-- The value of a key in a list of entries. -/
def findIn (key : α) : List (α × β) → Option β
  | [] => none
  | (k, v) :: rest => if k = key then some v else findIn key rest

/-- A list of entries with the value of a key replaced, or with a new entry at its end. -/
def insertIn (key : α) (value : β) : List (α × β) → List (α × β)
  | [] => [(key, value)]
  | (k, v) :: rest => if k = key then (k, value) :: rest else (k, v) :: insertIn key value rest

/-- The value of a key. -/
def find? (d : Dict α β) (key : α) : Option β := findIn key d.entries

/-- Whether a key has a value. -/
def contains (d : Dict α β) (key : α) : Bool := (d.find? key).isSome

/-- Number of keys. -/
def size (d : Dict α β) : Nat := d.entries.length

/-- The table with the value of a key set. -/
def insert (d : Dict α β) (key : α) (value : β) : Dict α β := ⟨insertIn key value d.entries⟩

/-- The table with a value for a key that had none; a key that has one keeps it. -/
def insertNew (d : Dict α β) (key : α) (value : β) : Dict α β :=
  if d.contains key then d else d.insert key value

/-- The table of a list of keys with their values. -/
def ofList (entries : List (α × β)) : Dict α β :=
  entries.foldl (fun d (k, v) => d.insert k v) {}

/-- An entry that is put in is found under its key, and the others as before. -/
theorem findIn_insertIn (key other : α) (value : β) (entries : List (α × β)) :
    findIn other (insertIn key value entries) =
      if key = other then some value else findIn other entries := by
  induction entries with
  | nil => simp [insertIn, findIn]
  | cons entry rest ih =>
    obtain ⟨k, v⟩ := entry
    by_cases hk : k = key
    · subst hk
      by_cases ho : k = other <;> simp [insertIn, findIn, ho]
    · by_cases ho : k = other
      · subst ho
        simp [insertIn, findIn, hk, Ne.symm hk]
      · simp [insertIn, findIn, hk, ho, ih]

/-- A key finds the value that was put in under it last. -/
@[simp] theorem find?_insert (d : Dict α β) (key other : α) (value : β) :
    (d.insert key value).find? other = if key = other then some value else d.find? other :=
  findIn_insertIn key other value d.entries

/-- A key finds the value that was put in under it first. -/
@[simp] theorem find?_insertNew (d : Dict α β) (key other : α) (value : β) :
    (d.insertNew key value).find? other =
      if key = other then some ((d.find? key).getD value) else d.find? other := by
  unfold insertNew contains
  cases h : d.find? key with
  | none => simp
  | some v =>
    by_cases ho : key = other
    · subst ho; simp [h]
    · simp [ho]

/-- The keys of a table, in the order of their entries. -/
def keys (d : Dict α β) : List α := d.entries.map (·.1)

omit [DecidableEq α] in
/-- There are as many keys as entries. -/
theorem length_keys (d : Dict α β) : d.keys.length = d.size := List.length_map ..

/-- What is found is found under one of the keys. -/
theorem isSome_findIn (key : α) (entries : List (α × β)) :
    (findIn key entries).isSome = true ↔ key ∈ entries.map (·.1) := by
  induction entries with
  | nil => simp [findIn]
  | cons entry rest ih =>
    obtain ⟨k, v⟩ := entry
    by_cases hk : k = key
    · simp [findIn, hk]
    · simp [findIn, hk, Ne.symm hk, ih]

/-- A key is there if it is among the keys. -/
theorem contains_iff {d : Dict α β} {key : α} : d.contains key = true ↔ key ∈ d.keys :=
  isSome_findIn key d.entries

/-- A new key goes behind the others, and a key that was there stays where it is. -/
theorem map_fst_insertIn (key : α) (value : β) (entries : List (α × β)) :
    (insertIn key value entries).map (·.1) =
      if key ∈ entries.map (·.1) then entries.map (·.1) else entries.map (·.1) ++ [key] := by
  induction entries with
  | nil => rfl
  | cons entry rest ih =>
    obtain ⟨k, v⟩ := entry
    -- The key is the first one, one of the rest, or new; only then does a key come to the end.
    by_cases hk : k = key
    · simp [insertIn, hk]
    · by_cases hrest : key ∈ rest.map (·.1)
      · simp only [insertIn, if_neg hk, List.map_cons, ih, if_pos hrest,
          if_pos (List.mem_cons_of_mem k hrest)]
      · have hnew : key ∉ k :: rest.map (·.1) := List.not_mem_cons_of_ne_of_not_mem (Ne.symm hk) hrest
        simp only [insertIn, if_neg hk, List.map_cons, ih, if_neg hrest, if_neg hnew, List.cons_append]

/-- A key that has a value keeps its place, and a new one comes last. -/
theorem keys_insertNew (d : Dict α β) (key : α) (value : β) :
    (d.insertNew key value).keys = if key ∈ d.keys then d.keys else d.keys ++ [key] := by
  by_cases hknown : d.contains key = true
  · rw [insertNew, if_pos hknown, if_pos (contains_iff.mp hknown)]
  · rw [insertNew, if_neg hknown]
    exact map_fst_insertIn key value d.entries

/-- No key is lost, and at most one is new. -/
theorem mem_keys_insertNew {d : Dict α β} {key other : α} {value : β} :
    other ∈ (d.insertNew key value).keys ↔ other = key ∨ other ∈ d.keys := by
  rw [keys_insertNew]
  split
  · next hknown => exact ⟨.inr, fun h => h.elim (fun heq => heq ▸ hknown) id⟩
  · rw [List.mem_append, List.mem_singleton, or_comm]

/-- No key occurs twice. -/
theorem nodup_keys_insertNew {d : Dict α β} (h : d.keys.Nodup) (key : α) (value : β) :
    (d.insertNew key value).keys.Nodup := by
  rw [keys_insertNew]
  split
  · exact h
  · next hnew =>
    refine List.nodup_append.mpr ⟨h, List.pairwise_singleton .., fun k hk k' hk' => ?_⟩
    rw [List.mem_singleton.mp hk']
    exact fun heq => hnew (heq ▸ hk)

/-- There is one key more at most. -/
theorem size_insertNew (d : Dict α β) (key : α) (value : β) :
    d.size ≤ (d.insertNew key value).size ∧ (d.insertNew key value).size ≤ d.size + 1 := by
  rw [← length_keys, ← length_keys, keys_insertNew]
  split <;> simp

end Dict

end ObjectWire
