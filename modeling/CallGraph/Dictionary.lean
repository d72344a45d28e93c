/-!
# Dictionaries in order of first insertion

A `Dictionary` maps texts to values and remembers the order in which its keys were first
inserted.  A second insertion under a key replaces the value and keeps the place, so that no key
occurs twice; every dictionary carries the proof of that.

* `Dictionary.get?_insert_self`, `Dictionary.get?_insert_of_ne` — what a look-up finds after an
  insertion;
* `Dictionary.keys_insert` — a new key goes last, a known one changes nothing.
-/

namespace CallGraph

/-- Entries with pairwise different keys, in order of first insertion. -/
structure Dictionary (α : Type) where
  /-- Keys and values, in order. -/
  entries : List (String × α) := []
  /-- No key occurs twice. -/
  nodup_keys : (entries.map Prod.fst).Nodup := by exact List.nodup_nil
deriving DecidableEq

namespace Dictionary

variable {α : Type}

instance : Inhabited (Dictionary α) := ⟨{}⟩

/-- The entries with `key` bound to `value`. -/
def put (key : String) (value : α) : List (String × α) → List (String × α)
  | [] => [(key, value)]
  | (k, v) :: rest => if k = key then (key, value) :: rest else (k, v) :: put key value rest

theorem map_fst_put (key : String) (value : α) (entries : List (String × α)) :
    (put key value entries).map Prod.fst =
      if key ∈ entries.map Prod.fst then entries.map Prod.fst
      else entries.map Prod.fst ++ [key] := by
  induction entries with
  | nil => simp [put]
  | cons e rest ih =>
    obtain ⟨k, v⟩ := e
    by_cases hk : k = key
    · simp [put, hk]
    · simp only [put, hk, if_false, List.map_cons, ih, List.mem_cons, Ne.symm hk, false_or]
      split <;> simp

theorem nodup_put (key : String) (value : α) {entries : List (String × α)}
    (h : (entries.map Prod.fst).Nodup) : ((put key value entries).map Prod.fst).Nodup := by
  rw [map_fst_put]
  split
  · exact h
  · rename_i hkey
    refine List.nodup_append.2 ⟨h, List.pairwise_singleton _ _, fun a ha b hb hab => hkey ?_⟩
    rw [← List.mem_singleton.1 hb, ← hab]
    exact ha

/-- Binds `key` to `value`, in its old place if there is one and at the end otherwise. -/
def insert (d : Dictionary α) (key : String) (value : α) : Dictionary α where
  entries := put key value d.entries
  nodup_keys := nodup_put key value d.nodup_keys

/-- The value bound to `key`. -/
def get? (d : Dictionary α) (key : String) : Option α :=
  d.entries.lookup key

/-- The keys in order. -/
def keys (d : Dictionary α) : List String :=
  d.entries.map Prod.fst

/-- Whether the key is bound. -/
def contains (d : Dictionary α) (key : String) : Bool :=
  (d.get? key).isSome

/-- Inserts the pairs one after the other. -/
def ofList (pairs : List (String × α)) : Dictionary α :=
  pairs.foldl (fun d p => d.insert p.1 p.2) {}

theorem lookup_put_self (key : String) (value : α) (entries : List (String × α)) :
    (put key value entries).lookup key = some value := by
  induction entries with
  | nil => simp [put]
  | cons e rest ih =>
    obtain ⟨k, v⟩ := e
    by_cases h : k = key
    · simp [put, h]
    · simp [put, h, List.lookup_cons, beq_false_of_ne (Ne.symm h), ih]

theorem lookup_put_of_ne {key other : String} (h : other ≠ key) (value : α)
    (entries : List (String × α)) :
    (put key value entries).lookup other = entries.lookup other := by
  induction entries with
  | nil => simp [put, List.lookup_cons, beq_false_of_ne h]
  | cons e rest ih =>
    obtain ⟨k, v⟩ := e
    by_cases hk : k = key
    · subst hk
      simp [put, List.lookup_cons, beq_false_of_ne h]
    · simp [put, hk, List.lookup_cons, ih]

@[simp] theorem get?_insert_self (d : Dictionary α) (key : String) (value : α) :
    (d.insert key value).get? key = some value :=
  lookup_put_self key value d.entries

theorem get?_insert_of_ne (d : Dictionary α) {key other : String} (h : other ≠ key)
    (value : α) : (d.insert key value).get? other = d.get? other :=
  lookup_put_of_ne h value d.entries

theorem keys_insert (d : Dictionary α) (key : String) (value : α) :
    (d.insert key value).keys = if key ∈ d.keys then d.keys else d.keys ++ [key] :=
  map_fst_put key value d.entries

end Dictionary

end CallGraph
