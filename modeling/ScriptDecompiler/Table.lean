/-!
# Tables with natural-number keys

A table is a list of entries whose keys strictly ascend, so that two tables
with the same entries are equal and listing a table goes by key.
-/

namespace ScriptDecompiler

/-- Entries in strictly ascending order of their keys. -/
structure Table (α : Type) where
  entries : List (Nat × α)
  ascending : entries.Pairwise (fun a b => a.1 < b.1)

namespace Table

variable {α : Type}

/-- The table without entries. -/
def empty : Table α := ⟨[], List.Pairwise.nil⟩

instance : Inhabited (Table α) := ⟨empty⟩

/-- Put `value` under `key` into a list of entries, in place of what was there. -/
def insertEntry (key : Nat) (value : α) : List (Nat × α) → List (Nat × α)
  | [] => [(key, value)]
  | (k, v) :: rest =>
    if key < k then (key, value) :: (k, v) :: rest
    else if key = k then (key, value) :: rest
    else (k, v) :: insertEntry key value rest

theorem mem_insertEntry {key : Nat} {value : α} {entry : Nat × α} :
    {entries : List (Nat × α)} → entry ∈ insertEntry key value entries →
      entry = (key, value) ∨ entry ∈ entries
  | [], h => by simpa [insertEntry] using h
  | (k, v) :: rest, h => by
      unfold insertEntry at h
      split at h
      · simpa using h
      · split at h
        · rcases List.mem_cons.1 h with h | h
          · exact Or.inl h
          · exact Or.inr (List.mem_cons_of_mem _ h)
        · rcases List.mem_cons.1 h with h | h
          · exact Or.inr (h ▸ List.mem_cons_self)
          · rcases mem_insertEntry h with h | h
            · exact Or.inl h
            · exact Or.inr (List.mem_cons_of_mem _ h)

theorem insertEntry_ascending (key : Nat) (value : α) :
    {entries : List (Nat × α)} → entries.Pairwise (fun a b => a.1 < b.1) →
      (insertEntry key value entries).Pairwise (fun a b => a.1 < b.1)
  | [], _ => by simp [insertEntry]
  | (k, v) :: rest, h => by
      have hhead := (List.pairwise_cons.1 h).1
      have htail := (List.pairwise_cons.1 h).2
      unfold insertEntry
      split
      · rename_i hlt
        refine List.pairwise_cons.2 ⟨?_, h⟩
        intro entry hentry
        rcases List.mem_cons.1 hentry with hentry | hentry
        · exact hentry ▸ hlt
        · exact Nat.lt_trans hlt (hhead entry hentry)
      · split
        · rename_i heq
          exact List.pairwise_cons.2 ⟨fun entry hentry => heq ▸ hhead entry hentry, htail⟩
        · refine List.pairwise_cons.2 ⟨?_, insertEntry_ascending key value htail⟩
          intro entry hentry
          rcases mem_insertEntry hentry with hentry | hentry
          · subst hentry
            show k < key
            omega
          · exact hhead entry hentry

/-- Put `value` under `key`, in place of what was there. -/
def insert (t : Table α) (key : Nat) (value : α) : Table α :=
  ⟨insertEntry key value t.entries, insertEntry_ascending key value t.ascending⟩

/-- The first value under `key` in a list of entries. -/
def findEntry? (key : Nat) : List (Nat × α) → Option α
  | [] => none
  | (k, v) :: rest => if key = k then some v else findEntry? key rest

/-- The value under a key. -/
def get? (t : Table α) (key : Nat) : Option α :=
  findEntry? key t.entries

/-- The values in ascending order of their keys. -/
def values (t : Table α) : List α :=
  t.entries.map (·.2)

/-- How many keys have a value. -/
def size (t : Table α) : Nat :=
  t.entries.length

theorem findEntry?_insertEntry (key : Nat) (value : α) (other : Nat) :
    (entries : List (Nat × α)) → findEntry? other (insertEntry key value entries) =
      if other = key then some value else findEntry? other entries
  | [] => by simp [insertEntry, findEntry?]
  | (k, v) :: rest => by
      have ih := findEntry?_insertEntry key value other rest
      by_cases hlt : key < k
      · simp [insertEntry, hlt, findEntry?]
      · by_cases heq : key = k
        · by_cases h : other = k <;> simp [insertEntry, heq, findEntry?, h]
        · by_cases hk : other = k
          · have h : ¬other = key := by omega
            simp [insertEntry, hlt, heq, findEntry?, hk, show ¬k = key by omega]
          · simp [insertEntry, hlt, heq, findEntry?, hk, ih]

/-- A table after an insertion: the new value under its key, the old ones under
all others. -/
@[simp] theorem get?_insert (t : Table α) (key : Nat) (value : α) (other : Nat) :
    (t.insert key value).get? other = if other = key then some value else t.get? other :=
  findEntry?_insertEntry key value other t.entries

end Table

end ScriptDecompiler
