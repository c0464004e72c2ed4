import Mathlib.Data.Set.Card
import ScriptDecompiler.Proofs.Native.Hash
import ScriptDecompiler.Proofs.Native.Translation
import ScriptDecompiler.Proofs.Text.Order
import ScriptDecompiler.Schema.Catalog

/-!
# What stands in the database of a catalog

The signatures of a catalog come in ascending order of the bytes of their keys, category by
category.  They are entered in this order, so under a hash stands the last one whose key denotes
it, however the key is written, and the first key that denotes nothing is the one reported.
-/

namespace ScriptDecompiler

namespace Table

variable {α : Type}

theorem findEntry?_eq_none {key : Nat} {entries : List (Nat × α)} (h : ∀ e ∈ entries, key < e.1) :
    findEntry? key entries = none := by
  induction entries with
  | nil => rfl
  | cons e rest ih =>
      have hne : key ≠ e.1 := Nat.ne_of_lt (h e List.mem_cons_self)
      exact (if_neg hne).trans (ih fun x hx => h x (List.mem_cons_of_mem _ hx))

theorem length_insertEntry (key : Nat) (value : α) {entries : List (Nat × α)}
    (h : entries.Pairwise fun a b => a.1 < b.1) :
    (insertEntry key value entries).length =
      entries.length + if findEntry? key entries = none then 1 else 0 := by
  induction entries with
  | nil => rfl
  | cons e rest ih =>
      obtain ⟨hhead, hrest⟩ := List.pairwise_cons.1 h
      rw [insertEntry, findEntry?]
      by_cases hlt : key < e.1
      · have hnone := findEntry?_eq_none fun x hx => Nat.lt_trans hlt (hhead x hx)
        rw [if_pos hlt, if_neg (Nat.ne_of_lt hlt), if_pos hnone]
        rfl
      · by_cases heq : key = e.1
        · rw [if_neg hlt, if_pos heq, if_pos heq]
          rfl
        · rw [if_neg hlt, if_neg heq, if_neg heq, List.length_cons, ih hrest, List.length_cons]
          omega

theorem size_insert (t : Table α) (key : Nat) (value : α) :
    (t.insert key value).size = t.size + if t.get? key = none then 1 else 0 :=
  length_insertEntry key value t.ascending

end Table

namespace Native

open ScriptDecompiler.Json (Value)
open ScriptDecompiler.Text (precedes precedes_total precedes_trans trimChars utf8Bytes
  utf8Bytes_lt_of_precedes)

/-- The categories of a catalog, each with its signatures under their written hashes. -/
def categories? (s : String) : Option (List (String × List (String × Signature))) :=
  (Json.parse? s).bind (sortedMap? (sortedMap? Signature.ofValue?))

theorem catalogEntries?_eq (s : String) :
    catalogEntries? s = (categories? s).map (·.flatMap (·.2)) := by
  rw [catalogEntries?, categories?]
  cases Json.parse? s with
  | none => rfl
  | some v =>
      show (sortedMap? (sortedMap? Signature.ofValue?) v).bind _ = _
      rw [Option.bind_some]
      cases sortedMap? (sortedMap? Signature.ofValue?) v <;> rfl

section Maps

variable {α : Type}

/-- The keys of a map ascend in the order of their bytes. -/
abbrev AscendingKeys (entries : List (String × α)) : Prop :=
  entries.Pairwise fun a b => utf8Bytes a.1 < utf8Bytes b.1

theorem lastOfEqualKeys_cons_cons (e next : String × α) (rest : List (String × α)) :
    lastOfEqualKeys (e :: next :: rest) =
      if e.1 = next.1 then lastOfEqualKeys (next :: rest)
      else e :: lastOfEqualKeys (next :: rest) := by
  rw [lastOfEqualKeys]

theorem lastOfEqualKeys_subset (entries : List (String × α)) :
    lastOfEqualKeys entries ⊆ entries := by
  induction entries with
  | nil => exact List.Subset.refl []
  | cons e rest ih =>
      cases rest with
      | nil => exact List.Subset.refl [e]
      | cons next rest =>
          rw [lastOfEqualKeys_cons_cons]
          split
          · exact List.subset_cons_of_subset e ih
          · exact List.cons_subset_cons e ih

theorem sortedEntries_subset (entries : List (String × α)) : sortedEntries entries ⊆ entries :=
  fun _ h => List.mem_mergeSort.1 (lastOfEqualKeys_subset _ h)

/-- Behind a run of equal keys the next key is greater, and so are all that follow it. -/
theorem ascendingKeys_lastOfEqualKeys {entries : List (String × α)}
    (h : entries.Pairwise fun a b => precedes a.1.toList b.1.toList) :
    AscendingKeys (lastOfEqualKeys entries) := by
  induction entries with
  | nil => exact .nil
  | cons e rest ih =>
      cases rest with
      | nil => exact List.pairwise_singleton _ _
      | cons next rest =>
          obtain ⟨hhead, hrest⟩ := List.pairwise_cons.1 h
          rw [lastOfEqualKeys_cons_cons]
          split
          · exact ih hrest
          · rename_i hne
            refine List.pairwise_cons.2 ⟨fun x hx => ?_, ih hrest⟩
            have hnext := utf8Bytes_lt_of_precedes (hhead next List.mem_cons_self) hne
            by_cases heq : next.1 = x.1
            · exact heq ▸ hnext
            · rcases List.mem_cons.1 (lastOfEqualKeys_subset _ hx) with rfl | hx
              · exact absurd rfl heq
              · exact List.lt_trans hnext
                  (utf8Bytes_lt_of_precedes ((List.pairwise_cons.1 hrest).1 x hx) heq)

theorem ascendingKeys_sortedEntries (entries : List (String × α)) :
    AscendingKeys (sortedEntries entries) :=
  ascendingKeys_lastOfEqualKeys (List.pairwise_mergeSort
    (fun a b c => precedes_trans a.1.toList b.1.toList c.1.toList)
    (fun a b => precedes_total a.1.toList b.1.toList) entries)

theorem sortedEntries_singleton (e : String × α) : sortedEntries [e] = [e] := by
  rw [sortedEntries, List.mergeSort_singleton]
  rfl

theorem sortedEntries_swapped {a b : String × α}
    (h : precedes a.1.toList b.1.toList = false) (hne : b.1 ≠ a.1) :
    sortedEntries [a, b] = [b, a] := by
  have hsort : [a, b].mergeSort (fun a b => precedes a.1.toList b.1.toList) = [b, a] := by
    rw [List.mergeSort]
    simp [List.MergeSort.Internal.splitInTwo, h]
  rw [sortedEntries, hsort, lastOfEqualKeys_cons_cons, if_neg hne]
  rfl

theorem sortedMap?_eq_some {value? : Value → Option α} {v : Value} {raw : List (String × Value)}
    {read : List (String × α)} (hraw : v.entries? = some raw)
    (hread : (raw.mapM fun e => (value? e.2).map (e.1, ·)) = some read) :
    sortedMap? value? v = some (sortedEntries read) := by
  rw [sortedMap?, hraw]
  exact congrArg (Option.bind · fun entries => some (sortedEntries entries)) hread

theorem ascendingKeys_of_sortedMap? {value? : Value → Option α} {v : Value}
    {entries : List (String × α)} (h : sortedMap? value? v = some entries) :
    AscendingKeys entries := by
  obtain ⟨raw, -, h⟩ := Option.bind_eq_some_iff.1 h
  obtain ⟨read, -, h⟩ := Option.bind_eq_some_iff.1 h
  cases h
  exact ascendingKeys_sortedEntries read

theorem exists_of_mem_mapM {β γ : Type} {f : β → Option γ} {raw : List β} {read : List γ}
    (h : raw.mapM f = some read) {e : γ} (he : e ∈ read) : ∃ x ∈ raw, f x = some e := by
  induction raw generalizing read with
  | nil => cases h; cases he
  | cons x raw ih =>
      rw [List.mapM_cons] at h
      obtain ⟨first, hx, h⟩ := Option.bind_eq_some_iff.1 h
      obtain ⟨rest, hrest, h⟩ := Option.bind_eq_some_iff.1 h
      cases h
      rcases List.mem_cons.1 he with rfl | he
      · exact ⟨x, List.mem_cons_self, hx⟩
      · obtain ⟨y, hy, hread⟩ := ih hrest he
        exact ⟨y, List.mem_cons_of_mem _ hy, hread⟩

/-- What a map holds has been read from some value. -/
theorem exists_value_of_mem {value? : Value → Option α} {v : Value}
    {entries : List (String × α)} (h : sortedMap? value? v = some entries) {e : String × α}
    (he : e ∈ entries) : ∃ w, value? w = some e.2 := by
  obtain ⟨raw, -, h⟩ := Option.bind_eq_some_iff.1 h
  obtain ⟨read, hread, h⟩ := Option.bind_eq_some_iff.1 h
  cases h
  obtain ⟨x, -, hx⟩ := exists_of_mem_mapM hread (sortedEntries_subset read he)
  obtain ⟨value, hvalue, rfl⟩ := Option.map_eq_some_iff.1 hx
  exact ⟨x.2, hvalue⟩

end Maps

namespace Database

theorem insertAll_append (db : Database) (xs ys : List (String × Signature)) :
    db.insertAll (xs ++ ys) = (db.insertAll xs).bind (·.insertAll ys) := by
  induction xs generalizing db with
  | nil => rfl
  | cons e rest ih =>
      rw [List.cons_append, insertAll, insertAll]
      cases parseHash e.1 with
      | error text => rfl
      | ok hash => exact ih (db.insert hash e.2)

theorem insertAll_singleton {key : String} {hash : UInt64} (h : Denotes key hash) (db : Database)
    (signature : Signature) : db.insertAll [(key, signature)] = .ok (db.insert hash signature) := by
  rw [insertAll, parseHash_eq_ok_iff.2 h]
  rfl

theorem insertAll_of_not_denotes {key : String} (h : ∀ hash, ¬Denotes key hash) (db : Database)
    (signature : Signature) (rest : List (String × Signature)) :
    db.insertAll ((key, signature) :: rest) =
      .error (.badHash (String.ofList (trimChars key.toList))) := by
  rw [insertAll, parseHash_eq_error_iff.2 ⟨h, rfl⟩]

end Database

/-- The hashes that the keys of signatures denote. -/
def hashes (entries : List (String × Signature)) : Set UInt64 :=
  {hash | ∃ e ∈ entries, Denotes e.1 hash}

/-- The last signature whose key denotes a hash. -/
def IsLast (entries : List (String × Signature)) (hash : UInt64) (signature : Signature) : Prop :=
  ∃ before key after, entries = before ++ (key, signature) :: after ∧ Denotes key hash ∧
    ∀ e ∈ after, ¬Denotes e.1 hash

theorem isLast_append_singleton {key : String} {target : UInt64} (h : Denotes key target)
    (entries : List (String × Signature)) (last : Signature) (hash : UInt64)
    (signature : Signature) :
    IsLast (entries ++ [(key, last)]) hash signature ↔
      if hash = target then last = signature else IsLast entries hash signature := by
  constructor
  · rintro ⟨before, key', after, heq, hdenotes, hafter⟩
    rcases List.eq_nil_or_concat after with rfl | ⟨after, e, rfl⟩
    · obtain ⟨-, he⟩ := List.append_inj' heq rfl
      cases he
      rw [if_pos (hdenotes.unique h)]
    · rw [List.concat_eq_append, ← List.cons_append, ← List.append_assoc] at heq
      obtain ⟨rfl, he⟩ := List.append_inj' heq rfl
      cases he
      have hne : hash ≠ target := by
        rintro rfl
        exact hafter (key, last) (by simp) h
      rw [if_neg hne]
      exact ⟨before, key', after, rfl, hdenotes,
        fun e he => hafter e (by simp [he])⟩
  · intro hcase
    by_cases htarget : hash = target
    · subst htarget
      rw [if_pos rfl] at hcase
      subst hcase
      exact ⟨entries, key, [], rfl, h, fun e => nofun⟩
    · rw [if_neg htarget] at hcase
      obtain ⟨before, key', after, rfl, hdenotes, hafter⟩ := hcase
      refine ⟨before, key', after ++ [(key, last)], by simp, hdenotes, fun e he => ?_⟩
      rcases List.mem_append.1 he with he | he
      · exact hafter e he
      · cases List.mem_singleton.1 he
        exact fun hkey => htarget (hkey.unique h)

theorem hashes_append_singleton {key : String} {target : UInt64} (h : Denotes key target)
    (entries : List (String × Signature)) (last : Signature) :
    hashes (entries ++ [(key, last)]) = insert target (hashes entries) := by
  ext hash
  constructor
  · rintro ⟨e, he, hdenotes⟩
    rcases List.mem_append.1 he with he | he
    · exact .inr ⟨e, he, hdenotes⟩
    · cases List.mem_singleton.1 he
      exact .inl (hdenotes.unique h)
  · rintro (rfl | ⟨e, he, hdenotes⟩)
    · exact ⟨(key, last), List.mem_append_right _ List.mem_cons_self, h⟩
    · exact ⟨e, List.mem_append_left _ he, hdenotes⟩

/-- A database holds just these signatures: under each hash the last one that denotes it. -/
structure Database.Holds (db : Database) (entries : List (String × Signature)) : Prop where
  lookup?_eq_some_iff : ∀ hash signature,
    db.lookup? hash = some signature ↔ IsLast entries hash signature
  isSome_iff : ∀ hash, (db.lookup? hash).isSome ↔ hash ∈ hashes entries
  finite : (hashes entries).Finite
  size_eq : db.size = (hashes entries).ncard

theorem Database.holds_empty : Database.empty.Holds [] where
  lookup?_eq_some_iff hash signature :=
    ⟨nofun, fun ⟨before, _, _, h, _⟩ => by cases before <;> cases h⟩
  isSome_iff hash := ⟨nofun, fun ⟨_, h, _⟩ => nomatch h⟩
  finite := by simp [hashes]
  size_eq := by simp [hashes]; rfl

/-- One more signature takes the place of what stood under its hash. -/
theorem Database.Holds.insert {db : Database} {entries : List (String × Signature)}
    (hdb : db.Holds entries) {key : String} {target : UInt64} (h : Denotes key target)
    (last : Signature) : (db.insert target last).Holds (entries ++ [(key, last)]) where
  lookup?_eq_some_iff hash signature := by
    rw [lookup?_insert, isLast_append_singleton h]
    split
    · rw [Option.some.injEq]
    · exact hdb.lookup?_eq_some_iff hash signature
  isSome_iff hash := by
    rw [lookup?_insert, hashes_append_singleton h, Set.mem_insert_iff, ← hdb.isSome_iff hash]
    by_cases htarget : hash = target <;> simp [htarget]
  finite := by
    rw [hashes_append_singleton h]
    exact hdb.finite.insert target
  size_eq := by
    have hsize : (db.insert target last).size =
        db.size + if db.lookup? target = none then 1 else 0 :=
      Table.size_insert db.table target.toNat last
    rw [hsize, hashes_append_singleton h, hdb.size_eq]
    split
    · rename_i hnone
      have hnew : target ∉ hashes entries := by
        rw [← hdb.isSome_iff, hnone]
        exact nofun
      rw [Set.ncard_insert_of_notMem hnew hdb.finite]
    · rename_i hsome
      rw [Set.insert_eq_of_mem ((hdb.isSome_iff target).1 (Option.isSome_iff_ne_none.2 hsome))]
      rfl

/-- Signatures whose keys all denote hashes are all entered. -/
theorem Database.exists_insertAll_eq_ok {entries : List (String × Signature)}
    (h : ∀ e ∈ entries, ∃ hash, Denotes e.1 hash) :
    ∃ db, Database.empty.insertAll entries = .ok db ∧ db.Holds entries := by
  induction entries using List.reverseRecOn with
  | nil => exact ⟨Database.empty, rfl, holds_empty⟩
  | append_singleton entries last ih =>
      obtain ⟨db, hdb, hholds⟩ := ih fun e he => h e (List.mem_append_left _ he)
      obtain ⟨hash, hlast⟩ := h last (List.mem_append_right _ List.mem_cons_self)
      refine ⟨db.insert hash last.2, ?_, hholds.insert hlast last.2⟩
      rw [insertAll_append, hdb]
      exact insertAll_singleton hlast db last.2

/-- The first signature whose key denotes nothing. -/
def FirstBad (entries : List (String × Signature)) (e : String × Signature) : Prop :=
  ∃ before after, entries = before ++ e :: after ∧ (∀ x ∈ before, ∃ hash, Denotes x.1 hash) ∧
    ∀ hash, ¬Denotes e.1 hash

theorem denotes_or_exists_firstBad (entries : List (String × Signature)) :
    (∀ e ∈ entries, ∃ hash, Denotes e.1 hash) ∨ ∃ e, FirstBad entries e := by
  induction entries with
  | nil => exact .inl fun e => nofun
  | cons e rest ih =>
      by_cases he : ∃ hash, Denotes e.1 hash
      · rcases ih with hrest | ⟨bad, before, after, rfl, hbefore, hbad⟩
        · exact .inl (List.forall_mem_cons.2 ⟨he, hrest⟩)
        · exact .inr ⟨bad, e :: before, after, rfl, List.forall_mem_cons.2 ⟨he, hbefore⟩, hbad⟩
      · exact .inr ⟨e, [], rest, rfl, fun x => nofun, not_exists.1 he⟩

theorem Database.insertAll_of_firstBad {entries : List (String × Signature)}
    {e : String × Signature} (h : FirstBad entries e) :
    Database.empty.insertAll entries =
      .error (.badHash (String.ofList (trimChars e.1.toList))) := by
  obtain ⟨before, after, rfl, hbefore, hbad⟩ := h
  obtain ⟨db, hdb, -⟩ := exists_insertAll_eq_ok hbefore
  rw [insertAll_append, hdb]
  exact insertAll_of_not_denotes hbad db e.2 after

/-- A category of one signature, which has a name and nothing else. -/
def namedCategory (key name : String) : Value :=
  .object [(some key, .object [(some "name", .text (some name))])]

theorem sortedMap?_namedCategory (key name : String) :
    sortedMap? Signature.ofValue? (namedCategory key name) =
      some [(key, ⟨name, none, [], .unknown⟩)] := by
  have hresult : Ty.parse "" = .unknown := by decide +kernel
  have hsignature : Signature.ofValue? (.object [(some "name", .text (some name))]) =
      some ⟨name, none, [], Ty.parse ""⟩ := rfl
  rw [hresult] at hsignature
  have hread : [(key, Value.object [(some "name", .text (some name))])].mapM
      (fun e => (Signature.ofValue? e.2).map (e.1, ·)) =
        some [(key, ⟨name, none, [], .unknown⟩)] := by
    simp only [List.mapM_cons, hsignature]
    rfl
  rw [sortedMap?_eq_some rfl hread, sortedEntries_singleton]

/-- Two spellings of one hash, of which the last category has the second. -/
def twoSpellings : String :=
  "\x7b\"b\":\x7b\"0X0a \":\x7b\"name\":\"LAST\"\x7d\x7d," ++
    "\"a\":\x7b\"+A\":\x7b\"name\":\"FIRST\"\x7d\x7d\x7d"

end Native

end ScriptDecompiler
