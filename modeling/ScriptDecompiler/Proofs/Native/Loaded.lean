import ScriptDecompiler.Proofs.Native.Catalog

/-!
# The signatures of a loaded database

A database is loaded from a catalog, and then from translation tables.  Signatures come from the
catalog alone: a translation table copies what is there.  So all that holds of the signatures
that a catalog can write holds of those in the database; above all, each of their types has been
read from its name.
-/

namespace ScriptDecompiler.Native

open ScriptDecompiler.Json (Value)

/-- Has every type of a signature been read from its name? -/
structure Signature.Named (signature : Signature) : Prop where
  parameters : ∀ parameter ∈ signature.parameters, ∃ name, parameter.ty = Ty.parse name
  result : ∃ name, signature.result = Ty.parse name

theorem Parameter.exists_name_of_ofValue? {v : Value} {parameter : Parameter}
    (h : Parameter.ofValue? v = some parameter) : ∃ name, parameter.ty = Ty.parse name := by
  obtain ⟨r, -, h⟩ := Option.bind_eq_some_iff.1 h
  obtain ⟨name, -, h⟩ := Option.bind_eq_some_iff.1 h
  obtain ⟨type, -, h⟩ := Option.bind_eq_some_iff.1 h
  cases h
  exact ⟨type, rfl⟩

theorem Signature.named_of_ofValue? {v : Value} {signature : Signature}
    (h : Signature.ofValue? v = some signature) : signature.Named := by
  obtain ⟨r, -, h⟩ := Option.bind_eq_some_iff.1 h
  obtain ⟨name, -, h⟩ := Option.bind_eq_some_iff.1 h
  obtain ⟨jhash, -, h⟩ := Option.bind_eq_some_iff.1 h
  obtain ⟨parameters, hparameters, h⟩ := Option.bind_eq_some_iff.1 h
  obtain ⟨result, -, h⟩ := Option.bind_eq_some_iff.1 h
  cases h
  refine ⟨fun parameter hmem => ?_, result, rfl⟩
  unfold Json.Record.defaulted? at hparameters
  split at hparameters
  · obtain ⟨items, -, hitems⟩ := Option.bind_eq_some_iff.1 hparameters
    obtain ⟨item, -, hitem⟩ := exists_of_mem_mapM hitems hmem
    exact Parameter.exists_name_of_ofValue? hitem
  · cases hparameters
    cases hmem

theorem named_of_mem_catalogEntries? {s : String} {entries : List (String × Signature)}
    (h : catalogEntries? s = some entries) {e : String × Signature} (he : e ∈ entries) :
    e.2.Named := by
  rw [catalogEntries?_eq] at h
  obtain ⟨categories, hcategories, rfl⟩ := Option.map_eq_some_iff.1 h
  obtain ⟨category, hcategory, hmem⟩ := List.mem_flatMap.1 he
  obtain ⟨v, -, hread⟩ := Option.bind_eq_some_iff.1 hcategories
  obtain ⟨w, hw⟩ := exists_value_of_mem hread hcategory
  obtain ⟨x, hx⟩ := exists_value_of_mem hw hmem
  exact Signature.named_of_ofValue? hx

namespace Database

/-- Do all signatures of a database satisfy `P`? -/
def All (P : Signature → Prop) (db : Database) : Prop :=
  ∀ hash signature, db.lookup? hash = some signature → P signature

variable {P : Signature → Prop} {db : Database}

theorem all_empty : Database.empty.All P :=
  fun _ _ => nofun

theorem All.insert (h : db.All P) (hash : UInt64) {signature : Signature} (hnew : P signature) :
    (db.insert hash signature).All P := by
  intro other found hfound
  rw [lookup?_insert] at hfound
  split at hfound
  · cases hfound
    exact hnew
  · exact h other found hfound

theorem All.insertAll (h : db.All P) {entries : List (String × Signature)}
    (hentries : ∀ e ∈ entries, P e.2) {loaded : Database}
    (hloaded : db.insertAll entries = .ok loaded) : loaded.All P := by
  induction entries generalizing db with
  | nil =>
      cases hloaded
      exact h
  | cons e rest ih =>
      obtain ⟨hfirst, hrest⟩ := List.forall_mem_cons.1 hentries
      rw [Database.insertAll] at hloaded
      split at hloaded
      · cases hloaded
      · rename_i hash _
        exact ih (h.insert hash hfirst) hrest hloaded

/-- A translation table brings in no signature. -/
theorem All.translateLines (h : db.All P) (copied : Nat) (lines : List (Option String)) :
    (db.translateLines copied lines).database.All P := by
  induction lines generalizing db copied with
  | nil => exact h
  | cons line rest ih =>
      rw [translateLines_cons]
      split
      · exact h
      · split
        · rename_i copy hcopy
          obtain ⟨target, source, signature, -, hsource, hsame⟩ := lookup?_of_copyFor? hcopy
          refine ih (fun hash found hfound => ?_) (copied + 1)
          rw [hsame] at hfound
          split at hfound
          · cases hfound
            exact h source signature hsource
          · exact h hash found hfound
        · exact ih h copied

/-- Is this a database that can be loaded: the empty one, that of a catalog, or what a translation
table makes of one? -/
inductive Loaded : Database → Prop
  | empty : Loaded .empty
  | catalog {s : String} {db : Database} (h : ofCatalog s = .ok db) : Loaded db
  | translated {db : Database} (h : Loaded db) (bytes : List UInt8) (damaged : Bool) :
    Loaded (db.translate bytes damaged).database

/-- All types in a loaded database have been read from their names. -/
theorem Loaded.named (h : db.Loaded) : db.All Signature.Named := by
  induction h with
  | empty => exact all_empty
  | translated _ bytes damaged ih => exact ih.translateLines 0 (tableLines bytes damaged)
  | @catalog s db h =>
      unfold ofCatalog at h
      split at h
      · cases h
      · rename_i entries hentries
        exact all_empty.insertAll (fun e he => named_of_mem_catalogEntries? hentries he) h

end Database

end ScriptDecompiler.Native
