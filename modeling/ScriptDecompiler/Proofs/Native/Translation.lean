import Mathlib.Data.List.Induction
import ScriptDecompiler.Native.Translation

/-!
# Translation tables, line by line

A line of a translation table is blank, asks for a copy, or cannot be read.  What it does
depends on the database as the lines before it have left it, and on nothing else: a copy is
made of what stands under the source at that moment.

So tables that are applied one after the other are one table, the first line that cannot be
read leaves what the lines before it have done, and nothing is ever lost from a database.
-/

namespace ScriptDecompiler.Native

open ScriptDecompiler.Text (decodeStrict? trimChars)

/-- What a line asks for. -/
inductive Request where
  | blank
  | copy (target source : UInt64)
  deriving DecidableEq, Repr

/-- What a line asks for, if it can be read. -/
def readLine : Option String → Except TranslationError Request
  | none => .error .unreadable
  | some line =>
    let trimmed := trimChars line.toList
    if trimmed.isEmpty then .ok .blank
    else (readTranslation trimmed).map fun (target, source) => .copy target source

namespace Database

theorem lookup?_insert (db : Database) (hash : UInt64) (signature : Signature) (other : UInt64) :
    (db.insert hash signature).lookup? other =
      if other = hash then some signature else db.lookup? other := by
  simp only [insert, lookup?, Table.get?_insert, UInt64.toNat_inj]

/-- The database after a copy that is asked for, if there is something to copy. -/
def copyFor? (db : Database) : Request → Option Database
  | .blank => none
  | .copy target source => db.copy? target source

theorem translateLines_nil (db : Database) (copied : Nat) :
    db.translateLines copied [] = ⟨db, .ok copied⟩ := rfl

/-- One line, and what it leaves to the lines behind it. -/
theorem translateLines_cons (db : Database) (copied : Nat) (line : Option String)
    (rest : List (Option String)) :
    db.translateLines copied (line :: rest) =
      match readLine line with
      | .error e => ⟨db, .error e⟩
      | .ok request =>
        match db.copyFor? request with
        | some copy => copy.translateLines (copied + 1) rest
        | none => db.translateLines copied rest := by
  cases line with
  | none => rfl
  | some line =>
      rw [translateLines]
      dsimp only [readLine]
      split
      · rfl
      · cases readTranslation (trimChars line.toList) <;> rfl

/-- What was copied before is only counted. -/
theorem translateLines_eq (db : Database) (copied : Nat) (lines : List (Option String)) :
    db.translateLines copied lines =
      ⟨(db.translateLines 0 lines).database,
        (db.translateLines 0 lines).outcome.map (copied + ·)⟩ := by
  induction lines generalizing db copied with
  | nil => rfl
  | cons line rest ih =>
      simp only [translateLines_cons]
      cases readLine line with
      | error e => rfl
      | ok request =>
          dsimp only
          cases db.copyFor? request with
          | none => exact ih db copied
          | some copy =>
              dsimp only
              rw [ih copy (copied + 1), ih copy (0 + 1)]
              cases (copy.translateLines 0 rest).outcome with
              | error e => rfl
              | ok n => simp only [Except.map]; congr 2; omega

end Database

/-- Go on with further lines, unless the table has ended early. -/
def Translated.followedBy (done : Translated) (lines : List (Option String)) : Translated :=
  match done.outcome with
  | .error _ => done
  | .ok copied => done.database.translateLines copied lines

theorem Translated.followedBy_of_error {done : Translated} {e : TranslationError}
    (h : done.outcome = .error e) (lines : List (Option String)) :
    done.followedBy lines = done := by
  simp only [followedBy, h]

theorem Translated.followedBy_of_ok {done : Translated} {copied : Nat}
    (h : done.outcome = .ok copied) (lines : List (Option String)) :
    done.followedBy lines = done.database.translateLines copied lines := by
  simp only [followedBy, h]

namespace Database

theorem translateLines_append (db : Database) (copied : Nat) (xs ys : List (Option String)) :
    db.translateLines copied (xs ++ ys) = (db.translateLines copied xs).followedBy ys := by
  induction xs generalizing db copied with
  | nil => rfl
  | cons line rest ih =>
      rw [List.cons_append, translateLines_cons, translateLines_cons]
      cases readLine line with
      | error e => rfl
      | ok request =>
          dsimp only
          cases db.copyFor? request with
          | none => exact ih db copied
          | some copy => exact ih copy (copied + 1)

/-- What one more line does to a table that has not ended: it is the fold's step. -/
theorem translateLines_append_singleton {db : Database} {front : List (Option String)} {n : Nat}
    (h : (db.translateLines 0 front).outcome = .ok n) (line : Option String) :
    db.translateLines 0 (front ++ [line]) =
      match readLine line with
      | .error e => ⟨(db.translateLines 0 front).database, .error e⟩
      | .ok request =>
        match (db.translateLines 0 front).database.copyFor? request with
        | some copy => ⟨copy, .ok (n + 1)⟩
        | none => ⟨(db.translateLines 0 front).database, .ok n⟩ := by
  rw [translateLines_append, Translated.followedBy_of_ok h, translateLines_cons]
  rfl

theorem translateLines_append_copied {db copy : Database} {front : List (Option String)}
    {n : Nat} (h : (db.translateLines 0 front).outcome = .ok n) {line : Option String}
    {request : Request} (hread : readLine line = .ok request)
    (hcopy : (db.translateLines 0 front).database.copyFor? request = some copy) :
    db.translateLines 0 (front ++ [line]) = ⟨copy, .ok (n + 1)⟩ := by
  rw [translateLines_append_singleton h, hread]
  simp only [hcopy]

theorem translateLines_append_skipped {db : Database} {front : List (Option String)} {n : Nat}
    (h : (db.translateLines 0 front).outcome = .ok n) {line : Option String}
    {request : Request} (hread : readLine line = .ok request)
    (hcopy : (db.translateLines 0 front).database.copyFor? request = none) :
    db.translateLines 0 (front ++ [line]) = db.translateLines 0 front := by
  rw [translateLines_append_singleton h, hread]
  simp only [hcopy, ← h]

/-- An early end is due to one line, and the lines before it have all been applied. -/
theorem exists_line_of_error {db : Database} {lines : List (Option String)}
    {e : TranslationError} (h : (db.translateLines 0 lines).outcome = .error e) :
    ∃ front line back n, lines = front ++ line :: back ∧
      (db.translateLines 0 front).outcome = .ok n ∧ readLine line = .error e ∧
      (db.translateLines 0 lines).database = (db.translateLines 0 front).database := by
  induction lines using List.reverseRecOn with
  | nil => cases h
  | append_singleton lines last ih =>
      cases hlines : (db.translateLines 0 lines).outcome with
      | error e' =>
          -- the table has ended before the last line
          rw [translateLines_append, Translated.followedBy_of_error hlines] at h ⊢
          obtain ⟨front, line, back, n, rfl, hfront, hread, hdb⟩ := ih h
          exact ⟨front, line, back ++ [last], n, by simp, hfront, hread, hdb⟩
      | ok n =>
          rw [translateLines_append_singleton hlines] at h ⊢
          cases hread : readLine last with
          | error e' =>
              rw [hread] at h
              cases h
              exact ⟨lines, last, [], n, rfl, hlines, hread, rfl⟩
          | ok request =>
              rw [hread] at h
              dsimp only at h
              split at h <;> cases h

/-- A copy is of what stands under the source, and nothing else changes. -/
theorem lookup?_of_copyFor? {db copy : Database} {request : Request}
    (h : db.copyFor? request = some copy) :
    ∃ target source signature, request = .copy target source ∧
      db.lookup? source = some signature ∧
      ∀ hash, copy.lookup? hash = if hash = target then some signature else db.lookup? hash := by
  cases request with
  | blank => cases h
  | copy target source =>
      obtain ⟨signature, hsource, rfl⟩ := Option.map_eq_some_iff.1 h
      exact ⟨target, source, signature, rfl, hsource, lookup?_insert db target signature⟩

/-- What has a signature keeps one, and where another one stands a line has put it. -/
theorem lookup?_translateLines (db : Database) (lines : List (Option String)) (hash : UInt64) :
    ((db.lookup? hash).isSome → ((db.translateLines 0 lines).database.lookup? hash).isSome) ∧
      ((db.translateLines 0 lines).database.lookup? hash ≠ db.lookup? hash →
        ∃ front line back source n, lines = front ++ line :: back ∧
          (db.translateLines 0 front).outcome = .ok n ∧
          readLine line = .ok (.copy hash source) ∧
          ((db.translateLines 0 front).database.lookup? source).isSome) := by
  induction lines using List.reverseRecOn with
  | nil => exact ⟨id, fun h => absurd rfl h⟩
  | append_singleton lines last ih =>
      obtain ⟨hkept, hput⟩ := ih
      -- a line that was applied among the first ones is still one of them all
      have hearlier : (db.translateLines 0 lines).database.lookup? hash ≠ db.lookup? hash →
          ∃ front line back source n, lines ++ [last] = front ++ line :: back ∧
            (db.translateLines 0 front).outcome = .ok n ∧
            readLine line = .ok (.copy hash source) ∧
            ((db.translateLines 0 front).database.lookup? source).isSome := by
        intro h
        obtain ⟨front, line, back, source, n, rfl, hrest⟩ := hput h
        exact ⟨front, line, back ++ [last], source, n, by simp, hrest⟩
      cases hlines : (db.translateLines 0 lines).outcome with
      | error e =>
          rw [translateLines_append, Translated.followedBy_of_error hlines]
          exact ⟨hkept, hearlier⟩
      | ok n =>
          rw [translateLines_append_singleton hlines]
          cases hread : readLine last with
          | error e => exact ⟨hkept, hearlier⟩
          | ok request =>
              dsimp only
              cases hcopy : (db.translateLines 0 lines).database.copyFor? request with
              | none => exact ⟨hkept, hearlier⟩
              | some copy =>
                  obtain ⟨target, source, signature, rfl, hsource, hlookup⟩ :=
                    lookup?_of_copyFor? hcopy
                  dsimp only
                  rw [hlookup hash]
                  by_cases htarget : hash = target
                  · subst htarget
                    rw [if_pos rfl]
                    exact ⟨fun _ => rfl, fun _ => ⟨lines, last, [], source, n, rfl, hlines, hread,
                      by rw [hsource]; rfl⟩⟩
                  · rw [if_neg htarget]
                    exact ⟨hkept, hearlier⟩

end Database

/-- The lines cut so far, with one more byte: the first part is the line that is not complete,
backwards. -/
def cut (state : List UInt8 × List (List UInt8)) (b : UInt8) : List UInt8 × List (List UInt8) :=
  if b = 10 then ([], state.1.reverse :: state.2) else (b :: state.1, state.2)

theorem splitLines_eq (bytes : List UInt8) :
    splitLines bytes =
      ((bytes.foldl cut ([], [])).1.reverse, (bytes.foldl cut ([], [])).2.reverse) := rfl

/-- The lines that are complete stay as they are. -/
theorem foldl_cut (bytes current : List UInt8) (lines : List (List UInt8)) :
    bytes.foldl cut (current, lines) =
      ((bytes.foldl cut (current, [])).1, (bytes.foldl cut (current, [])).2 ++ lines) := by
  induction bytes generalizing current lines with
  | nil => rfl
  | cons b rest ih =>
      rw [List.foldl_cons, List.foldl_cons]
      by_cases hb : b = 10
      · rw [cut, cut, if_pos hb, if_pos hb, ih, ih [] [current.reverse], List.append_assoc]
        rfl
      · rw [cut, cut, if_neg hb, if_neg hb, ih]

/-- Behind a line feed a new line starts. -/
theorem splitLines_append {front : List UInt8} (hfront : front = [] ∨ front.getLast? = some 10)
    (back : List UInt8) :
    (splitLines front).1 = [] ∧
      splitLines (front ++ back) =
        ((splitLines back).1, (splitLines front).2 ++ (splitLines back).2) := by
  have hcurrent : (front.foldl cut ([], [])).1 = [] := by
    rcases hfront with rfl | hlast
    · rfl
    · obtain ⟨rest, rfl⟩ := List.getLast?_eq_some_iff.1 hlast
      rw [List.foldl_append]
      rfl
  refine ⟨by rw [splitLines_eq, hcurrent]; rfl, ?_⟩
  simp only [splitLines_eq, List.foldl_append]
  rw [foldl_cut back, List.reverse_append, hcurrent]

/-- The lines of two texts of which the first ends in a line feed. -/
theorem tableLines_append {front : List UInt8} (hfront : front = [] ∨ front.getLast? = some 10)
    (back : List UInt8) (damaged : Bool) :
    tableLines (front ++ back) damaged = tableLines front false ++ tableLines back damaged := by
  obtain ⟨hrest, happend⟩ := splitLines_append hfront back
  simp only [tableLines, happend, hrest]
  simp

end ScriptDecompiler.Native
