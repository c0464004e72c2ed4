import Mathlib.Data.List.Induction
import ScriptDecompiler.Decompile
import ScriptDecompiler.Proofs.Machine.Signatures

/-!
# Listings

A listing is the lines of the instructions one after another, with a header in front of each
function.  What it notes about a native is the name that the native goes by, with the hash behind it
if the name is one of the database; or that the unit's table has no such native.
-/

namespace ScriptDecompiler.Listing

open ScriptDecompiler.Bytecode (Instruction)
open ScriptDecompiler.Text (hexLiteral)

variable (u : ScriptUnit) (natives : Native.Database)

/-- The last instruction adds its line, behind a header if it opens a function. -/
theorem render_append_singleton (before : List Instruction) (i : Instruction) :
    render u natives (before ++ [i]) = render u natives before ++
      (if i.isEnter && !(render u natives before).isEmpty then "\n" else "") ++ header i ++
        line u natives i := by
  have hlast : render u natives (before ++ [i]) =
      (if i.isEnter && !(render u natives before).isEmpty then render u natives before ++ "\n"
        else render u natives before) ++ header i ++ line u natives i := by
    rw [render, List.foldl_append]
    rfl
  rw [hlast]
  split
  · rfl
  · rw [String.append_empty]

/-- What is listed stays, and more comes behind it. -/
theorem exists_render_append (before after : List Instruction) :
    ∃ below, render u natives (before ++ after) = render u natives before ++ below := by
  induction after using List.reverseRecOn with
  | nil => exact ⟨"", by simp⟩
  | append_singleton after i ih =>
      obtain ⟨below, hbelow⟩ := ih
      rw [← List.append_assoc, render_append_singleton, hbelow]
      exact ⟨_, by rw [String.append_assoc, String.append_assoc, String.append_assoc]⟩

/-- The line of every instruction is listed. -/
theorem exists_render_eq_line (before after : List Instruction) (i : Instruction) :
    ∃ above below,
      render u natives (before ++ i :: after) = above ++ line u natives i ++ below := by
  obtain ⟨below, hbelow⟩ := exists_render_append u natives (before ++ [i]) after
  rw [List.append_assoc, List.singleton_append, render_append_singleton] at hbelow
  exact ⟨_, below, hbelow⟩

variable {u natives} {i : Instruction} {inSlots outSlots index : Nat}

theorem note?_native (hoperand : i.operand = .native inSlots outSlots index) :
    note? u natives i = some (nativeNote u natives index) := by
  rw [note?, hoperand]

/-- What is noted about a native is its name, with the hash behind one that the database knows. -/
theorem nativeNote_eq {raw hash : UInt64} (hraw : u.natives[index]? = some raw)
    (hhash : Native.unmangle raw u.codeLength index = hash) :
    nativeNote u natives index = natives.nameOf hash ++
      if (natives.lookup? hash).isSome then " (" ++ hexLiteral hash.toNat ++ ")" else "" := by
  unfold nativeNote Native.Database.nameOf
  simp only [hraw, hhash]
  cases natives.lookup? hash with
  | none => simp
  | some signature => simp [String.append_assoc]

/-- The note about a native that is not in the table is never the one about another
instruction. -/
theorem note?_eq_bad_iff : note? u natives i = some "<bad native index>" ↔
    ∃ inSlots outSlots index, i.operand = .native inSlots outSlots index ∧
      u.natives.size ≤ index := by
  have hlast : ∀ shown : String, shown ++ ")" ≠ "<bad native index>" := by
    intro shown hsame
    have hchars := congrArg (fun s => s.toList.getLast?) hsame
    simp at hchars
  constructor
  · intro h
    unfold note? at h
    split at h
    · rename_i inSlots outSlots index hoperand
      refine ⟨inSlots, outSlots, index, hoperand, ?_⟩
      by_contra hless
      rw [nativeNote, Array.getElem?_eq_getElem (Nat.lt_of_not_le hless)] at h
      dsimp only at h
      split at h
      · exact hlast _ (Option.some.inj h)
      · have hchars := congrArg (fun s : String => s.toList.head?) (Option.some.inj h)
        simp [Native.unknownName] at hchars
    · split at h
      · cases h
      · have hchars := congrArg (fun s : String => s.toList.head?) (Option.some.inj h)
        simp at hchars
  · rintro ⟨inSlots, outSlots, index, hoperand, hle⟩
    rw [note?_native hoperand, nativeNote, Array.getElem?_eq_none hle]

end ScriptDecompiler.Listing
