import ScriptDecompiler.Text.Digits

/-!
# Hexadecimal numbers are read back

What is written for a number, at any width, is read as this number; so different numbers are written
differently.
-/

namespace ScriptDecompiler.Text

/-- One more digit of a hexadecimal number. -/
def readDigit (number : Option Nat) (digit : Char) : Option Nat := do
  let high ← number
  let low ← hexValue? digit
  return 16 * high + low

theorem hexNumber?_eq_foldl {cs : List Char} (h : cs ≠ []) :
    hexNumber? cs = cs.foldl readDigit (some 0) := by
  cases cs with
  | nil => exact absurd rfl h
  | cons => rfl

theorem hexValue?_digitChar : ∀ d < 16, hexValue? (Nat.digitChar d) = some d := by
  decide

theorem foldl_readDigit_toDigits (n : Nat) :
    (Nat.toDigits 16 n).foldl readDigit (some 0) = some n := by
  induction n using Nat.strongRecOn with
  | ind n ih =>
      rw [Nat.toDigits_eq_if (by decide)]
      split
      · rename_i hsmall
        simp [readDigit, hexValue?_digitChar n hsmall]
      · rw [List.foldl_append, ih (n / 16) (by omega), List.foldl_cons, List.foldl_nil, readDigit,
          hexValue?_digitChar _ (Nat.mod_lt _ (by decide))]
        exact congrArg some (Nat.div_add_mod n 16)

theorem foldl_readDigit_zeros (count : Nat) :
    (List.replicate count '0').foldl readDigit (some 0) = some 0 := by
  induction count with
  | zero => rfl
  | succ count ih => exact ih

theorem hexNumber?_hexPadded (width n : Nat) : hexNumber? (hexPadded width n).toList = some n := by
  rw [hexPadded, String.toList_ofList, padStart, hexNumber?_eq_foldl (by simp [Nat.toDigits_ne_nil]),
    List.foldl_append, foldl_readDigit_zeros, foldl_readDigit_toDigits]

theorem hexPadded_injective (width : Nat) : Function.Injective (hexPadded width) := by
  intro m n h
  have hread := congrArg (fun s => hexNumber? s.toList) h
  simpa only [hexNumber?_hexPadded, Option.some.injEq] using hread

end ScriptDecompiler.Text
