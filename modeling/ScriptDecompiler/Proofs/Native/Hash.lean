import Mathlib.Data.List.Basic
import ScriptDecompiler.Native.Hash
import ScriptDecompiler.Proofs.Text.Digits

/-!
# What a written hash denotes

Between blanks there may stand a mark, `0x` or `0X`, then a plus sign, and then there are digits
of either case, whose value fits into 64 bits.  Reading accepts exactly these texts, and each of
them denotes one hash.
-/

namespace ScriptDecompiler.Native

open ScriptDecompiler.Text (hexNumber? hexNumber?_eq_foldl hexValue? readDigit trimChars)

/-- The number that digits to base 16 make up behind others, whose number is `high`. -/
def digitsNumber (high : Nat) (values : List Nat) : Nat :=
  values.foldl (fun high low => 16 * high + low) high

/-- A text writes a hash. -/
def Denotes (text : String) (hash : UInt64) : Prop :=
  ∃ mark ∈ ["", "0x", "0X"], ∃ sign ∈ ["", "+"], ∃ digits values, digits ≠ [] ∧
    trimChars text.toList = mark.toList ++ (sign.toList ++ digits) ∧
    digits.mapM hexValue? = some values ∧ digitsNumber 0 values = hash.toNat

theorem foldl_readDigit_none (digits : List Char) : digits.foldl readDigit none = none := by
  induction digits with
  | nil => rfl
  | cons c digits ih => exact ih

theorem foldl_readDigit (high : Nat) (digits : List Char) :
    digits.foldl readDigit (some high) = (digits.mapM hexValue?).map (digitsNumber high) := by
  induction digits generalizing high with
  | nil => rfl
  | cons c digits ih =>
      rw [List.foldl_cons, List.mapM_cons]
      cases hc : hexValue? c with
      | none =>
          simp only [readDigit, hc]
          exact foldl_readDigit_none digits
      | some low =>
          simp only [readDigit, hc, Option.bind_eq_bind, Option.bind_some]
          refine (ih (16 * high + low)).trans ?_
          cases digits.mapM hexValue? <;> rfl

/-- One or more digits are read as their number. -/
theorem hexNumber?_eq_some {digits : List Char} {n : Nat} :
    hexNumber? digits = some n ↔
      digits ≠ [] ∧ ∃ values, digits.mapM hexValue? = some values ∧ digitsNumber 0 values = n := by
  by_cases hempty : digits = []
  · subst hempty
    exact ⟨nofun, fun h => absurd rfl h.1⟩
  · rw [hexNumber?_eq_foldl hempty, foldl_readDigit, Option.map_eq_some_iff]
    exact ⟨fun h => ⟨hempty, h⟩, fun h => h.2⟩

theorem isSome_of_mapM {digits : List Char} {values : List Nat}
    (h : digits.mapM hexValue? = some values) : ∀ c ∈ digits, (hexValue? c).isSome := by
  induction digits generalizing values with
  | nil => exact fun _ => nofun
  | cons c digits ih =>
      rw [List.mapM_cons] at h
      obtain ⟨value, hc, h⟩ := Option.bind_eq_some_iff.1 h
      obtain ⟨rest, hrest, -⟩ := Option.bind_eq_some_iff.1 h
      intro d hd
      rcases List.mem_cons.1 hd with rfl | hd
      · rw [hc]
        rfl
      · exact ih hrest d hd

/-- The digits are what stands behind the mark and the sign. -/
theorem exists_hashDigits (cs : List Char) :
    ∃ mark ∈ ["", "0x", "0X"], ∃ sign ∈ ["", "+"],
      cs = mark.toList ++ (sign.toList ++ hashDigits cs) := by
  unfold hashDigits
  split
  · exact ⟨"0x", by simp, "+", by simp, rfl⟩
  · exact ⟨"0X", by simp, "+", by simp, rfl⟩
  · exact ⟨"0x", by simp, "", by simp, rfl⟩
  · exact ⟨"0X", by simp, "", by simp, rfl⟩
  · exact ⟨"", by simp, "+", by simp, rfl⟩
  · exact ⟨"", by simp, "", by simp, rfl⟩

/-- In front of digits, mark and sign are told apart from them. -/
theorem hashDigits_append {mark sign : String} (hmark : mark ∈ ["", "0x", "0X"])
    (hsign : sign ∈ ["", "+"]) {digits : List Char} (hdigits : ∀ c ∈ digits, (hexValue? c).isSome) :
    hashDigits (mark.toList ++ (sign.toList ++ digits)) = digits := by
  have hnot {c : Char} (hc : hexValue? c = none) : c ∉ digits := fun h => by
    have := hdigits c h
    rw [hc] at this
    cases this
  have hx := hnot (c := 'x') (by decide)
  have hX := hnot (c := 'X') (by decide)
  have hplus := hnot (c := '+') (by decide)
  simp only [List.mem_cons, List.not_mem_nil, or_false] at hmark hsign
  unfold hashDigits
  rcases hmark with rfl | rfl | rfl <;> rcases hsign with rfl | rfl <;> split <;>
    simp_all <;> rename_i hne hrest <;> exact absurd hrest.symm (hne digits)

theorem parseHash_eq_ok_iff {text : String} {hash : UInt64} :
    parseHash text = .ok hash ↔ Denotes text hash := by
  have hread : parseHash text = .ok hash ↔
      ∃ n, hexNumber? (hashDigits (trimChars text.toList)) = some n ∧ n = hash.toNat := by
    rw [parseHash, hashOfTrimmed?]
    cases hexNumber? (hashDigits (trimChars text.toList)) with
    | none => simp
    | some n =>
        by_cases hn : n < 0x10000000000000000
        · simp only [Option.bind_eq_bind, Option.bind_some, if_pos hn]
          constructor
          · rintro ⟨⟩
            exact ⟨n, rfl, (UInt64.toNat_ofNat_of_lt' hn).symm⟩
          · rintro ⟨_, ⟨⟩, rfl⟩
            rw [UInt64.ofNat_toNat]
        · simp only [Option.bind_eq_bind, Option.bind_some, if_neg hn]
          refine ⟨nofun, ?_⟩
          rintro ⟨_, ⟨⟩, rfl⟩
          exact absurd hash.toNat_lt hn
  rw [hread]
  constructor
  · rintro ⟨n, hdigits, rfl⟩
    obtain ⟨hne, values, hvalues, hn⟩ := hexNumber?_eq_some.1 hdigits
    obtain ⟨mark, hmark, sign, hsign, htext⟩ := exists_hashDigits (trimChars text.toList)
    exact ⟨mark, hmark, sign, hsign, _, values, hne, htext, hvalues, hn⟩
  · rintro ⟨mark, hmark, sign, hsign, digits, values, hne, htext, hvalues, hn⟩
    rw [htext, hashDigits_append hmark hsign (isSome_of_mapM hvalues)]
    exact ⟨_, hexNumber?_eq_some.2 ⟨hne, values, hvalues, rfl⟩, hn⟩

theorem Denotes.unique {text : String} {hash other : UInt64} (h : Denotes text hash)
    (hother : Denotes text other) : hash = other :=
  Except.ok.inj ((parseHash_eq_ok_iff.2 h).symm.trans (parseHash_eq_ok_iff.2 hother))

/-- What is no hash is given back without the blanks around it. -/
theorem parseHash_eq_error_iff {text trimmed : String} :
    parseHash text = .error trimmed ↔
      (∀ hash, ¬Denotes text hash) ∧ trimmed = String.ofList (trimChars text.toList) := by
  simp only [← parseHash_eq_ok_iff]
  rw [parseHash]
  cases hashOfTrimmed? (trimChars text.toList) with
  | none => exact ⟨fun h => ⟨fun _ => nofun, by cases h; rfl⟩, fun h => by rw [h.2]⟩
  | some hash => exact ⟨nofun, fun h => absurd rfl (h.1 hash)⟩

end ScriptDecompiler.Native
