import Mathlib.Data.List.Basic
import ScriptDecompiler.Text.Utf8

/-!
# Reading well-formed UTF-8

The lossy reader gives back every text from its own bytes.  A character takes
one to four bytes; the first byte opens it and each later one adds six bits.
-/

namespace ScriptDecompiler.Text

/-- What a byte that opens a character means, with the comparisons on numbers. -/
theorem Utf8Lead.ofByte_multi {b : UInt8} (h : 0xC2 ≤ b.toNat) :
    Utf8Lead.ofByte b =
      if b.toNat < 0xE0 then .opens ⟨b.toNat - 0xC0, 0x80, 0xBF, 0⟩
      else if b.toNat = 0xE0 then .opens ⟨0, 0xA0, 0xBF, 1⟩
      else if b.toNat = 0xED then .opens ⟨0xD, 0x80, 0x9F, 1⟩
      else if b.toNat < 0xF0 then .opens ⟨b.toNat - 0xE0, 0x80, 0xBF, 1⟩
      else if b.toNat = 0xF0 then .opens ⟨0, 0x90, 0xBF, 2⟩
      else if b.toNat < 0xF4 then .opens ⟨b.toNat - 0xF0, 0x80, 0xBF, 2⟩
      else if b.toNat = 0xF4 then .opens ⟨4, 0x80, 0x8F, 2⟩
      else .malformed := by
  have hascii : ¬b.toNat < 128 := by omega
  have hcontinues : ¬b.toNat < 194 := by omega
  simp [Utf8Lead.ofByte, UInt8.lt_iff_toNat_lt, ← UInt8.toNat_inj, hascii, hcontinues]

theorem toNat_ofNat_byte {n : Nat} (h : n < 256) : (UInt8.ofNat n).toNat = n :=
  UInt8.toNat_ofNat_of_lt' h

namespace Utf8Reader

theorem step_ascii (read : List Char) {v : Nat} (h : v < 0x80) :
    step ⟨none, read⟩ (UInt8.ofNat v) = ⟨none, Char.ofNat v :: read⟩ := by
  have hbyte : (UInt8.ofNat v).toNat = v := toNat_ofNat_byte (by omega)
  have hlt : UInt8.ofNat v < 0x80 := by
    rw [UInt8.lt_iff_toNat_lt, hbyte]
    exact h
  simp only [step, lead, Utf8Lead.ofByte, hlt, if_true, hbyte]

/-- A byte with six bits of payload is taken if it lies within the bounds. -/
theorem step_continuation (read : List Char) (payload : Nat) {low high : UInt8} (more : Nat)
    {n : Nat} (hlow : low.toNat ≤ n % 0x40 + 0x80) (hhigh : n % 0x40 + 0x80 ≤ high.toNat) :
    step ⟨some ⟨payload, low, high, more⟩, read⟩ (UInt8.ofNat (n % 0x40 + 0x80)) =
      match more with
      | 0 => ⟨none, Char.ofNat (payload * 64 + n % 0x40) :: read⟩
      | more + 1 => ⟨some ⟨payload * 64 + n % 0x40, 0x80, 0xBF, more⟩, read⟩ := by
  have hbyte : (UInt8.ofNat (n % 0x40 + 0x80)).toNat = n % 0x40 + 0x80 :=
    toNat_ofNat_byte (by omega)
  have hwithin : low ≤ UInt8.ofNat (n % 0x40 + 0x80) ∧ UInt8.ofNat (n % 0x40 + 0x80) ≤ high := by
    rw [UInt8.le_iff_toNat_le, UInt8.le_iff_toNat_le, hbyte]
    exact ⟨hlow, hhigh⟩
  cases more with
  | zero => simp only [step, hwithin, and_self, if_true, hbyte, Nat.add_sub_cancel]
  | succ more => simp only [step, hwithin, and_self, if_true, hbyte, Nat.add_sub_cancel]

theorem step_lead (read : List Char) {b : UInt8} {p : Utf8Pending}
    (h : Utf8Lead.ofByte b = .opens p) : step ⟨none, read⟩ b = ⟨some p, read⟩ := by
  simp [step, lead, h]

/-- Six bits fit between the widest bounds. -/
theorem continuation_bounds (n : Nat) :
    UInt8.toNat 0x80 ≤ n % 0x40 + 0x80 ∧ n % 0x40 + 0x80 ≤ UInt8.toNat 0xBF := by
  constructor
  · show 0x80 ≤ _
    omega
  · show _ ≤ 0xBF
    omega

theorem foldl_step_two (read : List Char) {v : Nat} (hlow : 0x80 ≤ v) (hhigh : v < 0x800) :
    [UInt8.ofNat (v / 64 % 0x20 + 0xC0), UInt8.ofNat (v % 0x40 + 0x80)].foldl step ⟨none, read⟩ =
      ⟨none, Char.ofNat v :: read⟩ := by
  have hbyte : (UInt8.ofNat (v / 64 % 0x20 + 0xC0)).toNat = v / 64 + 0xC0 := by
    rw [toNat_ofNat_byte (by omega), Nat.mod_eq_of_lt (by omega)]
  have hopens := Utf8Lead.ofByte_multi (b := UInt8.ofNat (v / 64 % 0x20 + 0xC0)) (by omega)
  rw [hbyte, if_pos (by omega), Nat.add_sub_cancel] at hopens
  obtain ⟨hfrom, hto⟩ := continuation_bounds v
  rw [List.foldl_cons, step_lead read hopens, List.foldl_cons, List.foldl_nil,
    step_continuation read _ 0 hfrom hto]
  show (⟨none, Char.ofNat (v / 64 * 64 + v % 0x40) :: read⟩ : Utf8Reader) = _
  rw [Nat.div_add_mod']

theorem foldl_step_three (read : List Char) {v : Nat} (hlow : 0x800 ≤ v) (hhigh : v < 0x10000)
    (hvalid : v < 0xD800 ∨ 0xDFFF < v) :
    [UInt8.ofNat (v / 4096 % 0x10 + 0xE0), UInt8.ofNat (v / 64 % 0x40 + 0x80),
      UInt8.ofNat (v % 0x40 + 0x80)].foldl step ⟨none, read⟩ = ⟨none, Char.ofNat v :: read⟩ := by
  have hbyte : (UInt8.ofNat (v / 4096 % 0x10 + 0xE0)).toNat = v / 4096 + 0xE0 := by
    rw [toNat_ofNat_byte (by omega), Nat.mod_eq_of_lt (by omega)]
  have hmulti := Utf8Lead.ofByte_multi (b := UInt8.ofNat (v / 4096 % 0x10 + 0xE0)) (by omega)
  rw [hbyte, if_neg (by omega)] at hmulti
  -- The bounds on the second byte depend on the first one.
  have hopens : ∃ low high : UInt8,
      Utf8Lead.ofByte (UInt8.ofNat (v / 4096 % 0x10 + 0xE0)) = .opens ⟨v / 4096, low, high, 1⟩ ∧
        low.toNat ≤ v / 64 % 0x40 + 0x80 ∧ v / 64 % 0x40 + 0x80 ≤ high.toNat := by
    by_cases hfirst : v / 4096 = 0
    · refine ⟨0xA0, 0xBF, ?_, ?_, ?_⟩
      · rw [hmulti, if_pos (by omega), hfirst]
      · show 0xA0 ≤ _
        omega
      · show _ ≤ 0xBF
        omega
    · by_cases hsurrogate : v / 4096 = 0xD
      · refine ⟨0x80, 0x9F, ?_, ?_, ?_⟩
        · rw [hmulti, if_neg (by omega), if_pos (by omega), hsurrogate]
        · show 0x80 ≤ _
          omega
        · show _ ≤ 0x9F
          omega
      · refine ⟨0x80, 0xBF, ?_, continuation_bounds _⟩
        rw [hmulti, if_neg (by omega), if_neg (by omega), if_pos (by omega), Nat.add_sub_cancel]
  obtain ⟨low, high, hopens, hfrom, hto⟩ := hopens
  obtain ⟨hfrom', hto'⟩ := continuation_bounds v
  rw [List.foldl_cons, step_lead read hopens, List.foldl_cons, step_continuation read _ 1 hfrom hto,
    List.foldl_cons, List.foldl_nil, step_continuation read _ 0 hfrom' hto']
  have hv : (v / 4096 * 64 + v / 64 % 0x40) * 64 + v % 0x40 = v := by omega
  simp only [hv]

theorem foldl_step_four (read : List Char) {v : Nat} (hlow : 0x10000 ≤ v) (hhigh : v < 0x110000) :
    [UInt8.ofNat (v / 262144 % 0x08 + 0xF0), UInt8.ofNat (v / 4096 % 0x40 + 0x80),
      UInt8.ofNat (v / 64 % 0x40 + 0x80), UInt8.ofNat (v % 0x40 + 0x80)].foldl step ⟨none, read⟩ =
      ⟨none, Char.ofNat v :: read⟩ := by
  have hbyte : (UInt8.ofNat (v / 262144 % 0x08 + 0xF0)).toNat = v / 262144 + 0xF0 := by
    rw [toNat_ofNat_byte (by omega), Nat.mod_eq_of_lt (by omega)]
  have hmulti := Utf8Lead.ofByte_multi (b := UInt8.ofNat (v / 262144 % 0x08 + 0xF0)) (by omega)
  rw [hbyte, if_neg (by omega), if_neg (by omega), if_neg (by omega), if_neg (by omega)] at hmulti
  have hopens : ∃ low high : UInt8,
      Utf8Lead.ofByte (UInt8.ofNat (v / 262144 % 0x08 + 0xF0)) =
          .opens ⟨v / 262144, low, high, 2⟩ ∧
        low.toNat ≤ v / 4096 % 0x40 + 0x80 ∧ v / 4096 % 0x40 + 0x80 ≤ high.toNat := by
    by_cases hfirst : v / 262144 = 0
    · refine ⟨0x90, 0xBF, ?_, ?_, ?_⟩
      · rw [hmulti, if_pos (by omega), hfirst]
      · show 0x90 ≤ _
        omega
      · show _ ≤ 0xBF
        omega
    · by_cases hlast : v / 262144 = 4
      · refine ⟨0x80, 0x8F, ?_, ?_, ?_⟩
        · rw [hmulti, if_neg (by omega), if_neg (by omega), if_pos (by omega), hlast]
        · show 0x80 ≤ _
          omega
        · show _ ≤ 0x8F
          omega
      · refine ⟨0x80, 0xBF, ?_, continuation_bounds _⟩
        rw [hmulti, if_neg (by omega), if_pos (by omega), Nat.add_sub_cancel]
  obtain ⟨low, high, hopens, hfrom, hto⟩ := hopens
  obtain ⟨hfrom', hto'⟩ := continuation_bounds (v / 64)
  obtain ⟨hfrom'', hto''⟩ := continuation_bounds v
  rw [List.foldl_cons, step_lead read hopens, List.foldl_cons, step_continuation read _ 2 hfrom hto,
    List.foldl_cons, step_continuation read _ 1 hfrom' hto', List.foldl_cons, List.foldl_nil,
    step_continuation read _ 0 hfrom'' hto'']
  have hv : ((v / 262144 * 64 + v / 4096 % 0x40) * 64 + v / 64 % 0x40) * 64 + v % 0x40 = v := by
    omega
  simp only [hv]

/-- The bytes of a character, read with no character open, give that character. -/
theorem foldl_step_utf8EncodeChar (read : List Char) (c : Char) :
    (String.utf8EncodeChar c).foldl step ⟨none, read⟩ = ⟨none, c :: read⟩ := by
  have hvalid : c.val.toNat < 0xD800 ∨ 0xDFFF < c.val.toNat ∧ c.val.toNat < 0x110000 := c.valid
  have hchar : Char.ofNat c.val.toNat = c := Char.ofNat_toNat c
  unfold String.utf8EncodeChar
  generalize c.val.toNat = v at hvalid hchar
  subst hchar
  show List.foldl step ⟨none, read⟩ (if v ≤ 0x7F then _ else _) = _
  split
  · exact step_ascii read (by omega)
  · split
    · exact foldl_step_two read (by omega) (by omega)
    · split
      · exact foldl_step_three read (by omega) (by omega) (by omega)
      · exact foldl_step_four read (by omega) (by omega)

theorem foldl_step_utf8 (read cs : List Char) :
    (cs.flatMap String.utf8EncodeChar).foldl step ⟨none, read⟩ = ⟨none, cs.reverse ++ read⟩ := by
  induction cs generalizing read with
  | nil => rfl
  | cons c cs ih =>
      rw [List.flatMap_cons, List.foldl_append, foldl_step_utf8EncodeChar, ih]
      simp

end Utf8Reader

/-- The bytes of a text. -/
def utf8Bytes (s : String) : List UInt8 :=
  s.toUTF8.data.toList

theorem utf8Bytes_eq (s : String) : utf8Bytes s = s.toList.flatMap String.utf8EncodeChar := by
  rw [utf8Bytes, String.toUTF8_eq_toByteArray, ← String.utf8Encode_toList, List.utf8Encode,
    List.data_toByteArray, List.toList_toArray]

/-- Lossy reading gives every text back from its own bytes. -/
theorem decodeLossyChars_utf8Bytes (s : String) : decodeLossyChars (utf8Bytes s) = s.toList := by
  rw [utf8Bytes_eq, decodeLossyChars, Utf8Reader.start, Utf8Reader.foldl_step_utf8]
  simp [Utf8Reader.finish]

end ScriptDecompiler.Text
