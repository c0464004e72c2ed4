import Mathlib.Data.Nat.Digits.Defs
import ScriptDecompiler.Proofs.Native.Hash
import ScriptDecompiler.Proofs.Text.Trim

/-!
# How hashes are spelled

A spelling of a hash is a mark, which may be left out, then a sign, which may be left out, and one
or more digits of either case.  It stands for the number that its digits make up to base 16,
whatever the mark and the sign are and however many zeros lead.  A text is read as a hash if and
only if it is, between blanks, a spelling of a number below `2 ^ 64`.
-/

namespace ScriptDecompiler.Native

open ScriptDecompiler.Text

/-- A hexadecimal digit of either case. -/
structure HexDigit where
  value : Fin 16
  upper : Bool

namespace HexDigit

/-- How a digit is written. -/
def char (digit : HexDigit) : Char :=
  if digit.upper then (Nat.digitChar digit.value).toUpper else Nat.digitChar digit.value

/-- The number that digits make up, the first of them being the highest. -/
def number (digits : List HexDigit) : Nat :=
  Nat.ofDigits 16 (digits.map fun digit => digit.value.val).reverse

theorem hexValue?_char : ∀ digit : HexDigit, hexValue? digit.char = some digit.value.val := by
  have hall : ∀ value : Fin 16, ∀ upper, hexValue? (char ⟨value, upper⟩) = some value.val := by
    decide
  exact fun digit => hall digit.value digit.upper

theorem isBlank_char : ∀ digit : HexDigit, isBlank digit.char = false := by
  have hall : ∀ value : Fin 16, ∀ upper, isBlank (char ⟨value, upper⟩) = false := by
    decide
  exact fun digit => hall digit.value digit.upper

/-- No character behind `f` is a digit. -/
theorem toNat_lt_of_hexValue? {c : Char} {value : Nat} (h : hexValue? c = some value) :
    c.toNat < 103 := by
  have hbelow {last : Char} (hlast : last.toNat < 103) (hc : c ≤ last) : c.toNat < 103 :=
    Nat.lt_of_le_of_lt hc hlast
  unfold hexValue? at h
  split_ifs at h with hdecimal hlower hupper
  · exact hbelow (by decide) hdecimal.2
  · exact hbelow (by decide) hlower.2
  · exact hbelow (by decide) hupper.2

theorem exists_of_hexValue? {c : Char} {value : Nat} (h : hexValue? c = some value) :
    ∃ digit : HexDigit, digit.char = c ∧ digit.value.val = value := by
  -- There are few characters that may be digits, so each of them is tried.
  have hall : ∀ n < 103, hexValue? (Char.ofNat n) = none ∨
      ∃ value : Fin 16, ∃ upper, char ⟨value, upper⟩ = Char.ofNat n ∧
        hexValue? (Char.ofNat n) = some value.val := by
    decide +kernel
  have hc := hall c.toNat (toNat_lt_of_hexValue? h)
  rw [Char.ofNat_toNat, h] at hc
  obtain hnone | ⟨found, upper, hchar, hvalue⟩ := hc
  · cases hnone
  · exact ⟨⟨found, upper⟩, hchar, (Option.some.inj hvalue).symm⟩

theorem mapM_hexValue?_eq_some {cs : List Char} {values : List Nat} :
    cs.mapM hexValue? = some values ↔
      ∃ digits : List HexDigit, digits.map char = cs ∧
        (digits.map fun digit => digit.value.val) = values := by
  constructor
  · intro h
    induction cs generalizing values with
    | nil =>
        cases h
        exact ⟨[], rfl, rfl⟩
    | cons c cs ih =>
        rw [List.mapM_cons] at h
        obtain ⟨value, hvalue, hrest⟩ := Option.bind_eq_some_iff.1 h
        obtain ⟨values, hvalues, hcons⟩ := Option.bind_eq_some_iff.1 hrest
        cases hcons
        obtain ⟨digit, rfl, rfl⟩ := exists_of_hexValue? hvalue
        obtain ⟨digits, rfl, rfl⟩ := ih hvalues
        exact ⟨digit :: digits, rfl, rfl⟩
  · rintro ⟨digits, rfl, rfl⟩
    induction digits with
    | nil => rfl
    | cons digit digits ih =>
        rw [List.map_cons, List.mapM_cons, hexValue?_char, ih]
        rfl

theorem number_eq_digitsNumber (digits : List HexDigit) :
    number digits = digitsNumber 0 (digits.map fun digit => digit.value.val) := by
  rw [number, Nat.ofDigits_eq_foldr, List.foldr_reverse, digitsNumber]
  congr 1
  funext high low
  exact Nat.add_comm low (16 * high)

theorem number_replicate_append (zeros : Nat) (upper : Bool) (digits : List HexDigit) :
    number (List.replicate zeros ⟨0, upper⟩ ++ digits) = number digits := by
  rw [number, List.map_append, List.map_replicate, List.reverse_append, List.reverse_replicate]
  exact Nat.ofDigits_append_replicate_zero _

/-- What is read as a number is one or more digits that make it up. -/
theorem hexNumber?_eq_some_iff {cs : List Char} {n : Nat} :
    hexNumber? cs = some n ↔
      ∃ digits : List HexDigit, digits ≠ [] ∧ digits.map char = cs ∧ number digits = n := by
  rw [hexNumber?_eq_some]
  constructor
  · rintro ⟨hne, values, hvalues, rfl⟩
    obtain ⟨digits, rfl, rfl⟩ := mapM_hexValue?_eq_some.1 hvalues
    exact ⟨digits, fun h => hne (congrArg _ h), rfl, number_eq_digitsNumber digits⟩
  · rintro ⟨digits, hne, rfl, rfl⟩
    exact ⟨fun h => hne (List.map_eq_nil_iff.1 h), _, mapM_hexValue?_eq_some.2 ⟨digits, rfl, rfl⟩,
      (number_eq_digitsNumber digits).symm⟩

end HexDigit

/-- How a hash is spelled. -/
structure Spelling where
  mark : String
  mark_mem : mark ∈ ["", "0x", "0X"]
  sign : String
  sign_mem : sign ∈ ["", "+"]
  digits : List HexDigit
  digits_ne_nil : digits ≠ []

namespace Spelling

/-- The text of a spelling. -/
def text (s : Spelling) : String :=
  s.mark ++ (s.sign ++ String.ofList (s.digits.map HexDigit.char))

/-- The number that is spelled. -/
def number (s : Spelling) : Nat :=
  HexDigit.number s.digits

/-- The spelling with more zeros in front of its digits. -/
def padded (s : Spelling) (zeros : Nat) : Spelling where
  mark := s.mark
  mark_mem := s.mark_mem
  sign := s.sign
  sign_mem := s.sign_mem
  digits := List.replicate zeros ⟨0, false⟩ ++ s.digits
  digits_ne_nil := List.append_ne_nil_of_right_ne_nil _ s.digits_ne_nil

theorem number_padded (s : Spelling) (zeros : Nat) : (s.padded zeros).number = s.number :=
  HexDigit.number_replicate_append zeros false s.digits

theorem toList_text (s : Spelling) :
    s.text.toList = s.mark.toList ++ (s.sign.toList ++ s.digits.map HexDigit.char) := by
  rw [text, String.toList_append, String.toList_append, String.toList_ofList]

/-- No character of a spelling is blank. -/
theorem trim_text (s : Spelling) : trim s.text = s.text := by
  have hblank : ∀ c ∈ s.text.toList, isBlank c = false := by
    have hmark : ["", "0x", "0X"].all (·.toList.all (!isBlank ·)) = true := by decide
    have hsign : ["", "+"].all (·.toList.all (!isBlank ·)) = true := by decide
    simp only [List.all_eq_true, Bool.not_eq_true'] at hmark hsign
    intro c hc
    rw [toList_text, List.mem_append, List.mem_append, List.mem_map] at hc
    obtain hc | hc | ⟨digit, -, rfl⟩ := hc
    · exact hmark s.mark s.mark_mem c hc
    · exact hsign s.sign s.sign_mem c hc
    · exact digit.isBlank_char
  rw [trim, trimChars_eq_self_iff.2 ⟨fun c hc => hblank c (List.mem_of_mem_head? hc),
    fun c hc => hblank c (List.mem_of_getLast? hc)⟩, String.ofList_toList]

/-- The number is what is read behind the mark and the sign. -/
theorem hexNumber?_hashDigits_text (s : Spelling) :
    hexNumber? (hashDigits s.text.toList) = some s.number := by
  have hdigits : ∀ c ∈ s.digits.map HexDigit.char, (hexValue? c).isSome := by
    intro c hc
    obtain ⟨digit, -, rfl⟩ := List.mem_map.1 hc
    rw [HexDigit.hexValue?_char]
    rfl
  rw [toList_text, hashDigits_append s.mark_mem s.sign_mem hdigits]
  exact HexDigit.hexNumber?_eq_some_iff.2 ⟨s.digits, s.digits_ne_nil, rfl, rfl⟩

/-- Digits behind a mark and a sign are a spelling of their number. -/
theorem exists_of_hexNumber? {mark sign : String} (hmark : mark ∈ ["", "0x", "0X"])
    (hsign : sign ∈ ["", "+"]) {cs : List Char} {n : Nat} (h : hexNumber? cs = some n) :
    ∃ s : Spelling, s.text = mark ++ (sign ++ String.ofList cs) ∧ s.number = n := by
  obtain ⟨digits, hne, rfl, rfl⟩ := HexDigit.hexNumber?_eq_some_iff.1 h
  exact ⟨⟨mark, hmark, sign, hsign, digits, hne⟩, rfl, rfl⟩

/-- A text spells one number only. -/
theorem number_unique {s t : Spelling} (h : s.text = t.text) : s.number = t.number := by
  have hs := s.hexNumber?_hashDigits_text
  rw [h, t.hexNumber?_hashDigits_text] at hs
  exact (Option.some.inj hs).symm

end Spelling

theorem denotes_iff_spelling {text : String} {hash : UInt64} :
    Denotes text hash ↔ ∃ s : Spelling, trim text = s.text ∧ s.number = hash.toNat := by
  constructor
  · rintro ⟨mark, hmark, sign, hsign, digits, values, hne, htext, hvalues, hnumber⟩
    have hread := hexNumber?_eq_some.2 ⟨hne, values, hvalues, hnumber⟩
    obtain ⟨s, hs, hn⟩ := Spelling.exists_of_hexNumber? hmark hsign hread
    refine ⟨s, ?_, hn⟩
    rw [hs, trim, htext, String.ofList_append, String.ofList_append, String.ofList_toList,
      String.ofList_toList]
  · rintro ⟨s, htext, hn⟩
    have hvalues := HexDigit.mapM_hexValue?_eq_some.2 ⟨s.digits, rfl, rfl⟩
    refine ⟨s.mark, s.mark_mem, s.sign, s.sign_mem, _, _, ?_, ?_, hvalues, ?_⟩
    · exact fun h => s.digits_ne_nil (List.map_eq_nil_iff.1 h)
    · rw [← s.toList_text, ← htext, trim, String.toList_ofList]
    · rw [← hn, Spelling.number, HexDigit.number_eq_digitsNumber]

section

variable {text : String}

theorem parseHash_of_spelling {s : Spelling} (h : trim text = s.text) {hash : UInt64} :
    parseHash text = .ok hash ↔ s.number = hash.toNat := by
  rw [parseHash_eq_ok_iff, denotes_iff_spelling]
  constructor
  · rintro ⟨t, ht, hn⟩
    rw [Spelling.number_unique (h.symm.trans ht), hn]
  · exact fun hn => ⟨s, h, hn⟩

/-- Only numbers of more than 64 bits are spelled and not read. -/
theorem exists_denotes_iff :
    (∃ hash, Denotes text hash) ↔ ∃ s : Spelling, trim text = s.text ∧ s.number < 2 ^ 64 := by
  simp only [denotes_iff_spelling]
  constructor
  · rintro ⟨hash, s, htext, hn⟩
    exact ⟨s, htext, hn ▸ hash.toNat_lt⟩
  · rintro ⟨s, htext, hlt⟩
    exact ⟨.ofNat s.number, s, htext, (UInt64.toNat_ofNat_of_lt' hlt).symm⟩

theorem hexLiteral_eq (n : Nat) : hexLiteral n = "0x" ++ hexPadded 0 n := by
  rw [hexLiteral, hex, hexPadded, padStart, Nat.zero_sub, List.replicate_zero, List.nil_append]

/-- A hash is read back from its digits at any width. -/
theorem parseHash_hexPadded (width : Nat) (hash : UInt64) :
    parseHash ("0x" ++ hexPadded width hash.toNat) = .ok hash := by
  have hmark : "0x" ∈ ["", "0x", "0X"] := by simp
  have hsign : "" ∈ ["", "+"] := by simp
  obtain ⟨s, hs, hn⟩ :=
    Spelling.exists_of_hexNumber? hmark hsign (hexNumber?_hexPadded width hash.toNat)
  rw [String.ofList_toList, String.empty_append] at hs
  rw [← hs]
  exact (parseHash_of_spelling s.trim_text).2 hn

/-- Reading a hash accepts exactly its spellings.  A text is read as a hash if and only if,
without the blanks around it, it spells this hash; it is read as one at all if and only if it
spells a number below `2 ^ 64`, and else it is given back without these blanks.  Zeros in front of
the digits change nothing, and what is written for a hash is read back. -/
theorem parseHash_exact (text : String) :
    (∀ hash, parseHash text = .ok hash ↔
      ∃ s : Spelling, trim text = s.text ∧ s.number = hash.toNat) ∧
    ((∃ hash, parseHash text = .ok hash) ↔
      ∃ s : Spelling, trim text = s.text ∧ s.number < 2 ^ 64) ∧
    (∀ (s : Spelling) (zeros : Nat), trim text = (s.padded zeros).text →
      ∀ hash, parseHash text = .ok hash ↔ s.number = hash.toNat) ∧
    (∀ shown, parseHash text = .error shown ↔
      (¬∃ s : Spelling, trim text = s.text ∧ s.number < 2 ^ 64) ∧ shown = trim text) ∧
    ∀ hash : UInt64, parseHash (hexLiteral hash.toNat) = .ok hash ∧
      ∀ width, parseHash ("0x" ++ hexPadded width hash.toNat) = .ok hash := by
  refine ⟨fun hash => ?_, ?_, fun s zeros htext hash => ?_, fun shown => ?_,
    fun hash => ⟨?_, fun width => parseHash_hexPadded width hash⟩⟩
  · rw [parseHash_eq_ok_iff, denotes_iff_spelling]
  · simp only [parseHash_eq_ok_iff, exists_denotes_iff]
  · rw [parseHash_of_spelling htext, Spelling.number_padded]
  · rw [parseHash_eq_error_iff, ← exists_denotes_iff, not_exists, trim]
  · rw [hexLiteral_eq]
    exact parseHash_hexPadded 0 hash

end

/-- Seventeen digits are read if the first of them is zero, and not if it is one. -/
theorem parseHash_exact_seventeen_digits :
    parseHash "\t0X+0fFFFFFFFFFFFFFFf " = .ok 0xFFFFFFFFFFFFFFFF ∧
      parseHash " 0x10000000000000000" = .error "0x10000000000000000" := by
  let most : Spelling := ⟨"0X", by simp, "+", by simp,
    ⟨15, false⟩ :: (List.replicate 14 ⟨15, true⟩ ++ [⟨15, false⟩]), by simp⟩
  let next : Spelling := ⟨"0x", by simp, "", by simp,
    ⟨1, false⟩ :: List.replicate 16 ⟨0, false⟩, by simp⟩
  have hmost := (parseHash_exact "\t0X+0fFFFFFFFFFFFFFFf ").2.2.1 most 1 (by decide)
  refine ⟨(hmost 0xFFFFFFFFFFFFFFFF).2 (by decide), ?_⟩
  have hnext := (parseHash_exact " 0x10000000000000000").2.2.2.1 "0x10000000000000000"
  refine hnext.2 ⟨?_, by decide⟩
  -- Whatever spelling it is taken for, the number is the same.
  rintro ⟨s, hs, hlt⟩
  have hsame : s.number = next.number := Spelling.number_unique (hs.symm.trans (by decide))
  rw [hsame] at hlt
  exact absurd hlt (by decide)

end ScriptDecompiler.Native
