/-!
# Numbers in byte sequences

Multi-byte fields are little-endian, with one exception that its reader names.
-/

namespace ScriptDecompiler.Bytecode

/-- The number whose bytes are given, least significant first. -/
def littleEndian : List UInt8 → Nat
  | [] => 0
  | b :: rest => b.toNat + 256 * littleEndian rest

/-- The number whose bytes are given, most significant first. -/
def bigEndian (bytes : List UInt8) : Nat :=
  littleEndian bytes.reverse

/-- The `width` low bytes of a number, least significant first. -/
def toLittleEndian : (width : Nat) → Nat → List UInt8
  | 0, _ => []
  | width + 1, n => UInt8.ofNat n :: toLittleEndian width (n / 256)

/-- The first `count` bytes and the others, if there are that many. -/
def splitExact? : (count : Nat) → List UInt8 → Option (List UInt8 × List UInt8)
  | 0, bytes => some ([], bytes)
  | _ + 1, [] => none
  | count + 1, b :: rest => (splitExact? count rest).map fun (field, others) => (b :: field, others)

theorem length_toLittleEndian (width n : Nat) : (toLittleEndian width n).length = width := by
  induction width generalizing n with
  | zero => rfl
  | succ width ih => simp [toLittleEndian, ih]

/-- Writing a number in `width` bytes and reading it keeps the number modulo the
power of 256 with that exponent. -/
theorem littleEndian_toLittleEndian (width n : Nat) :
    littleEndian (toLittleEndian width n) = n % Nat.pow 256 width := by
  induction width generalizing n with
  | zero => simp [toLittleEndian, littleEndian, Nat.mod_one]
  | succ width ih =>
    have h : (UInt8.ofNat n).toNat = n % 256 := by simp
    rw [toLittleEndian, littleEndian, ih, h, Nat.pow_eq, Nat.pow_eq, Nat.pow_succ,
      Nat.mul_comm (256 ^ width), Nat.mod_mul]

/-- A split succeeds exactly when the bytes are a field of the asked length and
what follows it. -/
theorem splitExact?_eq_some_iff {count : Nat} {bytes field rest : List UInt8} :
    splitExact? count bytes = some (field, rest) ↔
      bytes = field ++ rest ∧ field.length = count := by
  induction count generalizing bytes field with
  | zero =>
    constructor
    · intro h
      cases h
      exact ⟨rfl, rfl⟩
    · rintro ⟨hbytes, hlength⟩
      obtain rfl := List.length_eq_zero_iff.1 hlength
      simp [splitExact?, hbytes]
  | succ count ih =>
    cases bytes with
    | nil =>
      constructor
      · intro h
        simp [splitExact?] at h
      · rintro ⟨hbytes, hlength⟩
        cases field <;> simp_all
    | cons b bytes =>
      simp only [splitExact?, Option.map_eq_some_iff, Prod.exists, Prod.mk.injEq]
      constructor
      · rintro ⟨tail, others, htail, rfl, rfl⟩
        have h := ih.1 htail
        exact ⟨by simp [h.1], by simp [h.2]⟩
      · rintro ⟨hbytes, hlength⟩
        cases field with
        | nil => simp at hlength
        | cons c field =>
          simp only [List.cons_append, List.cons.injEq] at hbytes
          refine ⟨field, rest, ih.2 ⟨hbytes.2, ?_⟩, by rw [hbytes.1], rfl⟩
          simpa using hlength

end ScriptDecompiler.Bytecode
