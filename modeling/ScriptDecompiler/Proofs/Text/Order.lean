import Mathlib.Data.List.Induction
import ScriptDecompiler.Proofs.Text.Utf8
import ScriptDecompiler.Text.Order

/-!
# The order of texts is the order of their bytes

A text comes before another one exactly as its UTF-8 bytes come before the other's, byte by byte:
of two characters the smaller one has fewer bytes, and then a smaller first byte, or it has as
many and they are smaller digits to base 64.
-/

namespace ScriptDecompiler.Text

theorem cons_lt_cons_byte {m n : Nat} {as bs : List UInt8} (hm : m < 256) (hn : n < 256) :
    UInt8.ofNat m :: as < UInt8.ofNat n :: bs ↔ m < n ∨ m = n ∧ as < bs := by
  rw [List.cons_lt_cons_iff, UInt8.lt_iff_toNat_lt, ← UInt8.toNat_inj, toNat_ofNat_byte hm,
    toNat_ofNat_byte hn]

theorem utf8EncodeChar_ne_nil (c : Char) : String.utf8EncodeChar c ≠ [] := by
  unfold String.utf8EncodeChar
  dsimp only
  repeat' split
  all_goals exact List.cons_ne_nil _ _

theorem utf8EncodeChar_append_lt {c d : Char} (h : c.toNat < d.toNat) (as bs : List UInt8) :
    String.utf8EncodeChar c ++ as < String.utf8EncodeChar d ++ bs := by
  have hd : d.val.toNat < 0xD800 ∨ 0xDFFF < d.val.toNat ∧ d.val.toNat < 0x110000 := d.valid
  replace h : c.val.toNat < d.val.toNat := h
  unfold String.utf8EncodeChar
  generalize c.val.toNat = v at h
  generalize d.val.toNat = w at h hd
  show (if v ≤ 0x7F then _ else _) ++ as < (if w ≤ 0x7F then _ else _) ++ bs
  -- the leading digits are in order, and each digit but the first is a remainder
  have hlead (k : Nat) : v / k ≤ w / k := Nat.div_le_div_right (Nat.le_of_lt h)
  have hdigits (n : Nat) (hn : n ≤ w) :
      n / 64 / 64 = n / 4096 ∧ n / 4096 / 64 = n / 262144 ∧ n / 262144 % 8 = n / 262144 :=
    ⟨Nat.div_div_eq_div_mul n 64 64, Nat.div_div_eq_div_mul n 4096 64,
      Nat.mod_eq_of_lt (by omega)⟩
  have hleads := And.intro (hlead 64) (And.intro (hlead 4096) (hlead 262144))
  have hv := hdigits v (Nat.le_of_lt h)
  have hw := hdigits w (Nat.le_refl w)
  -- the cases in which the smaller character has more bytes go by themselves
  repeat' split
  all_goals try (exfalso; omega)
  all_goals simp (disch := omega) only [List.cons_append, List.nil_append, cons_lt_cons_byte]
  all_goals omega

theorem append_lt_append_left (front : List UInt8) {as bs : List UInt8} (h : as < bs) :
    front ++ as < front ++ bs := by
  induction front with
  | nil => exact h
  | cons b front ih => exact List.cons_lt_cons_iff.2 (.inr ⟨rfl, ih⟩)

/-- Of two different texts, the one that comes first has the smaller bytes. -/
theorem utf8Encode_lt_of_precedes {as bs : List Char} (h : precedes as bs) (hne : as ≠ bs) :
    as.flatMap String.utf8EncodeChar < bs.flatMap String.utf8EncodeChar := by
  induction as generalizing bs with
  | nil =>
      cases bs with
      | nil => exact absurd rfl hne
      | cons b bs =>
          rw [List.flatMap_nil, List.flatMap_cons]
          obtain ⟨byte, bytes, hb⟩ := List.exists_cons_of_ne_nil (utf8EncodeChar_ne_nil b)
          rw [hb]
          exact List.nil_lt_cons _ _
  | cons a as ih =>
      cases bs with
      | nil => cases h
      | cons b bs =>
          rw [List.flatMap_cons, List.flatMap_cons]
          simp only [precedes, Bool.or_eq_true, decide_eq_true_eq, Bool.and_eq_true,
            beq_iff_eq] at h
          rcases h with hlt | ⟨heq, hrest⟩
          · exact utf8EncodeChar_append_lt hlt _ _
          · obtain rfl := Char.toNat_inj.1 heq
            exact append_lt_append_left _ (ih hrest fun h => hne (congrArg (a :: ·) h))

theorem utf8Bytes_lt_of_precedes {s t : String} (h : precedes s.toList t.toList) (hne : s ≠ t) :
    utf8Bytes s < utf8Bytes t := by
  rw [utf8Bytes_eq, utf8Bytes_eq]
  exact utf8Encode_lt_of_precedes h fun h => hne (String.toList_injective h)

theorem precedes_total (as bs : List Char) : (precedes as bs || precedes bs as) = true := by
  induction as generalizing bs with
  | nil => rfl
  | cons a as ih =>
      cases bs with
      | nil => rfl
      | cons b bs =>
          have := ih bs
          simp only [precedes, Bool.or_eq_true, decide_eq_true_eq, Bool.and_eq_true,
            beq_iff_eq] at this ⊢
          rcases Nat.lt_trichotomy a.toNat b.toNat with h | h | h
          · exact .inl (.inl h)
          · exact this.imp (fun hrest => .inr ⟨h, hrest⟩) fun hrest => .inr ⟨h.symm, hrest⟩
          · exact .inr (.inl h)

theorem precedes_trans (as bs cs : List Char) (hab : precedes as bs) (hbc : precedes bs cs) :
    precedes as cs := by
  induction as generalizing bs cs with
  | nil => rfl
  | cons a as ih =>
      cases bs with
      | nil => cases hab
      | cons b bs =>
          cases cs with
          | nil => cases hbc
          | cons c cs =>
              simp only [precedes, Bool.or_eq_true, decide_eq_true_eq, Bool.and_eq_true,
                beq_iff_eq] at hab hbc ⊢
              rcases hab with hab | ⟨hab, has⟩
              · left; omega
              · rcases hbc with hbc | ⟨hbc, hbs⟩
                · left; omega
                · exact .inr ⟨hab.trans hbc, ih bs cs has hbs⟩

end ScriptDecompiler.Text
