import Mathlib.Data.List.DropRight
import ScriptDecompiler.Text.Blank

/-!
# Trimming

What is left of a text after trimming has no blank at either end, and trimming it again changes
nothing.
-/

namespace ScriptDecompiler.Text

variable {cs : List Char}

theorem dropEndWhile_append (p : Char → Bool) (front back : List Char) :
    dropEndWhile p (front ++ back) =
      if dropEndWhile p back = [] then dropEndWhile p front else front ++ dropEndWhile p back := by
  unfold dropEndWhile
  rw [List.reverse_append, List.dropWhile_append]
  simp only [List.isEmpty_iff, List.reverse_eq_nil_iff]
  split
  · rfl
  · rw [List.reverse_append, List.reverse_reverse]

/-- Only elements of the class are dropped at the end. -/
theorem exists_eq_dropEndWhile_append (p : Char → Bool) (cs : List Char) :
    ∃ dropped, cs = dropEndWhile p cs ++ dropped ∧ ∀ c ∈ dropped, p c = true := by
  refine ⟨(cs.reverse.takeWhile p).reverse, ?_, fun c hc => ?_⟩
  · unfold dropEndWhile
    rw [← List.reverse_append, List.takeWhile_append_dropWhile, List.reverse_reverse]
  · exact List.mem_takeWhile_imp (List.mem_reverse.1 hc)

theorem trimChars_of_head (h : ∀ c, cs.head? = some c → isBlank c = false) :
    trimChars cs = dropEndWhile isBlank cs := by
  unfold trimChars
  cases cs with
  | nil => rfl
  | cons c rest => rw [List.dropWhile_cons_of_neg (by simp [h c rfl])]

theorem head?_trimChars {c : Char} (h : (trimChars cs).head? = some c) : isBlank c = false := by
  obtain ⟨dropped, heq, -⟩ := exists_eq_dropEndWhile_append isBlank (cs.dropWhile isBlank)
  have hhead : (cs.dropWhile isBlank).head? = some c := by
    rw [heq, List.head?_append]
    exact Option.or_eq_some_iff.2 (Or.inl h)
  have hblank := List.head?_dropWhile_not isBlank cs
  rw [hhead] at hblank
  exact hblank

theorem getLast?_trimChars {c : Char} (h : (trimChars cs).getLast? = some c) :
    isBlank c = false := by
  have hne : trimChars cs ≠ [] := by
    intro hnil
    simp [hnil] at h
  rw [List.getLast?_eq_some_getLast hne, Option.some.injEq] at h
  exact h ▸ Bool.eq_false_iff.2 (List.rdropWhile_last_not isBlank _ hne)

/-- Nothing is trimmed exactly if no blank stands at either end. -/
theorem trimChars_eq_self_iff : trimChars cs = cs ↔
    (∀ c, cs.head? = some c → isBlank c = false) ∧
      ∀ c, cs.getLast? = some c → isBlank c = false := by
  constructor
  · intro h
    rw [← h]
    exact ⟨fun _ => head?_trimChars, fun _ => getLast?_trimChars⟩
  · rintro ⟨hhead, hlast⟩
    rw [trimChars_of_head hhead]
    refine List.rdropWhile_eq_self_iff.2 fun hne => ?_
    simp [hlast _ (List.getLast?_eq_some_getLast hne)]

theorem trimChars_trimChars (cs : List Char) : trimChars (trimChars cs) = trimChars cs :=
  trimChars_eq_self_iff.2 ⟨fun _ => head?_trimChars, fun _ => getLast?_trimChars⟩

end ScriptDecompiler.Text
