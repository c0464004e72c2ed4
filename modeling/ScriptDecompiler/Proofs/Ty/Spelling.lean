import ScriptDecompiler.Proofs.Text.Trim
import ScriptDecompiler.Ty.Parse

/-!
# Reading a type name again

A type that was read from a name is written without blanks around its parts, and what is written
can be read again.  A name that is not one of a pointer comes back as the type that it is, and so
does a pointer if what it points to comes back (`Written.parse_text`).

The names `char*` and `const char*` are exceptions, because they are known as texts in this
spelling only.  With a blank in front of the asterisk they are read as pointers to a scalar, but
written without the blank, and read as texts the next time.  No other names are read differently
the second time (`parse_text_parse_iff`).
-/

namespace ScriptDecompiler.Ty

open ScriptDecompiler.Text

variable {cs : List Char} {ty : Ty}

/-- What is known by name: seven types, under ten names. -/
theorem of_ofKnownName? {name : String} (h : ofKnownName? name = some ty) :
    ty ∈ [unknown, void, int, float, bool, string, vector3] ∧
      name ∈ ["", "Any", "void", "int", "float", "BOOL", "bool", "char*", "const char*",
        "Vector3"] := by
  unfold ofKnownName? at h
  split at h <;> first | (cases h; simp) | cases h

theorem parseChars_of_known (h : ofKnownName? (String.ofList (trimChars cs)) = some ty) :
    parseChars cs = ty := by
  rw [parseChars, h]

theorem parseChars_of_scalar (hknown : ofKnownName? (String.ofList (trimChars cs)) = none)
    (hlast : (trimChars cs).getLast? ≠ some '*') :
    parseChars cs = scalar (String.ofList (trimChars cs)) := by
  rw [parseChars, hknown]
  exact dif_neg hlast

theorem parseChars_of_pointer (hknown : ofKnownName? (String.ofList (trimChars cs)) = none)
    {front : List Char} (hfront : trimChars cs = front ++ ['*']) :
    parseChars cs = pointer (parseChars front) := by
  rw [parseChars, hknown]
  have hlast : (trimChars cs).getLast? = some '*' := by simp [hfront]
  simp only [hlast, dif_pos]
  rw [hfront, List.dropLast_concat]

/-- The names that with an asterisk become names of texts. -/
def charNames : List String := ["char", "const char"]

theorem ofKnownName?_append_star (name : String) :
    ofKnownName? (name ++ "*") = if name ∈ charNames then some string else none := by
  split
  · rename_i hchar
    simp only [charNames, List.mem_cons, List.not_mem_nil, or_false] at hchar
    rcases hchar with rfl | rfl <;> rfl
  · rename_i hchar
    refine Option.eq_none_iff_forall_ne_some.2 fun ty hknown => hchar ?_
    obtain ⟨-, hname⟩ := of_ofKnownName? hknown
    have hlast : (name ++ "*").toList.getLast? = some '*' := by simp
    have hfront : String.ofList (name ++ "*").toList.dropLast = name := by simp
    generalize name ++ "*" = spelling at hname hlast hfront
    rw [← hfront]
    simp only [List.mem_cons, List.not_mem_nil, or_false] at hname
    -- Only two of the ten names end in an asterisk.
    rcases hname with rfl | rfl | rfl | rfl | rfl | rfl | rfl | rfl | rfl | rfl <;>
      revert hlast <;> decide

/-- Is the type a scalar with such a name? -/
def isChar : Ty → Bool
  | scalar name => charNames.contains name
  | _ => false

/-- Is it a pointer to a scalar with such a name, or a pointer to such a pointer? -/
def leadsToChar : Ty → Bool
  | pointer inner => inner.isChar || inner.leadsToChar
  | _ => false

/-- How a type is read when the text of it is read again. -/
def reread : Ty → Ty
  | pointer inner => if inner.isChar then string else pointer inner.reread
  | ty => ty

theorem reread_eq_self_iff : (ty : Ty) → (ty.reread = ty ↔ ty.leadsToChar = false)
  | pointer inner => by
      rw [reread, leadsToChar]
      cases inner.isChar with
      | true => simp [string]
      | false => simp [inner.reread_eq_self_iff]
  | void | scalar _ | array _ _ | struct _ _ => by simp [reread, leadsToChar]

/-- The types that names are read as: the text of what is not a pointer can be read again. -/
inductive Written : Ty → Prop
  | base {ty : Ty} (hpointer : ty.isPointer = false) (hreads : parse ty.text = ty)
      (htrimmed : trimChars ty.text.toList = ty.text.toList) (hne : ty.text ≠ "") : Written ty
  | pointer {inner : Ty} (h : Written inner) : Written (pointer inner)

theorem written_of_mem
    (h : ty ∈ [unknown, void, int, float, bool, string, vector3]) : Written ty := by
  simp only [List.mem_cons, List.not_mem_nil, or_false] at h
  rcases h with rfl | rfl | rfl | rfl | rfl | rfl | rfl
  case inl | inr.inr.inr.inr.inr.inl =>
    exact .base rfl (parseChars_of_scalar (by decide) (by decide)) (by decide) (by decide)
  all_goals exact .base rfl (parseChars_of_known (by decide)) (by decide) (by decide)

theorem written_parseChars (cs : List Char) : Written (parseChars cs) := by
  fun_induction parseChars cs with
  | case1 cs ty hknown => exact written_of_mem (of_ofKnownName? hknown).1
  | case2 cs hknown hlast _ _ ih => exact .pointer ih
  | case3 cs hknown hlast =>
      have hself := trimChars_trimChars cs
      refine .base rfl ?_ ?_ ?_
      · rw [parse, text, String.toList_ofList, parseChars_of_scalar, hself]
        · rwa [hself]
        · rwa [hself]
      · rw [text, String.toList_ofList, hself]
      · rintro hempty
        rw [text] at hempty
        rw [hempty] at hknown
        cases hknown

theorem toList_text_pointer (ty : Ty) : (pointer ty).text.toList = ty.text.toList ++ ['*'] := by
  simp [text]

theorem Written.trimmed (h : Written ty) :
    trimChars ty.text.toList = ty.text.toList ∧ ty.text ≠ "" := by
  induction h with
  | base _ _ htrimmed hne => exact ⟨htrimmed, hne⟩
  | @pointer inner _ ih =>
      obtain ⟨htrimmed, hne⟩ := ih
      rw [trimChars_eq_self_iff, toList_text_pointer]
      refine ⟨⟨fun c hc => ?_, fun c hc => ?_⟩, ?_⟩
      · have hhead : inner.text.toList.head? = some c := by
          rwa [List.head?_append_of_ne_nil _ (mt String.toList_eq_nil_iff.1 hne)] at hc
        exact (trimChars_eq_self_iff.1 htrimmed).1 c hhead
      · rw [List.getLast?_concat, Option.some.injEq] at hc
        exact hc ▸ rfl
      · simp [text]

/-- No other type has the text of such a scalar. -/
theorem Written.isChar_iff (h : Written ty) : ty.isChar = true ↔ ty.text ∈ charNames := by
  constructor
  · intro hchar
    cases ty with
    | scalar name => exact List.contains_iff_mem.1 hchar
    | _ => cases hchar
  · intro hname
    cases h with
    | base hpointer hreads =>
        rw [← hreads]
        simp only [charNames, List.mem_cons, List.not_mem_nil, or_false] at hname
        rcases hname with hname | hname <;> rw [hname] <;>
          rw [parse, parseChars_of_scalar (by decide) (by decide)] <;> decide
    | @pointer inner =>
        have hlast : (Ty.pointer inner).text.toList.getLast? = some '*' := by
          rw [toList_text_pointer, List.getLast?_concat]
        generalize (Ty.pointer inner).text = spelling at hname hlast
        simp only [charNames, List.mem_cons, List.not_mem_nil, or_false] at hname
        rcases hname with rfl | rfl <;> exact absurd hlast (by decide)

theorem Written.parse_text (h : Written ty) : parse ty.text = ty.reread := by
  induction h with
  | @base ty hpointer hreads =>
      cases ty with
      | pointer => cases hpointer
      | _ => exact hreads
  | @pointer inner h ih =>
      have htrimmed := h.pointer.trimmed.1
      have hknown := ofKnownName?_append_star inner.text
      rw [reread, parse]
      split
      · rename_i hchar
        rw [if_pos (h.isChar_iff.1 hchar)] at hknown
        refine parseChars_of_known ?_
        rwa [htrimmed, String.ofList_toList]
      · rename_i hchar
        rw [if_neg (mt h.isChar_iff.2 hchar)] at hknown
        rw [← ih]
        refine parseChars_of_pointer ?_ ?_
        · rwa [htrimmed, String.ofList_toList]
        · rw [htrimmed, toList_text_pointer]

/-- Is the text one of these names, and behind it only blanks and asterisks, a blank first? -/
def SpacesChar (cs : List Char) : Prop :=
  ∃ name ∈ charNames, ∃ blank rest, trimChars cs = name.toList ++ blank :: rest ∧
    isBlank blank = true ∧ ∀ c ∈ rest, isBlank c = true ∨ c = '*'

theorem SpacesChar.unknown (h : SpacesChar cs) :
    ofKnownName? (String.ofList (trimChars cs)) = none := by
  obtain ⟨name, hname, blank, rest, heq, hblank, -⟩ := h
  refine Option.eq_none_iff_forall_ne_some.2 fun ty hknown => ?_
  obtain ⟨-, hspelling⟩ := of_ofKnownName? hknown
  have hchar : ((String.ofList (trimChars cs)).toList[name.toList.length]?).any isBlank = true := by
    simp [heq, hblank]
  generalize String.ofList (trimChars cs) = spelling at hspelling hchar
  simp only [charNames, List.mem_cons, List.not_mem_nil, or_false] at hname hspelling
  rcases hname with rfl | rfl <;>
    rcases hspelling with rfl | rfl | rfl | rfl | rfl | rfl | rfl | rfl | rfl | rfl <;>
      revert hchar <;> decide

theorem not_isChar_of_mem (h : ty ∈ [Ty.unknown, void, int, float, bool, string, vector3]) :
    ty.isChar = false ∧ ty.leadsToChar = false := by
  simp only [List.mem_cons, List.not_mem_nil, or_false] at h
  rcases h with rfl | rfl | rfl | rfl | rfl | rfl | rfl <;> decide

/-- A text is read as such a scalar if it is the name of one. -/
theorem isChar_parseChars_iff (cs : List Char) :
    (parseChars cs).isChar = true ↔ ∃ name ∈ charNames, trimChars cs = name.toList := by
  constructor
  · fun_cases parseChars cs with
    | case1 ty hknown =>
        intro hchar
        rw [(not_isChar_of_mem (of_ofKnownName? hknown).1).1] at hchar
        cases hchar
    | case2 => exact fun hchar => absurd hchar Bool.false_ne_true
    | case3 =>
        exact fun hchar => ⟨_, List.contains_iff_mem.1 hchar, String.toList_ofList.symm⟩
  · rintro ⟨name, hname, heq⟩
    have hscalar : parseChars cs = scalar (String.ofList (trimChars cs)) := by
      simp only [charNames, List.mem_cons, List.not_mem_nil, or_false] at hname
      refine parseChars_of_scalar ?_ ?_ <;> rw [heq] <;> rcases hname with rfl | rfl <;> decide
    rw [hscalar, heq, String.ofList_toList]
    exact List.contains_iff_mem.2 hname

section Star

variable {front : List Char} (hfront : trimChars cs = front ++ ['*'])
include hfront

/-- There is no blank in front of what stands in front of an asterisk. -/
theorem trimChars_eq_dropEndWhile : trimChars front = dropEndWhile isBlank front := by
  refine trimChars_of_head fun c hc => ?_
  have hhead : (trimChars cs).head? = some c := by
    rw [hfront, List.head?_append, hc]
    rfl
  exact head?_trimChars hhead

theorem exists_eq_trimChars_append :
    ∃ blanks, front = trimChars front ++ blanks ∧ ∀ c ∈ blanks, isBlank c = true := by
  rw [trimChars_eq_dropEndWhile hfront]
  exact exists_eq_dropEndWhile_append isBlank front

/-- Between the name of a scalar and the asterisk there is a blank, or it would be a text. -/
theorem spacesChar_of_name (hknown : ofKnownName? (String.ofList (trimChars cs)) = none)
    {name : String} (hname : name ∈ charNames) (heq : trimChars front = name.toList) :
    SpacesChar cs := by
  obtain ⟨blanks, hsplit, hblanks⟩ := exists_eq_trimChars_append hfront
  rw [heq] at hsplit
  cases blanks with
  | nil =>
      have hstar := ofKnownName?_append_star name
      rw [hfront, hsplit, List.append_nil, String.ofList_append, String.ofList_toList] at hknown
      rw [if_pos hname] at hstar
      cases hknown.symm.trans hstar
  | cons blank rest =>
      refine ⟨name, hname, blank, rest ++ ['*'], ?_, hblanks _ List.mem_cons_self, ?_⟩
      · rw [hfront, hsplit, List.append_assoc, List.cons_append]
      · intro c hc
        rcases List.mem_append.1 hc with hc | hc
        · exact Or.inl (hblanks c (List.mem_cons_of_mem _ hc))
        · exact Or.inr (List.mem_singleton.1 hc)

theorem SpacesChar.of_front (h : SpacesChar front) : SpacesChar cs := by
  obtain ⟨name, hname, blank, rest, heq, hblank, hrest⟩ := h
  obtain ⟨blanks, hsplit, hblanks⟩ := exists_eq_trimChars_append hfront
  refine ⟨name, hname, blank, rest ++ blanks ++ ['*'], ?_, hblank, ?_⟩
  · rw [hfront, hsplit, heq]
    simp only [List.append_assoc, List.cons_append]
  · intro c hc
    rcases List.mem_append.1 hc with hc | hc
    · exact (List.mem_append.1 hc).elim (hrest c) fun hc => Or.inl (hblanks c hc)
    · exact Or.inr (List.mem_singleton.1 hc)

/-- Without the last asterisk there is the name alone, or still such a text. -/
theorem SpacesChar.name_or_front (h : SpacesChar cs) :
    (∃ name ∈ charNames, trimChars front = name.toList) ∨ SpacesChar front := by
  obtain ⟨name, hname, blank, rest, heq, hblank, hrest⟩ := h
  have htrim := trimChars_eq_dropEndWhile hfront
  obtain rfl | ⟨rest, last, rfl⟩ := rest.eq_nil_or_concat'
  · -- An asterisk is no blank, so something is behind the blank.
    rw [hfront] at heq
    obtain ⟨-, hstar⟩ := List.append_inj' heq rfl
    rw [← List.singleton_inj.1 hstar] at hblank
    cases hblank
  · have hsplit : front ++ ['*'] = (name.toList ++ blank :: rest) ++ [last] := by
      rw [← hfront, heq, List.append_assoc, List.cons_append]
    obtain ⟨rfl, -⟩ := List.append_inj' hsplit rfl
    rw [dropEndWhile_append] at htrim
    split at htrim
    · refine Or.inl ⟨name, hname, htrim.trans ?_⟩
      simp only [charNames, List.mem_cons, List.not_mem_nil, or_false] at hname
      rcases hname with rfl | rfl <;> decide
    · rename_i hkept
      obtain ⟨gone, hgone, -⟩ := exists_eq_dropEndWhile_append isBlank (blank :: rest)
      obtain ⟨first, kept, heq⟩ := List.exists_cons_of_ne_nil hkept
      rw [heq, List.cons_append] at hgone
      obtain ⟨rfl, rfl⟩ := List.cons.inj hgone
      exact Or.inr ⟨name, hname, _, kept, htrim.trans (by rw [heq]), hblank,
        fun c hc => hrest c (by simp [hc])⟩

/-- What stands in front of an asterisk leads to such a scalar if all of it does. -/
theorem spacesChar_iff_of_star (hknown : ofKnownName? (String.ofList (trimChars cs)) = none) :
    SpacesChar cs ↔ (∃ name ∈ charNames, trimChars front = name.toList) ∨ SpacesChar front := by
  constructor
  · exact SpacesChar.name_or_front hfront
  · rintro (⟨name, hname, heq⟩ | h)
    · exact spacesChar_of_name hfront hknown hname heq
    · exact h.of_front hfront

end Star

theorem leadsToChar_parseChars_iff (cs : List Char) :
    (parseChars cs).leadsToChar = true ↔ SpacesChar cs := by
  fun_induction parseChars cs with
  | case1 cs ty hknown =>
      have hnot := (not_isChar_of_mem (of_ofKnownName? hknown).1).2
      simp only [hnot, Bool.false_eq_true, false_iff]
      intro h
      cases h.unknown.symm.trans hknown
  | case2 cs hknown hlast _ _ ih =>
      have hfront : trimChars cs = (trimChars cs).dropLast ++ ['*'] :=
        (List.dropLast_append_getLast? _ hlast).symm
      rw [leadsToChar, Bool.or_eq_true, ih, isChar_parseChars_iff,
        spacesChar_iff_of_star hfront hknown]
  | case3 cs hknown hlast =>
      simp only [leadsToChar, Bool.false_eq_true, false_iff]
      rintro ⟨name, -, blank, rest, heq, hblank, hrest⟩
      obtain ⟨last, hmem⟩ : ∃ last, (blank :: rest).getLast? = some last :=
        ⟨_, List.getLast?_eq_some_getLast (by simp)⟩
      have hend : (trimChars cs).getLast? = some last := by
        rw [heq, List.getLast?_append, hmem]
        rfl
      have hnot := getLast?_trimChars hend
      rcases List.mem_cons.1 (List.mem_of_getLast? hmem) with rfl | hin
      · rw [hblank] at hnot
        cases hnot
      · rcases hrest last hin with hyes | rfl
        · rw [hyes] at hnot
          cases hnot
        · exact hlast hend

/-- A type that was read from a name comes back when its text is read, unless the name spells
`char*` or `const char*` with a blank in front of the first asterisk. -/
theorem parse_text_parse_iff (s : String) :
    parse (parse s).text = parse s ↔ ¬SpacesChar s.toList := by
  have hreread : parse (parse s).text = (parse s).reread :=
    (written_parseChars s.toList).parse_text
  rw [hreread, reread_eq_self_iff, ← leadsToChar_parseChars_iff, Bool.not_eq_true]
  rfl

/-- A pointer to a scalar becomes a text. -/
theorem parse_text_parse_char :
    parse "char *" = pointer (scalar "char") ∧ parse (parse "char *").text = string ∧
      parse (parse "char *").text ≠ parse "char *" := by
  have hscalar : parse "char *" = pointer (scalar "char") := by
    have hfront : trimChars "char *".toList = "char ".toList ++ ['*'] := by decide
    rw [parse, parseChars_of_pointer (by decide) hfront,
      parseChars_of_scalar (by decide) (by decide)]
    rfl
  have hstring : parse (pointer (scalar "char")).text = string := parseChars_of_known (by decide)
  rw [hscalar, hstring]
  exact ⟨rfl, rfl, nofun⟩

end ScriptDecompiler.Ty
