import Mathlib.Data.List.Chain
import ScriptDecompiler.Expr.Basic

/-!
# Tokens

The text of an expression is a sequence of tokens: words, which are names and numbers, operators,
brackets, and selections of fields.  A word ends where no character of a word follows, so the first
token of a text can be told from its characters (`first?_text`), and two sequences of tokens in
which no word directly follows another one have the same text only if they are the same
(`textOf_injective`).
-/

namespace ScriptDecompiler

/-- An operator that stands in front of its operand. -/
inductive Sign where
  | deref
  | unary (op : UnaryOp)
  deriving DecidableEq, Repr

namespace Sign

/-- How a sign is written. -/
def symbol : Sign → String
  | deref => "*"
  | unary op => op.symbol

/-- An expression with a sign in front of it. -/
def apply : Sign → Expr → Expr
  | deref => .deref
  | unary op => .unary op

end Sign

/-- A token, with words of the given kind.  The selection of a field is one token, name
included. -/
inductive Token (α : Type) where
  | word (w : α)
  | sign (s : Sign)
  | field (arrow : Bool) (name : String)
  | openBracket
  | closeBracket
  | openParen
  | closeParen
  | between (op : BinaryOp)
  deriving DecidableEq, Repr

/-- A letter, a digit or an underscore.  Beyond ASCII, every character counts as a letter. -/
def isWordChar (c : Char) : Bool :=
  c.isAlphanum || c = '_' || 128 ≤ c.toNat

namespace Token

/-- How a token is written. -/
def text : Token String → String
  | word w => w
  | sign s => s.symbol
  | field arrow name => (if arrow then "->" else ".") ++ name
  | openBracket => "["
  | closeBracket => "]"
  | openParen => "("
  | closeParen => ")"
  | between op => " " ++ op.symbol ++ " "

/-- The characters of tokens. -/
def textOf (ts : List (Token String)) : List Char :=
  ts.flatMap fun t => t.text.toList

section Shapes

variable {α : Type}

/-- Is the token a word? -/
def isWord : Token α → Bool
  | word _ => true
  | _ => false

/-- Does the token end in a word? -/
def endsInWord : Token α → Bool
  | word _ | field .. => true
  | _ => false

/-- A token with other words. -/
def map {β : Type} (f : α → β) : Token α → Token β
  | word w => word (f w)
  | sign s => sign s
  | field arrow name => field arrow name
  | openBracket => openBracket
  | closeBracket => closeBracket
  | openParen => openParen
  | closeParen => closeParen
  | between op => between op

/-- Is the field selected through an arrow, if the token is the selection of a field? -/
def arrow? : Token α → Option Bool
  | field arrow _ => some arrow
  | _ => none

/-- The token with a dot in place of an arrow. -/
def dotted : Token α → Token α
  | field _ name => field false name
  | t => t

/-- Tokens are the same if their words are, for words that can be told apart. -/
theorem eq_of_map_eq {β : Type} {f : α → β} {ts ts' : List (Token α)}
    (hf : ∀ w, word w ∈ ts → ∀ w', word w' ∈ ts' → f w = f w' → w = w')
    (h : ts.map (map f) = ts'.map (map f)) : ts = ts' := by
  induction ts generalizing ts' with
  | nil => exact (List.map_eq_nil_iff.1 h.symm).symm
  | cons t ts ih =>
      obtain ⟨t', us, rfl, ht, hus⟩ := List.map_eq_cons_iff.1 h.symm
      have hrest := ih (fun w hw w' hw' => hf w (List.mem_cons_of_mem _ hw) w'
        (List.mem_cons_of_mem _ hw')) hus.symm
      rw [hrest]
      refine congrArg (· :: us) ?_
      cases t with
      | word w =>
          cases t' with
          | word w' =>
              exact congrArg word (hf w List.mem_cons_self w' List.mem_cons_self
                (word.inj ht.symm))
          | _ => cases ht
      | _ =>
          cases t' <;> cases ht
          rfl

/-- Tokens are the same if they are with dots in place of arrows, and the arrows are the same. -/
theorem eq_of_map_dotted_eq {ts ts' : List (Token α)} (h : ts.map dotted = ts'.map dotted)
    (harrows : ts.filterMap arrow? = ts'.filterMap arrow?) : ts = ts' := by
  induction ts generalizing ts' with
  | nil => exact (List.map_eq_nil_iff.1 h.symm).symm
  | cons t ts ih =>
      obtain ⟨t', us, rfl, ht, hus⟩ := List.map_eq_cons_iff.1 h.symm
      cases t with
      | field arrow name =>
          cases t' with
          | field arrow' name' =>
              cases ht
              obtain ⟨rfl, hrest⟩ : arrow = arrow' ∧ ts.filterMap arrow? = us.filterMap arrow? :=
                List.cons.inj harrows
              rw [ih hus.symm hrest]
          | _ => cases ht
      | _ =>
          cases t' <;> cases ht
          rw [ih hus.symm harrows]

end Shapes

/-- Are the words in a token made of the characters of words? -/
def IsLegal : Token String → Prop
  | word w => w ≠ "" ∧ ∀ c ∈ w.toList, isWordChar c = true
  | field _ name => ∀ c ∈ name.toList, isWordChar c = true
  | _ => True

/-- Are the tokens legal, and does a word follow no other word? -/
structure IsText (ts : List (Token String)) : Prop where
  legal : ∀ t ∈ ts, t.IsLegal
  spaced : ts.IsChain fun t t' => t.endsInWord = true → t'.isWord = false

/-- The operators that stand between their operands. -/
def operators : List BinaryOp :=
  [.add, .sub, .mul, .div, .mod, .and, .or, .xor, .eq, .ne, .gt, .ge, .lt, .le]

/-- The first token of a text, and what is behind it. -/
def first? : List Char → Option (Token String × List Char)
  | [] => none
  | '*' :: cs => some (sign .deref, cs)
  | '!' :: cs => some (sign (.unary .not), cs)
  | '-' :: '>' :: cs =>
    some (field true (String.ofList (cs.takeWhile isWordChar)), cs.dropWhile isWordChar)
  | '-' :: cs => some (sign (.unary .neg), cs)
  | '.' :: cs =>
    some (field false (String.ofList (cs.takeWhile isWordChar)), cs.dropWhile isWordChar)
  | '[' :: cs => some (openBracket, cs)
  | ']' :: cs => some (closeBracket, cs)
  | '(' :: cs => some (openParen, cs)
  | ')' :: cs => some (closeParen, cs)
  | ' ' :: cs =>
    (operators.find? fun op => op.symbol.toList = cs.takeWhile (· ≠ ' ')).map fun op =>
      (between op, (cs.dropWhile (· ≠ ' ')).tail)
  | cs => some (word (String.ofList (cs.takeWhile isWordChar)), cs.dropWhile isWordChar)

section Words

variable {w rest : List Char}

/-- A word ends where no character of a word follows. -/
theorem takeWhile_word (hw : ∀ c ∈ w, isWordChar c = true)
    (hrest : ∀ c, rest.head? = some c → isWordChar c = false) :
    (w ++ rest).takeWhile isWordChar = w ∧ (w ++ rest).dropWhile isWordChar = rest := by
  have hstop : rest.takeWhile isWordChar = [] ∧ rest.dropWhile isWordChar = rest := by
    cases rest with
    | nil => exact ⟨rfl, rfl⟩
    | cons c cs => simp [hrest c rfl]
  rw [List.takeWhile_append_of_pos hw, List.dropWhile_append_of_pos hw, hstop.1, hstop.2,
    List.append_nil]
  exact ⟨rfl, rfl⟩

theorem first?_of_isWordChar {c : Char} {cs : List Char} (h : isWordChar c = true) :
    first? (c :: cs) = some (word (String.ofList ((c :: cs).takeWhile isWordChar)),
      (c :: cs).dropWhile isWordChar) := by
  unfold first?
  split
  case h_12 => rfl
  case h_1 heq => cases heq
  all_goals
    rename_i heq
    cases heq
    exact absurd h (by decide)

/-- A sign is read as one; only a minus might be the beginning of an arrow. -/
theorem first?_sign (s : Sign) (hrest : rest.head? ≠ some '>') :
    first? (s.symbol.toList ++ rest) = some (sign s, rest) := by
  cases s with
  | deref => rfl
  | unary op =>
      cases op with
      | not => rfl
      | neg =>
          refine first?.eq_5 rest fun cs hcs => hrest ?_
          rw [hcs]
          rfl

theorem first?_between (op : BinaryOp) (rest : List Char) :
    first? ((between op).text.toList ++ rest) = some (between op, rest) := by
  cases op <;> rfl

end Words

section Texts

variable {t : Token String} {rest : List Char}

/-- The first character of a token: it is the character of a word only in a word, and it is never
that of the end of an arrow. -/
theorem exists_text_eq_cons (ht : t.IsLegal) : ∃ c cs, t.text.toList = c :: cs ∧ c ≠ '>' ∧
    (t.isWord = false → isWordChar c = false) := by
  cases t with
  | word w =>
      obtain ⟨hne, hchars⟩ := ht
      cases hw : w.toList with
      | nil => exact absurd (String.toList_eq_nil_iff.1 hw) hne
      | cons c cs =>
          refine ⟨c, cs, hw, ?_, nofun⟩
          rintro rfl
          exact absurd (hchars '>' (hw ▸ List.mem_cons_self)) (by decide)
  | field arrow name =>
      cases arrow
      · exact ⟨'.', name.toList, by simp [text], by decide, fun _ => by decide⟩
      · exact ⟨'-', '>' :: name.toList, by simp [text], by decide, fun _ => by decide⟩
  | sign s => rcases s with _ | _ | _ <;> exact ⟨_, _, rfl, by decide, fun _ => by decide⟩
  | between op => exact ⟨' ', _, by simp [text]; rfl, by decide, fun _ => by decide⟩
  | _ => exact ⟨_, _, rfl, by decide, fun _ => by decide⟩

/-- The first token of a text is found. -/
theorem first?_text (ht : t.IsLegal)
    (hword : t.endsInWord = true → ∀ c, rest.head? = some c → isWordChar c = false)
    (harrow : rest.head? ≠ some '>') : first? (t.text.toList ++ rest) = some (t, rest) := by
  cases t with
  | word w =>
      obtain ⟨c, cs, hw, -⟩ := exists_text_eq_cons ht
      obtain ⟨htake, hdrop⟩ := takeWhile_word ht.2 (hword rfl)
      have hw : w.toList = c :: cs := hw
      show first? (w.toList ++ rest) = _
      rw [hw, List.cons_append] at htake hdrop ⊢
      rw [first?_of_isWordChar (ht.2 c (hw ▸ List.mem_cons_self)), htake, hdrop, ← hw,
        String.ofList_toList]
  | sign s => exact first?_sign s harrow
  | field arrow name =>
      obtain ⟨htake, hdrop⟩ := takeWhile_word ht (hword rfl)
      cases arrow with
      | false =>
          have htext : (text (field false name)).toList = '.' :: name.toList := by simp [text]
          rw [htext, List.cons_append, first?, htake, hdrop, String.ofList_toList]
      | true =>
          have htext : (text (field true name)).toList = '-' :: '>' :: name.toList := by simp [text]
          rw [htext, List.cons_append, List.cons_append, first?, htake, hdrop, String.ofList_toList]
  | between op => exact first?_between op rest
  | _ => rfl

/-- The first of several tokens is found, if no word directly follows another one. -/
theorem first?_textOf {ts : List (Token String)} (h : IsText (t :: ts)) :
    first? (textOf (t :: ts)) = some (t, textOf ts) := by
  obtain ⟨ht, hts⟩ := List.forall_mem_cons.1 h.legal
  have hhead : ∀ c, (textOf ts).head? = some c →
      c ≠ '>' ∧ (t.endsInWord = true → isWordChar c = false) := by
    intro c hc
    cases ts with
    | nil => cases hc
    | cons u us =>
        obtain ⟨d, cs, htext, harrow, hword⟩ := exists_text_eq_cons (hts u List.mem_cons_self)
        rw [textOf, List.flatMap_cons, htext] at hc
        cases hc
        exact ⟨harrow, fun hends => hword ((List.isChain_cons_cons.1 h.spaced).1 hends)⟩
  exact first?_text ht (fun hends c hc => (hhead c hc).2 hends) fun harrow =>
    (hhead '>' harrow).1 rfl

theorem textOf_cons_ne_nil {ts : List (Token String)} (h : IsText (t :: ts)) :
    textOf (t :: ts) ≠ [] := by
  obtain ⟨c, cs, htext, -⟩ := exists_text_eq_cons (h.legal t List.mem_cons_self)
  rw [textOf, List.flatMap_cons, htext]
  exact List.cons_ne_nil _ _

end Texts

namespace IsText

variable {t : Token String} {ts us : List (Token String)}

theorem tail (h : IsText (t :: ts)) : IsText ts :=
  ⟨(List.forall_mem_cons.1 h.legal).2, h.spaced.tail⟩

theorem singleton (h : t.IsLegal) : IsText [t] :=
  ⟨List.forall_mem_singleton.2 h, .singleton t⟩

theorem cons (h : IsText ts) (ht : t.IsLegal) (hends : t.endsInWord = false) : IsText (t :: ts) :=
  ⟨List.forall_mem_cons.2 ⟨ht, h.legal⟩,
    List.isChain_cons.2 ⟨fun _ _ hword => absurd hword (Bool.eq_false_iff.1 hends), h.spaced⟩⟩

theorem append_cons (h : IsText ts) (h' : IsText (t :: us)) (ht : t.isWord = false) :
    IsText (ts ++ t :: us) := by
  refine ⟨List.forall_mem_append.2 ⟨h.legal, h'.legal⟩,
    List.isChain_append.2 ⟨h.spaced, h'.spaced, ?_⟩⟩
  rintro _ _ _ ⟨⟩ _
  exact ht

end IsText

/-- Tokens can be told from their text. -/
theorem textOf_injective {ts ts' : List (Token String)} (h : IsText ts) (h' : IsText ts')
    (htext : textOf ts = textOf ts') : ts = ts' := by
  induction ts generalizing ts' with
  | nil =>
      cases ts' with
      | nil => rfl
      | cons t' ts' => exact absurd htext.symm (textOf_cons_ne_nil h')
  | cons t ts ih =>
      cases ts' with
      | nil => exact absurd htext (textOf_cons_ne_nil h)
      | cons t' ts' =>
          have hfirst := first?_textOf h
          rw [htext, first?_textOf h'] at hfirst
          obtain ⟨rfl, hrest⟩ := Prod.mk.inj (Option.some.inj hfirst)
          exact congrArg (t' :: ·) (ih h.tail h'.tail hrest.symm)

end Token

end ScriptDecompiler
