import ScriptDecompiler.Proofs.Render.Tokens
import ScriptDecompiler.Proofs.Store.Names
import ScriptDecompiler.Render.Expr

/-!
# Reading a printed expression

A printed expression is read under the precedence of C: the selection of a field or of an element
binds tighter than a sign in front of an operand, and a sign binds tighter than an operator between
operands.  What is read is the expression that was printed, but for one thing: a sign whose operand
a field or an element is selected from is printed without parentheses, so the selection is read
first.  `settled` is the expression with its selections first.

So expressions have the same text exactly if they are the same when selections come first, and
print the same dots and arrows (`render_eq_iff`); if no selection is made from a sign and its
operand, only an expression itself has its text.
-/

namespace ScriptDecompiler

/-- Is the text made of letters, digits and underscores, and does it start with no digit? -/
def IsIdentifier (name : String) : Prop :=
  name ≠ "" ∧ (∀ c ∈ name.toList, isWordChar c = true) ∧
    ∀ c ∈ name.toList.head?, c.isDigit = false

instance (name : String) : Decidable (IsIdentifier name) :=
  decidable_of_iff (name ≠ "" ∧ name.toList.all isWordChar = true ∧
    name.toList.head?.all (!·.isDigit) = true) <| by
      simp only [IsIdentifier, List.all_eq_true, Option.all_eq_true, Option.mem_def,
        Bool.not_eq_true']

namespace Expr

/-- Is the expression made of variables with identifiers as names, integers that are not negative,
operators, and selections of elements and of fields with identifiers as names? -/
inductive IsPlain (scope : Scope) : Expr → Prop
  | int {value : Int} (h : 0 ≤ value) : IsPlain scope (int value)
  | var {r : VarRef} (h : IsIdentifier (scope.name r)) : IsPlain scope (var r)
  | deref {inner : Expr} (h : IsPlain scope inner) : IsPlain scope (deref inner)
  | unary {op : UnaryOp} {inner : Expr} (h : IsPlain scope inner) : IsPlain scope (unary op inner)
  | field {base : Expr} {name : String} (h : IsPlain scope base) (hname : IsIdentifier name) :
      IsPlain scope (field base name)
  | index {base i : Expr} (h : IsPlain scope base) (hi : IsPlain scope i) :
      IsPlain scope (index base i)
  | binary {op : BinaryOp} {lhs rhs : Expr} (hlhs : IsPlain scope lhs) (hrhs : IsPlain scope rhs) :
      IsPlain scope (binary op lhs rhs)

/-- Is there a sign in front of the expression? -/
def isSigned : Expr → Bool
  | deref _ | unary .. => true
  | _ => false

/-- Select from the operand of the signs in front of an expression. -/
def beneath (select : Expr → Expr) : Expr → Expr
  | deref inner => deref (inner.beneath select)
  | unary op inner => unary op (inner.beneath select)
  | e => select e

/-- The same expression with selections first: what is selected from a sign and its operand is
selected from the operand. -/
def settled : Expr → Expr
  | deref inner => deref inner.settled
  | unary op inner => unary op inner.settled
  | field base name => base.settled.beneath (field · name)
  | index base i => base.settled.beneath (index · i.settled)
  | binary op lhs rhs => binary op lhs.settled rhs.settled
  | e => e

/-- Is no selection made from a sign and its operand? -/
def IsSettled : Expr → Prop
  | deref inner | unary _ inner => inner.IsSettled
  | field base _ => base.isSigned = false ∧ base.IsSettled
  | index base i => base.isSigned = false ∧ base.IsSettled ∧ i.IsSettled
  | binary _ lhs rhs => lhs.IsSettled ∧ rhs.IsSettled
  | _ => True

/-- For each field that is selected, from left to right: is it selected through an arrow? -/
def arrows (scope : Scope) : Expr → List Bool
  | deref inner | unary _ inner => inner.arrows scope
  | field base _ => base.arrows scope ++ [(base.typeIn scope).isPointer]
  | index base i => base.arrows scope ++ i.arrows scope
  | binary _ lhs rhs => lhs.arrows scope ++ rhs.arrows scope
  | _ => []

/-- The tokens of an operand: in parentheses if it has two operands itself. -/
def enclosed (e : Expr) (ts : List (Token Expr)) : List (Token Expr) :=
  if e.isBinary then .openParen :: (ts ++ [.closeParen]) else ts

/-- The tokens of an expression.  `arrow` says which bases fields are selected from through an
arrow. -/
def tokens (arrow : Expr → Bool) : Expr → List (Token Expr)
  | deref inner => .sign .deref :: inner.enclosed (inner.tokens arrow)
  | unary op inner => .sign (.unary op) :: inner.enclosed (inner.tokens arrow)
  | field base name => base.enclosed (base.tokens arrow) ++ [.field (arrow base) name]
  | index base i => base.enclosed (base.tokens arrow) ++
      .openBracket :: (i.tokens arrow ++ [.closeBracket])
  | binary op lhs rhs => lhs.enclosed (lhs.tokens arrow) ++
      .between op :: rhs.enclosed (rhs.tokens arrow)
  | e => [.word e]

section Selections

variable {e : Expr} {select : Expr → Expr}

theorem beneath_of_not_isSigned (h : e.isSigned = false) : e.beneath select = select e := by
  cases e <;> first | rfl | cases h

theorem settled_of_isSettled (h : e.IsSettled) : e.settled = e := by
  induction e using settled.induct with
  | case1 inner ih => exact congrArg deref (ih h)
  | case2 op inner ih => exact congrArg (unary op) (ih h)
  | case3 base name ih => rw [settled, ih h.2, beneath_of_not_isSigned h.1]
  | case4 base i ihi ihbase =>
      rw [settled, ihbase h.2.1, ihi h.2.2, beneath_of_not_isSigned h.1]
  | case5 op lhs rhs ihlhs ihrhs => rw [settled, ihlhs h.1, ihrhs h.2]
  | case6 e => rw [settled] <;> assumption

end Selections

end Expr

/-- What waits for an operand while tokens are read. -/
inductive Pending where
  | sign (s : Sign)
  | between (op : BinaryOp) (lhs : Expr)
  | paren
  | bracket (base : Expr)

/-- What has been read: the operand read last, and what waits for an operand, the latest first. -/
structure Reader where
  pending : List Pending
  operand : Expr

namespace Reader

/-- Give an operand to the operators that wait for one, up to the last bracket. -/
def close : List Pending → Expr → List Pending × Expr
  | .sign s :: rest, e => close rest (s.apply e)
  | .between op lhs :: rest, e => close rest (.binary op lhs e)
  | pending, e => (pending, e)

/-- Read one token.  A selection takes the operand at once; an operator between operands, and the
end of brackets, let the signs have it first. -/
def step (r : Reader) : Token Expr → Reader
  | .word e => { r with operand := e }
  | .sign s => { r with pending := .sign s :: r.pending }
  | .field _ name => { r with operand := .field r.operand name }
  | .openParen => { r with pending := .paren :: r.pending }
  | .openBracket => { r with pending := .bracket r.operand :: r.pending }
  | .between op =>
    let (pending, lhs) := close r.pending r.operand
    ⟨.between op lhs :: pending, lhs⟩
  | .closeParen =>
    match close r.pending r.operand with
    | (.paren :: rest, e) => ⟨rest, e⟩
    | (pending, e) => ⟨pending, e⟩
  | .closeBracket =>
    match close r.pending r.operand with
    | (.bracket base :: rest, i) => ⟨rest, .index base i⟩
    | (pending, e) => ⟨pending, e⟩

/-- The expression that tokens are read as. -/
def read (ts : List (Token Expr)) : Expr :=
  let r := ts.foldl step ⟨[], .underflow⟩
  (close r.pending r.operand).2

/-- Are the tokens read as an expression, where no operator waits for an operand? -/
def Reads (ts : List (Token Expr)) (e : Expr) : Prop :=
  ∀ r : Reader, (∀ operand, close r.pending operand = (r.pending, operand)) →
    close (ts.foldl step r).pending (ts.foldl step r).operand = (r.pending, e)

/-- Are the tokens read as an operand: as signs, and something that a selection can be made
from? -/
def ReadsOperand (ts : List (Token Expr)) (e : Expr) : Prop :=
  ∀ r : Reader, ∃ (signs : List Sign) (core : Expr),
    ts.foldl step r = ⟨signs.map .sign ++ r.pending, core⟩ ∧
      signs.foldl (fun e s => s.apply e) core = e ∧ core.isSigned = false

theorem close_signs (signs : List Sign) (pending : List Pending) (core : Expr) :
    close (signs.map .sign ++ pending) core =
      close pending (signs.foldl (fun e s => s.apply e) core) := by
  induction signs generalizing core with
  | nil => rfl
  | cons s signs ih => exact ih (s.apply core)

theorem beneath_signs (signs : List Sign) (core : Expr) (select : Expr → Expr) :
    (signs.foldl (fun e s => s.apply e) core).beneath select =
      signs.foldl (fun e s => s.apply e) (core.beneath select) := by
  induction signs generalizing core with
  | nil => rfl
  | cons s signs ih =>
      refine (ih (s.apply core)).trans ?_
      cases s <;> rfl

section Rules

variable {ts us : List (Token Expr)} {e e' : Expr}

theorem ReadsOperand.reads (h : ReadsOperand ts e) : Reads ts e := by
  intro r hr
  obtain ⟨signs, core, hfold, rfl, -⟩ := h r
  rw [hfold, close_signs, hr]

theorem readsOperand_word (h : e.isSigned = false) : ReadsOperand [.word e] e :=
  fun _ => ⟨[], e, rfl, rfl, h⟩

theorem ReadsOperand.sign (h : ReadsOperand ts e) (s : Sign) :
    ReadsOperand (.sign s :: ts) (s.apply e) := by
  intro r
  obtain ⟨signs, core, hfold, rfl, hcore⟩ := h (r.step (.sign s))
  refine ⟨signs ++ [s], core, ?_, ?_, hcore⟩
  · rw [List.foldl_cons, hfold, List.map_append, List.append_assoc]
    rfl
  · rw [List.foldl_append]
    rfl

/-- A selection is made from what the signs wait for. -/
theorem ReadsOperand.field (h : ReadsOperand ts e) (arrow : Bool) (name : String) :
    ReadsOperand (ts ++ [.field arrow name]) (e.beneath (.field · name)) := by
  intro r
  obtain ⟨signs, core, hfold, rfl, hcore⟩ := h r
  refine ⟨signs, .field core name, ?_, ?_, rfl⟩
  · rw [List.foldl_append, hfold]
    rfl
  · rw [beneath_signs, Expr.beneath_of_not_isSigned hcore]

theorem ReadsOperand.index (h : ReadsOperand ts e) (hi : Reads us e') :
    ReadsOperand (ts ++ .openBracket :: (us ++ [.closeBracket])) (e.beneath (.index · e')) := by
  intro r
  obtain ⟨signs, core, hfold, rfl, hcore⟩ := h r
  refine ⟨signs, .index core e', ?_, ?_, rfl⟩
  · have hclose := hi ⟨.bracket core :: (signs.map .sign ++ r.pending), core⟩ fun _ => rfl
    rw [List.foldl_append, hfold, List.foldl_cons, List.foldl_append]
    show Reader.step (us.foldl step ⟨.bracket core :: (signs.map .sign ++ r.pending), core⟩)
      .closeBracket = _
    rw [step, hclose]
  · rw [beneath_signs, Expr.beneath_of_not_isSigned hcore]

/-- What is in parentheses is closed, so selections are made from the whole. -/
theorem Reads.enclosed (h : Reads ts e) (he : e.isSigned = false) :
    ReadsOperand (.openParen :: (ts ++ [.closeParen])) e := by
  intro r
  refine ⟨[], e, ?_, rfl, he⟩
  have hclose := h ⟨.paren :: r.pending, r.operand⟩ fun _ => rfl
  rw [List.foldl_cons, List.foldl_append]
  show Reader.step (ts.foldl step ⟨.paren :: r.pending, r.operand⟩) .closeParen = _
  rw [step, hclose]
  rfl

theorem ReadsOperand.between (h : ReadsOperand ts e) (h' : ReadsOperand us e') (op : BinaryOp) :
    Reads (ts ++ .between op :: us) (.binary op e e') := by
  intro r hr
  obtain ⟨signs, core, hfold, rfl, -⟩ := h r
  have hstep : Reader.step ⟨signs.map .sign ++ r.pending, core⟩ (.between op) =
      ⟨.between op (signs.foldl (fun e s => s.apply e) core) :: r.pending,
        signs.foldl (fun e s => s.apply e) core⟩ := by
    rw [step, close_signs, hr]
  rw [List.foldl_append, hfold, List.foldl_cons, hstep]
  obtain ⟨signs', core', hfold', rfl, -⟩ := h' ⟨.between op
    (signs.foldl (fun e s => s.apply e) core) :: r.pending, signs.foldl (fun e s => s.apply e) core⟩
  rw [hfold', close_signs]
  exact hr _

end Rules

/-- A plain expression is read as it is with selections first. -/
theorem reads_tokens {scope : Scope} {e : Expr} (h : e.IsPlain scope) (arrow : Expr → Bool) :
    Reads (e.tokens arrow) e.settled ∧ ReadsOperand (e.enclosed (e.tokens arrow)) e.settled := by
  -- In all cases but the last one the operand is the expression itself.
  have hself {ts : List (Token Expr)} {e : Expr} (h : ReadsOperand ts e) :
      Reads ts e ∧ ReadsOperand ts e := ⟨h.reads, h⟩
  induction h with
  | int | var => exact hself (readsOperand_word rfl)
  | deref _ ih => exact hself (ih.2.sign .deref)
  | @unary op _ _ ih => exact hself (ih.2.sign (.unary op))
  | field _ _ ih => exact hself (ih.2.field _ _)
  | index _ _ ih ihi => exact hself (ih.2.index ihi.1)
  | @binary op _ _ _ _ ihlhs ihrhs =>
      have hreads := ihlhs.2.between ihrhs.2 op
      exact ⟨hreads, hreads.enclosed rfl⟩

theorem read_tokens {scope : Scope} {e : Expr} (h : e.IsPlain scope) (arrow : Expr → Bool) :
    read (e.tokens arrow) = e.settled :=
  congrArg Prod.snd ((reads_tokens h arrow).1 ⟨[], .underflow⟩ fun _ => rfl)

end Reader

namespace Expr

variable {scope : Scope} {e e' : Expr}

/-- The tokens of an expression, with words as they are printed. -/
def words (scope : Scope) (ts : List (Token Expr)) : List (Token String) :=
  ts.map (Token.map (render scope))

theorem textOf_words_cons (t : Token Expr) (ts : List (Token Expr)) :
    Token.textOf (words scope (t :: ts)) =
      (t.map (render scope)).text.toList ++ Token.textOf (words scope ts) := by
  simp only [Token.textOf, words, List.map_cons, List.flatMap_cons]

theorem textOf_words_append (ts us : List (Token Expr)) :
    Token.textOf (words scope (ts ++ us)) =
      Token.textOf (words scope ts) ++ Token.textOf (words scope us) := by
  simp only [Token.textOf, words, List.map_append, List.flatMap_append]

theorem textOf_enclosed {ts : List (Token Expr)} {s : String}
    (h : Token.textOf (words scope ts) = s.toList) :
    Token.textOf (words scope (e.enclosed ts)) = (e.operandText s).toList := by
  unfold enclosed operandText
  split
  · have hclose : Token.textOf (words scope [.closeParen]) = ")".toList := List.append_nil _
    rw [textOf_words_cons, textOf_words_append, h, hclose, String.toList_append,
      String.toList_append, List.append_assoc]
    rfl
  · exact h

/-- The text of an expression is that of its tokens. -/
theorem textOf_tokens (h : e.IsPlain scope) :
    Token.textOf (words scope (e.tokens fun base => (base.typeIn scope).isPointer)) =
      (e.render scope).toList := by
  induction h with
  | int | var => exact List.append_nil _
  | deref _ ih =>
      rw [tokens, textOf_words_cons, textOf_enclosed ih, render, String.toList_append]
      rfl
  | unary _ ih =>
      rw [tokens, textOf_words_cons, textOf_enclosed ih, render, String.toList_append]
      rfl
  | @field base name h hname ih =>
      have hrender : (field base name).render scope = base.operandText (base.render scope) ++
          (if (base.typeIn scope).isPointer then "->" else ".") ++ name := by
        cases h <;> rfl
      rw [tokens, textOf_words_append, textOf_enclosed ih, hrender, String.append_assoc,
        String.toList_append]
      exact congrArg (_ ++ ·) (List.append_nil _)
  | @index base i h hi ih ihi =>
      have hrender : (index base i).render scope =
          base.operandText (base.render scope) ++ "[" ++ i.render scope ++ "]" := by
        cases h <;> rfl
      have hclose : Token.textOf (words scope [.closeBracket]) = "]".toList := List.append_nil _
      rw [tokens, textOf_words_append, textOf_words_cons, textOf_words_append, textOf_enclosed ih,
        ihi, hclose, hrender]
      simp only [String.toList_append, List.append_assoc]
      rfl
  | binary _ _ ihlhs ihrhs =>
      rw [tokens, textOf_words_append, textOf_words_cons, textOf_enclosed ihlhs,
        textOf_enclosed ihrhs, render]
      simp only [Token.map, Token.text, String.toList_append, List.append_assoc]

section Integers

variable {value : Int}

/-- The text of an integer that is not negative is made of digits. -/
theorem isDigit_of_mem_render_int (h : 0 ≤ value) {c : Char}
    (hc : c ∈ ((int value).render scope).toList) : c.isDigit = true := by
  obtain ⟨n, rfl⟩ := Int.eq_ofNat_of_zero_le h
  have hc : c ∈ n.repr.toList := hc
  rw [Nat.toList_repr] at hc
  exact Nat.isDigit_of_mem_toDigits (by decide) (by decide) hc

theorem render_int_ne_empty (h : 0 ≤ value) : (int value).render scope ≠ "" := by
  obtain ⟨n, rfl⟩ := Int.eq_ofNat_of_zero_le h
  exact Nat.repr_ne_empty

theorem render_int_injective (h : 0 ≤ value) {value' : Int} (h' : 0 ≤ value')
    (htext : (int value).render scope = (int value').render scope) : value = value' := by
  obtain ⟨n, rfl⟩ := Int.eq_ofNat_of_zero_le h
  obtain ⟨n', rfl⟩ := Int.eq_ofNat_of_zero_le h'
  have hdigits : n.repr.toList = n'.repr.toList := congrArg String.toList htext
  have hread := congrArg (fun digits => Nat.ofDigitChars 10 digits 0) hdigits
  exact congrArg _ (by simpa using hread)

/-- An identifier is not the text of an integer. -/
theorem render_int_ne_identifier (h : 0 ≤ value) {name : String} (hname : IsIdentifier name) :
    name ≠ (int value).render scope := by
  rintro rfl
  obtain ⟨c, cs, hc⟩ := List.exists_cons_of_ne_nil (mt String.toList_eq_nil_iff.1 hname.1)
  have hdigit := isDigit_of_mem_render_int h (hc ▸ List.mem_cons_self)
  rw [hname.2.2 c (by rw [hc]; rfl)] at hdigit
  cases hdigit

end Integers

/-- An operand is made of tokens if the expression is. -/
theorem isText_enclosed {ts : List (Token Expr)} (h : Token.IsText (words scope ts)) :
    Token.IsText (words scope (e.enclosed ts)) := by
  unfold enclosed
  split
  · have hclose : Token.IsText [.closeParen] := .singleton trivial
    rw [words, List.map_cons, List.map_append]
    exact (h.append_cons hclose rfl).cons trivial rfl
  · exact h

theorem isText_tokens (h : e.IsPlain scope) (arrow : Expr → Bool) :
    Token.IsText (words scope (e.tokens arrow)) := by
  induction h with
  | int h => exact .singleton ⟨render_int_ne_empty h, fun c hc => by
      simp [isWordChar, Char.isAlphanum, isDigit_of_mem_render_int h hc]⟩
  | var h => exact .singleton ⟨h.1, h.2.1⟩
  | deref _ ih => exact (isText_enclosed ih).cons trivial rfl
  | unary _ ih => exact (isText_enclosed ih).cons trivial rfl
  | field h hname ih =>
      rw [tokens, words, List.map_append]
      exact (isText_enclosed ih).append_cons (.singleton hname.2.1) rfl
  | index _ _ ih ihi =>
      rw [tokens, words, List.map_append, List.map_cons, List.map_append]
      have hclose : Token.IsText [.closeBracket] := .singleton trivial
      exact (isText_enclosed ih).append_cons ((ihi.append_cons hclose rfl).cons trivial rfl) rfl
  | binary _ _ ihlhs ihrhs =>
      rw [tokens, words, List.map_append, List.map_cons]
      exact (isText_enclosed ihlhs).append_cons ((isText_enclosed ihrhs).cons trivial rfl) rfl

theorem word_mem_enclosed {ts : List (Token Expr)} {w : Expr} :
    .word w ∈ e.enclosed ts ↔ .word w ∈ ts := by
  unfold enclosed
  split <;> simp

/-- The words of an expression are its variables and integers. -/
theorem eq_of_word_mem_tokens (h : e.IsPlain scope) {arrow : Expr → Bool} {w : Expr}
    (hw : .word w ∈ e.tokens arrow) :
    (∃ r ∈ e.vars, w = var r ∧ IsIdentifier (scope.name r)) ∨
      ∃ value, w = int value ∧ 0 ≤ value := by
  induction h with
  | @int value hvalue => exact .inr ⟨value, Token.word.inj (List.mem_singleton.1 hw), hvalue⟩
  | @var r hname =>
      exact .inl ⟨r, List.mem_singleton.2 rfl, Token.word.inj (List.mem_singleton.1 hw), hname⟩
  | deref _ ih | unary _ ih =>
      rcases List.mem_cons.1 hw with hw | hw
      · cases hw
      · exact ih (word_mem_enclosed.1 hw)
  | field _ _ ih =>
      rcases List.mem_append.1 hw with hw | hw
      · exact ih (word_mem_enclosed.1 hw)
      · cases List.mem_singleton.1 hw
  | index _ _ ih ihi =>
      rcases List.mem_append.1 hw with hw | hw
      · exact (ih (word_mem_enclosed.1 hw)).imp_left fun ⟨r, hr, h⟩ =>
          ⟨r, List.mem_append_left _ hr, h⟩
      · have hw := (List.mem_cons.1 hw).resolve_left nofun
        rcases List.mem_append.1 hw with hw | hw
        · exact (ihi hw).imp_left fun ⟨r, hr, h⟩ => ⟨r, List.mem_append_right _ hr, h⟩
        · cases List.mem_singleton.1 hw
  | binary _ _ ihlhs ihrhs =>
      rcases List.mem_append.1 hw with hw | hw
      · exact (ihlhs (word_mem_enclosed.1 hw)).imp_left fun ⟨r, hr, h⟩ =>
          ⟨r, List.mem_append_left _ hr, h⟩
      · have hw := (List.mem_cons.1 hw).resolve_left nofun
        exact (ihrhs (word_mem_enclosed.1 hw)).imp_left fun ⟨r, hr, h⟩ =>
          ⟨r, List.mem_append_right _ hr, h⟩

/-- Words can be told from their texts, if variables can be told from their names. -/
theorem tokens_eq_of_words_eq (h : e.IsPlain scope) (h' : e'.IsPlain scope)
    (hnames : ∀ r ∈ e.vars, ∀ r' ∈ e'.vars, scope.name r = scope.name r' → r = r')
    {arrow : Expr → Bool} (hwords : words scope (e.tokens arrow) = words scope (e'.tokens arrow)) :
    e.tokens arrow = e'.tokens arrow := by
  refine Token.eq_of_map_eq (fun w hw w' hw' htext => ?_) hwords
  rcases eq_of_word_mem_tokens h hw with ⟨r, hr, rfl, hname⟩ | ⟨value, rfl, hvalue⟩ <;>
    rcases eq_of_word_mem_tokens h' hw' with ⟨r', hr', rfl, hname'⟩ | ⟨value', rfl, hvalue'⟩
  · exact congrArg var (hnames r hr r' hr' htext)
  · exact absurd htext (render_int_ne_identifier hvalue' hname)
  · exact absurd htext.symm (render_int_ne_identifier hvalue hname')
  · exact congrArg int (render_int_injective hvalue hvalue' htext)

theorem filterMap_arrow?_enclosed (ts : List (Token Expr)) :
    (e.enclosed ts).filterMap Token.arrow? = ts.filterMap Token.arrow? := by
  unfold enclosed
  split
  · rw [List.filterMap_cons_none rfl, List.filterMap_append]
    exact List.append_nil _
  · rfl

/-- The arrows of an expression are those among its tokens. -/
theorem filterMap_arrow?_tokens (h : e.IsPlain scope) :
    (e.tokens fun base => (base.typeIn scope).isPointer).filterMap Token.arrow? =
      e.arrows scope := by
  induction h with
  | int | var => rfl
  | deref _ ih | unary _ ih => exact (filterMap_arrow?_enclosed _).trans ih
  | field _ _ ih =>
      rw [tokens, List.filterMap_append, filterMap_arrow?_enclosed, ih]
      rfl
  | index _ _ ih ihi =>
      rw [tokens, List.filterMap_append, filterMap_arrow?_enclosed, ih,
        List.filterMap_cons_none rfl, List.filterMap_append, ihi]
      exact congrArg (_ ++ ·) (List.append_nil _)
  | binary _ _ ihlhs ihrhs =>
      rw [tokens, List.filterMap_append, filterMap_arrow?_enclosed, ihlhs,
        List.filterMap_cons_none rfl, filterMap_arrow?_enclosed, ihrhs]
      rfl

theorem map_dotted_enclosed (ts : List (Token Expr)) :
    (e.enclosed ts).map Token.dotted = e.enclosed (ts.map Token.dotted) := by
  unfold enclosed
  split
  · rw [List.map_cons, List.map_append]
    rfl
  · rfl

/-- With dots in place of arrows, the tokens do not depend on types. -/
theorem map_dotted_tokens (h : e.IsPlain scope) (arrow : Expr → Bool) :
    (e.tokens arrow).map Token.dotted = e.tokens fun _ => false := by
  induction h with
  | int | var => rfl
  | deref _ ih | unary _ ih =>
      rw [tokens, tokens, List.map_cons, map_dotted_enclosed, ih]
      rfl
  | field _ _ ih =>
      rw [tokens, tokens, List.map_append, map_dotted_enclosed, ih]
      rfl
  | index _ _ ih ihi =>
      rw [tokens, tokens, List.map_append, map_dotted_enclosed, ih, List.map_cons,
        List.map_append, ihi]
      rfl
  | binary _ _ ihlhs ihrhs =>
      rw [tokens, tokens, List.map_append, map_dotted_enclosed, ihlhs, List.map_cons,
        map_dotted_enclosed, ihrhs]
      rfl

/-- A selection is printed behind what it is made from, signs included. -/
theorem tokens_beneath (arrow : Expr → Bool) (select : Expr → Expr) {behind : List (Token Expr)}
    (hselect : ∀ base, (select base).tokens arrow = base.enclosed (base.tokens arrow) ++ behind)
    (hbinary : ∀ base, (select base).isBinary = false) (e : Expr) :
    (e.beneath select).isBinary = false ∧
      (e.beneath select).tokens arrow = e.enclosed (e.tokens arrow) ++ behind := by
  induction e using beneath.induct with
  | case1 inner ih =>
      refine ⟨rfl, ?_⟩
      rw [beneath, tokens, enclosed, ih.1, ih.2]
      rfl
  | case2 op inner ih =>
      refine ⟨rfl, ?_⟩
      rw [beneath, tokens, enclosed, ih.1, ih.2]
      rfl
  | case3 e hderef hunary =>
      rw [beneath.eq_3 select e hderef hunary]
      exact ⟨hbinary e, hselect e⟩

/-- Selections are printed in the same place, whether they come first or not. -/
theorem tokens_settled (h : e.IsPlain scope) : e.settled.isBinary = e.isBinary ∧
    (e.settled.tokens fun _ => false) = e.tokens fun _ => false := by
  have henclosed {e : Expr} (h : e.settled.isBinary = e.isBinary ∧
      (e.settled.tokens fun _ => false) = e.tokens fun _ => false) :
      e.settled.enclosed (e.settled.tokens fun _ => false) =
        e.enclosed (e.tokens fun _ => false) := by
    rw [enclosed, enclosed, h.1, h.2]
  induction h with
  | int | var => exact ⟨rfl, rfl⟩
  | deref _ ih | unary _ ih =>
      refine ⟨rfl, ?_⟩
      rw [settled, tokens, tokens, henclosed ih]
  | @field base name _ _ ih =>
      have hselect := tokens_beneath (fun _ => false) (field · name)
        (fun _ => tokens.eq_3 ..) (fun _ => rfl) base.settled
      rw [settled, tokens, ← henclosed ih]
      exact hselect
  | @index base i _ _ ih ihi =>
      have hselect := tokens_beneath (fun _ => false) (index · i.settled)
        (fun _ => tokens.eq_4 ..) (fun _ => rfl) base.settled
      rw [settled, tokens, ← henclosed ih, ← ihi.2]
      exact hselect
  | binary _ _ ihlhs ihrhs =>
      refine ⟨rfl, ?_⟩
      rw [settled, tokens, tokens, henclosed ihlhs, henclosed ihrhs]

/-- When two plain expressions are printed alike, in a scope in which their variables can be told
from their names: exactly if they are the same with selections first, and select the same fields
through arrows.  So if neither of them selects from a sign and its operand, they are printed alike
only if they are the same. -/
theorem render_eq_iff (h : e.IsPlain scope) (h' : e'.IsPlain scope)
    (hnames : ∀ r ∈ e.vars, ∀ r' ∈ e'.vars, scope.name r = scope.name r' → r = r') :
    (e.render scope = e'.render scope ↔
        e.settled = e'.settled ∧ e.arrows scope = e'.arrows scope) ∧
      (e.IsSettled → e'.IsSettled → e.render scope = e'.render scope → e = e') := by
  have hiff : e.render scope = e'.render scope ↔
      e.settled = e'.settled ∧ e.arrows scope = e'.arrows scope := by
    rw [← String.toList_inj, ← textOf_tokens h, ← textOf_tokens h', ← filterMap_arrow?_tokens h,
      ← filterMap_arrow?_tokens h']
    constructor
    · intro htext
      have hwords := Token.textOf_injective (isText_tokens h _) (isText_tokens h' _) htext
      have htokens := tokens_eq_of_words_eq h h' hnames hwords
      have hread := congrArg Reader.read htokens
      rw [Reader.read_tokens h, Reader.read_tokens h'] at hread
      exact ⟨hread, congrArg _ htokens⟩
    · rintro ⟨hsettled, harrows⟩
      refine congrArg (fun ts => Token.textOf (words scope ts)) ?_
      refine Token.eq_of_map_dotted_eq ?_ harrows
      rw [map_dotted_tokens h, map_dotted_tokens h', ← (tokens_settled h).2, hsettled,
        (tokens_settled h').2]
  refine ⟨hiff, fun hsettled hsettled' htext => ?_⟩
  have heq := (hiff.1 htext).1
  rwa [settled_of_isSettled hsettled, settled_of_isSettled hsettled'] at heq

/-- The element `*y` of `x + 1`, and the sum of `x` and the element `*y` of `1`. -/
theorem render_eq_iff_sum :
    let scope : Scope := ⟨fun _ => none⟩
    let x : Expr := var (.slot 0)
    let i : Expr := deref (var (.slot 1))
    let e := index (binary .add x (int 1)) i
    let e' := binary .add x (index (int 1) i)
    e.IsPlain scope ∧ e'.IsPlain scope ∧
      (∀ r ∈ e.vars, ∀ r' ∈ e'.vars, scope.name r = scope.name r' → r = r') ∧
      e.IsSettled ∧ e'.IsSettled ∧ e.render scope ≠ e'.render scope := by
  intro scope x i e e'
  have hx : x.IsPlain scope := .var (by decide)
  have hi : i.IsPlain scope := .deref (.var (by decide))
  have hone : (int 1).IsPlain scope := .int (by decide)
  have he : e.IsPlain scope := .index (.binary hx hone) hi
  have he' : e'.IsPlain scope := .binary hx (.index hone hi)
  have hnames : ∀ r ∈ e.vars, ∀ r' ∈ e'.vars, scope.name r = scope.name r' → r = r' :=
    fun _ _ _ _ hname => VarRef.defaultName_injective hname
  have hsettled : e.IsSettled := ⟨rfl, ⟨trivial, trivial⟩, trivial⟩
  have hsettled' : e'.IsSettled := ⟨trivial, rfl, trivial, trivial⟩
  have hne : e ≠ e' := nofun
  exact ⟨he, he', hnames, hsettled, hsettled',
    fun htext => hne ((render_eq_iff he he' hnames).2 hsettled hsettled' htext)⟩

/-- An element of what `x` points to, and what an element of `x` points to. -/
theorem exists_render_eq :
    let scope : Scope := ⟨fun _ => none⟩
    let x : Expr := var (.slot 0)
    let e := index (deref x) (int 0)
    let e' := deref (index x (int 0))
    Function.Injective scope.name ∧ e.IsPlain scope ∧ e'.IsPlain scope ∧
      e.render scope = "*local_0[0]" ∧ e'.render scope = "*local_0[0]" ∧ e ≠ e' := by
  intro scope x e e'
  have hx : x.IsPlain scope := .var (by decide)
  have hzero : (int 0).IsPlain scope := .int (by decide)
  have hnames : Function.Injective scope.name := VarRef.defaultName_injective
  exact ⟨hnames, .index (.deref hx) hzero, .deref (.index hx hzero), by decide, by decide, nofun⟩

end Expr

end ScriptDecompiler
