import Mathlib.Data.List.Forall2
import ScriptDecompiler.Proofs.Expr.Dependence
import ScriptDecompiler.Proofs.Render.Declarations

/-!
# What the text of a function depends on

The text of a function shows its name, result and arguments, and of its other variables those that
the statements mention.  So a local or a temporary that no statement mentions may have any name
and any type.

Statements mention a local by its slot, whereas its declaration is printed if they mention the
index that it bears.  In a unit that was decompiled the two are the same (`mentionsLocal_iff`); in
a function that was put together in another way, a local is unmentioned if it is so in both ways.
-/

namespace ScriptDecompiler

open ScriptDecompiler.Flow (Block Function)

section Lines

variable {scope scope' : Scope} {used : VarRef → Bool} {next : Option Nat} {optimize : Bool}

/-- The lines of a statement depend on variables that are used. -/
theorem Stmt.lines_congr (h : ∀ r, used r = true → scope.get? r = scope'.get? r) {s : Stmt}
    (hs : ∀ r ∈ s.vars, used r = true) :
    s.lines scope used next = s.lines scope' used next := by
  have hrender (e : Expr) (he : e.vars ⊆ s.vars) : e.render scope = e.render scope' :=
    e.render_congr fun r hr => Expr.shownAlike_of_eq (h r (hs r (he hr)))
  cases s with
  | assign dest value =>
      simp only [lines, hrender dest (List.subset_append_left _ _),
        hrender value (List.subset_append_right _ _)]
  | declare r value =>
      simp only [lines, hrender value (List.Subset.refl _)]
      by_cases hused : used r = true
      · rw [if_pos hused, if_pos hused, h r hused]
      · rw [if_neg hused, if_neg hused]
  | expr e => simp only [lines, hrender e (List.Subset.refl _)]
  | ifGoto condition _ _ => simp only [lines, hrender condition (List.Subset.refl _)]
  | switch value _ => simp only [lines, hrender value (List.Subset.refl _)]
  | ret value =>
      cases value with
      | none => rfl
      | some value => simp only [lines, hrender value (List.Subset.refl _)]
  | goto | asm | comment => rfl

theorem Stmt.linesOfAll_congr (h : ∀ r, used r = true → scope.get? r = scope'.get? r)
    {statements : List Stmt} (hs : ∀ s ∈ statements, ∀ r ∈ s.vars, used r = true) :
    linesOfAll scope used next optimize statements =
      linesOfAll scope' used next optimize statements := by
  rw [linesOfAll_eq, linesOfAll_eq]
  exact List.flatMap_congr fun s hmem =>
    lines_congr h (hs s (mem_of_mem_printed next optimize hmem))

/-- The lines of blocks depend on variables that are used. -/
theorem Flow.Block.linesOfAll_congr (h : ∀ r, used r = true → scope.get? r = scope'.get? r)
    {blocks : List Block} (hs : ∀ b ∈ blocks, ∀ s ∈ b.statements, ∀ r ∈ s.vars, used r = true) :
    linesOfAll scope used optimize blocks = linesOfAll scope' used optimize blocks := by
  induction blocks with
  | nil => rfl
  | cons b rest ih =>
      obtain ⟨hb, hrest⟩ := List.forall_mem_cons.1 hs
      rw [linesOfAll, linesOfAll, ih hrest, lines, lines, Stmt.linesOfAll_congr h hb]

end Lines

/-- Do the variables differ in their names and types at most? -/
def Variable.Relabels (v v' : Variable) : Prop :=
  v' = { v with identifier := v'.identifier, ty := v'.ty }

namespace Flow.Function

variable {f f' : Function} {globals : Globals}

theorem mem_usedVars {b : Block} {s : Stmt} {r : VarRef} (hb : b ∈ f.graph.blocks)
    (hs : s ∈ b.statements) (hr : r ∈ s.vars) : r ∈ f.usedVars :=
  List.mem_flatMap.2 ⟨b, hb, List.mem_flatMap.2 ⟨s, hs, hr⟩⟩

/-- Apart from its header and from the declarations of locals, the text of a function depends on
the variables that the statements mention. -/
theorem render_congr (hgraph : f'.graph = f.graph) (hheader : f'.header = f.header)
    (hlocals : f'.localLines = f.localLines)
    (hvars : ∀ r ∈ f.usedVars, (f'.scope globals).get? r = (f.scope globals).get? r)
    (optimize : Bool) : f'.render globals optimize = f.render globals optimize := by
  have hused : f'.usedVars = f.usedVars := by rw [usedVars, usedVars, hgraph]
  have hbody : f'.bodyLines globals optimize = f.bodyLines globals optimize := by
    rw [bodyLines, bodyLines, hused, hgraph]
    exact Block.linesOfAll_congr (fun r hr => hvars r (List.contains_iff_mem.1 hr))
      fun b hb s hs r hr => List.contains_iff_mem.2 (mem_usedVars hb hs hr)
  rw [render, render, hheader, hlocals, printedLines, printedLines, hbody]

/-- Does a statement mention the local at place `k` among the locals, by its slot or by the index
that it bears? -/
def MentionsLocal (f : Function) (k : Nat) (v : Variable) : Prop :=
  .slot (f.frame.arguments.size + k) ∈ f.usedVars ∨ .slot v.index ∈ f.usedVars

instance (f : Function) (k : Nat) (v : Variable) : Decidable (f.MentionsLocal k v) :=
  inferInstanceAs (Decidable (_ ∨ _))

/-- Do the functions differ in nothing but names and types of locals and temporaries that no
statement mentions? -/
structure RelabelsUnmentioned (f f' : Function) : Prop where
  graph : f'.graph = f.graph
  frame : f'.frame = { f.frame with
    locals := f'.frame.locals, temporaries := f'.frame.temporaries }
  locals_size : f'.frame.locals.size = f.frame.locals.size
  locals : ∀ k v v', f.frame.locals[k]? = some v → f'.frame.locals[k]? = some v' →
    v' = v ∨ v.Relabels v' ∧ ¬f.MentionsLocal k v
  temporaries_size : f'.frame.temporaries.size = f.frame.temporaries.size
  temporaries : ∀ k v v', f.frame.temporaries[k]? = some v → f'.frame.temporaries[k]? = some v' →
    v' = v ∨ v.Relabels v' ∧ .temp k ∉ f.usedVars

theorem getElem?_eq_of_size_eq {α : Type} {xs ys : Array α} {k : Nat} (hsize : ys.size = xs.size)
    (h : ∀ x y, xs[k]? = some x → ys[k]? = some y → y = x) : ys[k]? = xs[k]? := by
  by_cases hk : k < xs.size
  · have hx := Array.getElem?_eq_getElem hk
    have hy := Array.getElem?_eq_getElem (hsize ▸ hk)
    rw [hx, hy, h _ _ hx hy]
  · rw [Array.getElem?_eq_none (Nat.not_lt.1 hk), Array.getElem?_eq_none (by omega)]

/-- Lists keep the same elements if they differ only in elements that neither keeps. -/
theorem filter_eq_of_forall₂ {α : Type} {p : α → Bool} {l l' : List α}
    (h : List.Forall₂ (fun x y => y = x ∨ p x = false ∧ p y = false) l l') :
    l'.filter p = l.filter p := by
  induction h with
  | nil => rfl
  | cons hxy _ ih =>
      rcases hxy with rfl | ⟨hx, hy⟩
      · rw [List.filter_cons, List.filter_cons, ih]
      · rw [List.filter_cons_of_neg (Bool.eq_false_iff.1 hx),
          List.filter_cons_of_neg (Bool.eq_false_iff.1 hy), ih]

namespace RelabelsUnmentioned

variable (h : f.RelabelsUnmentioned f')

include h

theorem header_eq : f'.header = f.header := by
  rw [header, header, h.frame]

theorem usedVars_eq : f'.usedVars = f.usedVars := by
  rw [usedVars, usedVars, h.graph]

/-- What a statement mentions is the same. -/
theorem get?_eq (globals : Globals) {r : VarRef} (hr : r ∈ f.usedVars) :
    (f'.scope globals).get? r = (f.scope globals).get? r := by
  cases r with
  | slot index =>
      have harguments : f'.frame.arguments = f.frame.arguments := by rw [h.frame]
      show f'.frame.slot? index = f.frame.slot? index
      rw [Frame.slot?, Frame.slot?, harguments]
      split
      · rfl
      · rename_i hindex
        refine getElem?_eq_of_size_eq h.locals_size fun v v' hv hv' => ?_
        rcases h.locals _ v v' hv hv' with hsame | ⟨-, hunmentioned⟩
        · exact hsame
        · have hslot : f.frame.arguments.size + (index - f.frame.arguments.size) = index := by
            omega
          exact absurd (.inl (by rwa [hslot])) hunmentioned
  | temp index =>
      refine getElem?_eq_of_size_eq h.temporaries_size fun v v' hv hv' => ?_
      rcases h.temporaries _ v v' hv hv' with hsame | ⟨-, hunused⟩
      · exact hsame
      · exact absurd hr hunused
  | static | global => rfl

/-- The same locals are declared. -/
theorem localLines_eq : f'.localLines = f.localLines := by
  have hlocals : List.Forall₂ (fun v v' : Variable => v' = v ∨
      f.usedVars.contains (.slot v.index) = false ∧ f.usedVars.contains (.slot v'.index) = false)
      f.frame.locals.toList f'.frame.locals.toList := by
    refine List.forall₂_iff_get.2 ⟨h.locals_size.symm, fun k hk hk' => ?_⟩
    have hv : f.frame.locals[k]? = some (f.frame.locals.toList.get ⟨k, hk⟩) := by simp
    have hv' : f'.frame.locals[k]? = some (f'.frame.locals.toList.get ⟨k, hk'⟩) := by simp
    rcases h.locals k _ _ hv hv' with hsame | ⟨hrelabels, hunmentioned⟩
    · exact .inl hsame
    · have hindex := congrArg Variable.index hrelabels
      have hcontains := Bool.eq_false_iff.2 fun hused =>
        hunmentioned (.inr (List.contains_iff_mem.1 hused))
      exact .inr ⟨hcontains, hindex ▸ hcontains⟩
  rw [localLines, localLines, h.usedVars_eq]
  exact congrArg _ (filter_eq_of_forall₂ hlocals)

end RelabelsUnmentioned

end Flow.Function

/-- The variables that an expression mentions are all that its text and its type depend on, and
those that the statements of a function mention are all whose names and types its text depends
on, apart from the arguments. -/
theorem text_follows_mentioned :
    (∀ (e : Expr) (scope scope' : Scope), (∀ r ∈ e.vars, scope.get? r = scope'.get? r) →
      e.render scope = e.render scope' ∧ e.typeIn scope = e.typeIn scope') ∧
    ∀ (f f' : Function), f.RelabelsUnmentioned f' → ∀ (globals : Globals) (optimize : Bool),
      f'.render globals optimize = f.render globals optimize := by
  refine ⟨fun e scope scope' h => ?_, fun f f' h globals optimize => ?_⟩
  · have halike : ∀ r ∈ e.vars, Expr.ShownAlike scope scope' r :=
      fun r hr => Expr.shownAlike_of_eq (h r hr)
    exact ⟨e.render_congr halike, e.typeIn_congr fun r hr => (halike r hr).2⟩
  · exact Function.render_congr h.graph h.header_eq h.localLines_eq (fun _ hr => h.get?_eq globals hr)
      optimize

/-- A mentioned local, which keeps its name, and a local and a temporary that are not mentioned and
get other names and types. -/
theorem text_follows_mentioned_renamed :
    let e : Expr := .field (.var (.slot 0)) "x"
    let position : Variable := { Frame.freshSlot .slot 0 with ty := .pointer .vector3 }
    let f : Function := ⟨⟨0, "f", #[], #[position, Frame.freshSlot .slot 1],
      #[Frame.freshTemp .int 0], Variable.fresh 0 "f" .result⟩,
      ⟨0, [⟨0, [], [], [], some [], [.declare (.temp 0) (.call "g" [e] .int), .ret none], true⟩]⟩⟩
    let f' : Function := { f with frame := { f.frame with
      locals := #[position, { Frame.freshSlot .slot 1 with identifier := "health", ty := .float }],
      temporaries := #[{ Frame.freshTemp .bool 0 with identifier := "alive" }] } }
    let globals := Globals.ofStatics []
    (∀ r ∈ e.vars, (f.scope globals).get? r = (f'.scope globals).get? r) ∧
      e.render (f.scope globals) = e.render (f'.scope globals) ∧
      e.typeIn (f.scope globals) = e.typeIn (f'.scope globals) ∧
      f.RelabelsUnmentioned f' ∧ f'.frame ≠ f.frame ∧
      f'.render globals true = f.render globals true := by
  intro e position f f' globals
  have hagree : ∀ r ∈ e.vars, (f.scope globals).get? r = (f'.scope globals).get? r := by decide
  have hrelabels : f.RelabelsUnmentioned f' := by
    refine ⟨rfl, rfl, rfl, fun k v v' hv hv' => ?_, rfl, fun k v v' hv hv' => ?_⟩
    · match k with
      | 0 => exact .inl (Option.some.inj (hv'.symm.trans hv))
      | 1 =>
        cases hv
        cases hv'
        exact .inr ⟨rfl, by decide⟩
    · match k with
      | 0 =>
        cases hv
        cases hv'
        exact .inr ⟨rfl, by decide⟩
  obtain ⟨hexpr, hfunction⟩ := text_follows_mentioned
  obtain ⟨hrender, htype⟩ := hexpr e (f.scope globals) (f'.scope globals) hagree
  exact ⟨hagree, hrender, htype, hrelabels, by decide, hfunction f f' hrelabels globals true⟩

/-- In a unit that was decompiled, locals bear their slots, so to mention one is to mention its
slot. -/
theorem Machine.mentionsLocal_iff {u : ScriptUnit} {natives : Native.Database} {annotate : Bool}
    {instructions : List Bytecode.Instruction} {fault : Option Fault} {p : Program} {index : Nat}
    {f : Function} (hrun : (u.program instructions).run u natives annotate = (fault, p))
    (hf : p.function? index = some f) {k : Nat} {v : Variable}
    (hv : f.frame.locals[k]? = some v) :
    f.MentionsLocal k v ↔ .slot (f.frame.arguments.size + k) ∈ f.usedVars := by
  have hslot : (f.scope p.store.globals).get? (.slot (f.frame.arguments.size + k)) = some v := by
    show f.frame.slot? _ = some v
    rw [Frame.slot?, if_neg (Nat.not_lt.2 (Nat.le_add_right _ _)), Nat.add_sub_cancel_left, hv]
  have hindex := Variable.index_of_ref?_slot (ref?_of_scope (labelled_of_run hrun) hf _ v hslot)
  rw [Function.MentionsLocal, hindex, or_self]

end ScriptDecompiler
