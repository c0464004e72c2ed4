import Mathlib.Data.List.Nodup
import ScriptDecompiler.Proofs.Render.Execution
import ScriptDecompiler.Proofs.Render.Pieces

/-!
# Control flow of a rendered function

With `optimize`, a jump at the end of a block to the block printed next is left out.  That block
starts with its label, so the lines are those without `optimize`, trimmed (`Block.trims_linesOfAll`).
Both lists of lines lose the labels without a jump; a jump that was left out may have been the last
one for its label, so the optimized lines lose more of them, but only labels that no jump needs
(`Trims.filter`).  What is printed with `optimize` is therefore a trimmed form of what is printed
without, and executions agree (`Function.optimize_preserves_control`).
-/

namespace ScriptDecompiler

open ScriptDecompiler.Flow (Block)
open ScriptDecompiler.Line (Trims IsTrimmed Agree)

namespace Line

variable {targets kept : List Nat} {line : Line}

theorem isKept_label {address : Nat} : (label address).isKept targets = true ↔ address ∈ targets :=
  List.contains_iff_mem

theorem eq_label_of_not_isKept (h : ¬ line.isKept targets = true) :
    ∃ address, line = label address ∧ address ∉ targets := by
  cases line with
  | label address => exact ⟨address, rfl, mt isKept_label.2 h⟩
  | _ => exact absurd rfl h

theorem isKept_of_subset (hsubset : targets ⊆ kept) (h : line.isKept targets = true) :
    line.isKept kept = true := by
  cases line with
  | label address => exact isKept_label.2 (hsubset (isKept_label.1 h))
  | _ => rfl

theorem flatMap_targets_filter (kept : List Nat) (lines : List Line) :
    (lines.filter (isKept kept)).flatMap Line.targets = lines.flatMap Line.targets := by
  refine flatMap_filter_of_ne_nil fun line _ htargets => ?_
  cases line with
  | label => exact absurd rfl htargets
  | _ => rfl

/-- Trimmed lines stay trimmed when both sides lose labels: the shorter side those that are not
among the targets, the longer side those that are not among more targets, which include its own
jumps. -/
theorem Trims.filter {a b : List Line} (h : Trims targets a b) (hsubset : targets ⊆ kept)
    (hjumps : a.flatMap Line.targets ⊆ kept) :
    Trims targets (a.filter (isKept kept)) (b.filter (isKept targets)) := by
  induction h with
  | nil => exact .nil
  | @keep line a b h ih =>
      have ih := ih fun t ht => hjumps (List.mem_append_right _ ht)
      rw [List.filter_cons, List.filter_cons]
      by_cases hline : line.isKept targets = true
      · rw [if_pos hline, if_pos (isKept_of_subset hsubset hline)]
        exact .keep line ih
      · rw [if_neg hline]
        obtain ⟨address, rfl, hunused⟩ := eq_label_of_not_isKept hline
        split
        · exact .dropLabel hunused ih
        · exact ih
  | dropLabel hunused h ih =>
      have ih := ih fun t ht => hjumps (List.mem_append_right _ ht)
      rw [List.filter_cons]
      split
      · exact .dropLabel hunused ih
      · exact ih
  | @dropGoto target a b h ih =>
      have ih := ih fun t ht => hjumps (List.mem_append_right _ ht)
      have htarget : (label target).isKept kept = true :=
        isKept_label.2 (hjumps List.mem_cons_self)
      have hgoto : (goto target).isKept kept = true := rfl
      rw [List.filter_cons, if_pos htarget] at ih
      rw [List.filter_cons, if_pos hgoto, List.filter_cons, if_pos htarget]
      exact .dropGoto ih

end Line

namespace Stmt

variable (scope : Scope) (used : VarRef → Bool) (next : Option Nat)

theorem label_not_mem_lines (s : Stmt) (address : Nat) :
    .label address ∉ s.lines scope used next := by
  cases s with
  | declare r value =>
      simp only [lines]
      split <;> simp
  | ret value => cases value <;> simp [lines]
  | ifGoto condition target fallthrough =>
      simp only [lines]
      split <;> simp
  | _ => simp [lines]

theorem label_not_mem_linesOfAll (optimize : Bool) (statements : List Stmt) (address : Nat) :
    .label address ∉ linesOfAll scope used next optimize statements := by
  rw [linesOfAll_eq]
  intro h
  obtain ⟨s, -, hs⟩ := List.mem_flatMap.1 h
  exact s.label_not_mem_lines scope used next address hs

/-- All that is left out of the lines of a block is a jump at the end to the next block. -/
theorem linesOfAll_optimize (statements : List Stmt) :
    linesOfAll scope used next true statements = linesOfAll scope used next false statements ∨
      ∃ target, next = some target ∧ linesOfAll scope used next false statements =
        linesOfAll scope used next true statements ++ [.goto target] := by
  fun_induction linesOfAll scope used next true statements with
  | case1 => exact .inl rfl
  | case2 target hdropped => exact .inr ⟨target, by simpa using hdropped, rfl⟩
  | case3 => exact .inl rfl
  | case4 s rest hrest ih =>
      rw [linesOfAll]
      · rcases ih with heq | ⟨target, hnext, heq⟩
        · exact .inl (congrArg _ heq)
        · exact .inr ⟨target, hnext, by rw [heq, List.append_assoc]⟩
      · exact hrest

end Stmt

namespace Flow.Block

variable (scope : Scope) (used : VarRef → Bool) (optimize : Bool)

/-- The lines of a block behind its label. -/
def body (next : Option Nat) (b : Block) : List Line :=
  (b.lines scope used next optimize).tail

theorem lines_eq (next : Option Nat) (b : Block) :
    b.lines scope used next optimize = .label b.start :: b.body scope used optimize next :=
  rfl

theorem label_not_mem_body (next : Option Nat) (b : Block) (address : Nat) :
    .label address ∉ b.body scope used optimize next := by
  unfold body lines
  split
  · exact Stmt.label_not_mem_linesOfAll scope used next optimize b.statements address
  · simp

/-- What is printed of a block: its label if a jump goes there, and all the lines behind it. -/
theorem filter_lines (next : Option Nat) (b : Block) (targets : List Nat) :
    (b.lines scope used next optimize).filter (Line.isKept targets) =
      if b.start ∈ targets then .label b.start :: b.body scope used optimize next
      else b.body scope used optimize next := by
  have hbody : (b.body scope used optimize next).filter (Line.isKept targets) =
      b.body scope used optimize next := by
    refine List.filter_eq_self.2 fun line hline => ?_
    by_contra hlost
    obtain ⟨address, rfl, -⟩ := Line.eq_label_of_not_isKept hlost
    exact b.label_not_mem_body scope used optimize next address hline
  rw [lines_eq, List.filter_cons, hbody]
  simp only [Line.isKept_label]

/-- Every block has one label. -/
theorem count_label_linesOfAll (blocks : List Block) (address : Nat) :
    (linesOfAll scope used optimize blocks).count (.label address) =
      (blocks.map (·.start)).count address := by
  induction blocks with
  | nil => rfl
  | cons b rest ih =>
      have hbody := List.count_eq_zero.2 (b.label_not_mem_body scope used optimize
        (rest.head?.map (·.start)) address)
      rw [linesOfAll, lines_eq, List.count_append, List.count_cons, hbody, ih, List.map_cons,
        List.count_cons]
      simp [Nat.add_comm]

theorem lines_infix (earlier later : List Block) (b : Block) :
    b.lines scope used (later.head?.map (·.start)) optimize <:+:
      linesOfAll scope used optimize (earlier ++ b :: later) := by
  induction earlier with
  | nil => exact (List.prefix_append _ _).isInfix
  | cons first rest ih => exact ih.trans (List.suffix_append _ _).isInfix

theorem lines_optimize (next : Option Nat) (b : Block) :
    b.lines scope used next true = b.lines scope used next false ∨
      ∃ target, next = some target ∧
        b.lines scope used next false = b.lines scope used next true ++ [.goto target] := by
  unfold lines
  split
  · rcases Stmt.linesOfAll_optimize scope used next b.statements with heq | ⟨target, hnext, heq⟩
    · exact .inl (congrArg _ heq)
    · exact .inr ⟨target, hnext, congrArg _ heq⟩
  · exact .inl rfl

/-- Without the jumps to the block printed next, the lines are trimmed. -/
theorem trims_linesOfAll (targets : List Nat) (blocks : List Block) :
    Trims targets (linesOfAll scope used false blocks) (linesOfAll scope used true blocks) := by
  induction blocks with
  | nil => exact .nil
  | cons b rest ih =>
      rw [linesOfAll, linesOfAll]
      rcases b.lines_optimize scope used (rest.head?.map (·.start)) with heq | ⟨target, hnext, heq⟩
      · rw [heq]
        exact ih.append_left _
      · obtain ⟨c, hc, rfl⟩ := Option.map_eq_some_iff.1 hnext
        obtain ⟨later, rfl⟩ := List.head?_eq_some_iff.1 hc
        rw [heq, List.append_assoc]
        exact (Trims.dropGoto ih).append_left _

end Flow.Block

namespace Flow.Function

variable (f : Function) (globals : Globals)

theorem flatMap_targets_printedLines (optimize : Bool) :
    (f.printedLines globals optimize).flatMap Line.targets =
      (f.bodyLines globals optimize).flatMap Line.targets :=
  Line.flatMap_targets_filter _ _

/-- A label is printed if a printed jump goes to it. -/
theorem printedLines_eq (optimize : Bool) :
    f.printedLines globals optimize = (f.bodyLines globals optimize).filter
      (Line.isKept ((f.printedLines globals optimize).flatMap Line.targets)) := by
  rw [flatMap_targets_printedLines]
  rfl

theorem mem_targets_of_label_mem {optimize : Bool} {address : Nat}
    (h : .label address ∈ f.printedLines globals optimize) :
    address ∈ (f.printedLines globals optimize).flatMap Line.targets := by
  rw [printedLines_eq] at h
  exact Line.isKept_label.1 (List.mem_filter.1 h).2

theorem count_label_printedLines (optimize : Bool) (address : Nat) :
    (f.printedLines globals optimize).count (.label address) =
      if address ∈ (f.printedLines globals optimize).flatMap Line.targets then
        (f.graph.blocks.map (·.start)).count address
      else 0 := by
  split
  · rename_i htarget
    rw [printedLines_eq, List.count_filter (Line.isKept_label.2 htarget)]
    exact Block.count_label_linesOfAll _ _ optimize f.graph.blocks address
  · rename_i htarget
    exact List.count_eq_zero.2 fun hlabel => htarget (f.mem_targets_of_label_mem globals hlabel)

/-- What is printed with `optimize` is a trimmed form of what is printed without. -/
theorem isTrimmed_printedLines (hstarts : (f.graph.blocks.map (·.start)).Nodup) :
    IsTrimmed (f.printedLines globals false) (f.printedLines globals true) where
  labels address := by
    rw [count_label_printedLines]
    split
    · exact List.nodup_iff_count.1 hstarts address
    · exact Nat.zero_le 1
  lines := by
    have htrims := Block.trims_linesOfAll (f.scope globals) f.usedVars.contains
      ((f.bodyLines globals true).flatMap Line.targets) f.graph.blocks
    have hsubset : (f.bodyLines globals true).flatMap Line.targets ⊆
        (f.bodyLines globals false).flatMap Line.targets := by
      intro target htarget
      obtain ⟨line, hline, hjump⟩ := List.mem_flatMap.1 htarget
      exact List.mem_flatMap.2 ⟨line, htrims.sublist.subset hline, hjump⟩
    rw [flatMap_targets_printedLines]
    exact htrims.filter hsubset fun _ h => h

/-- The labels in a function as it is printed: the label of a block that a printed jump goes to is
there once, directly before the lines of the block; the lines of other blocks have no label. -/
structure LabelsFit (f : Function) (globals : Globals) (optimize : Bool) : Prop where
  once : ∀ b ∈ f.graph.blocks,
    b.start ∈ (f.printedLines globals optimize).flatMap Line.targets →
      (f.printedLines globals optimize).count (.label b.start) = 1
  placed : ∀ earlier b later, f.graph.blocks = earlier ++ b :: later →
    let body := b.body (f.scope globals) f.usedVars.contains optimize (later.head?.map (·.start))
    (if b.start ∈ (f.printedLines globals optimize).flatMap Line.targets then
      .label b.start :: body else body) <:+: f.printedLines globals optimize
  targeted : ∀ address, .label address ∈ f.printedLines globals optimize →
    address ∈ (f.printedLines globals optimize).flatMap Line.targets

theorem labelsFit (hstarts : (f.graph.blocks.map (·.start)).Nodup) (optimize : Bool) :
    LabelsFit f globals optimize where
  once b hb htarget := by
    rw [count_label_printedLines, if_pos htarget]
    exact List.count_eq_one_of_mem hstarts (List.mem_map_of_mem hb)
  placed earlier b later hblocks := by
    have hinfix := Block.lines_infix (f.scope globals) f.usedVars.contains optimize earlier later b
    have hprinted := hinfix.filter
      (Line.isKept ((f.printedLines globals optimize).flatMap Line.targets))
    rwa [Block.filter_lines, ← hblocks, ← bodyLines, ← printedLines_eq] at hprinted
  targeted _ hlabel := f.mem_targets_of_label_mem globals hlabel

/-- `optimize` preserves control flow.  Executions of what is printed with and without it agree,
from the first line and from the first line of every block whose label is printed in both, and the
labels fit the jumps in both. -/
theorem optimize_preserves_control (f : Function) (globals : Globals)
    (hstarts : (f.graph.blocks.map (·.start)).Nodup) :
    let plain := f.printedLines globals false
    let optimized := f.printedLines globals true
    Agree plain optimized (.before plain) (.before optimized) ∧
      (∀ b ∈ f.graph.blocks, ∀ rest rest', .label b.start :: rest <:+ plain →
        .label b.start :: rest' <:+ optimized →
          Agree plain optimized (.before rest) (.before rest')) ∧
      ∀ optimize, LabelsFit f globals optimize := by
  intro plain optimized
  have htrimmed : IsTrimmed plain optimized := f.isTrimmed_printedLines globals hstarts
  refine ⟨htrimmed.agree_start, ?_, f.labelsFit globals hstarts⟩
  intro b _ rest rest' hplain hoptimized
  have hlabel := hoptimized.subset List.mem_cons_self
  exact htrimmed.agree_label (f.mem_targets_of_label_mem globals hlabel) hplain hoptimized

/-- A jump is left for the label of the first jump that is dropped, none for that of the second
one. -/
theorem optimize_preserves_control_loop :
    let block (start : Nat) (s : Stmt) : Block := ⟨start, [], [], [], none, [s], true⟩
    let f : Function := ⟨Frame.declare 0 "f" 0 0, 0,
      [block 0 (.goto 8), block 8 (.ifGoto (.int 1) 8 16), block 16 (.goto 24),
        block 24 (.ret none)]⟩
    let plain := f.printedLines ⟨.empty, .empty⟩ false
    let optimized := f.printedLines ⟨.empty, .empty⟩ true
    (f.graph.blocks.map (·.start)).Nodup ∧
      plain = [.goto 8, .label 8, .branch "1" 8, .goto 24, .label 24, .text "return;"] ∧
      optimized = [.label 8, .branch "1" 8, .text "return;"] ∧
      Agree plain optimized (.before plain) (.before optimized) ∧
      Agree plain optimized (.before [.branch "1" 8, .goto 24, .label 24, .text "return;"])
        (.before [.branch "1" 8, .text "return;"]) ∧
      ∀ optimize, LabelsFit f ⟨.empty, .empty⟩ optimize := by
  intro block f plain optimized
  have hstarts : (f.graph.blocks.map (·.start)).Nodup := by decide
  have hplain : plain =
      [.goto 8, .label 8, .branch "1" 8, .goto 24, .label 24, .text "return;"] := by decide +kernel
  have hoptimized : optimized = [.label 8, .branch "1" 8, .text "return;"] := by decide +kernel
  obtain ⟨hstart, hlabel, hfit⟩ := optimize_preserves_control f ⟨.empty, .empty⟩ hstarts
  refine ⟨hstarts, hplain, hoptimized, hstart, ?_, hfit⟩
  refine hlabel (block 8 (.ifGoto (.int 1) 8 16)) (by simp [f]) _ _ ?_ ?_
  · exact ⟨[.goto 8], hplain.symm⟩
  · exact ⟨[], hoptimized.symm⟩

end Flow.Function

end ScriptDecompiler
