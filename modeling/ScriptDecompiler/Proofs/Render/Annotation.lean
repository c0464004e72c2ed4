import ScriptDecompiler.Proofs.Render.Comments
import ScriptDecompiler.Proofs.Render.Declarations

/-!
# The text of an annotated unit

The statements after an annotated run are those after a run without annotations, with a comment for
each instruction.  So the text of the annotated unit, without the lines of the comments, is compared
with the other text as in `Proofs.Render.Comments`: nothing is missing in it, and it is the same
text exactly if no visited block hides a jump or nothing is optimized.
-/

namespace ScriptDecompiler.Machine

open ScriptDecompiler.Bytecode (Instruction)
open ScriptDecompiler.Flow (Block Function)

theorem Program.functions_withoutComments (p : Program) :
    p.withoutComments.functions = p.functions.map Function.withoutComments := by
  unfold Program.functions Program.withoutComments
  rw [Array.toList_map, List.zipWith_map_right, List.map_zipWith]
  rfl

section Units

variable {u : ScriptUnit} {natives : Native.Database} {instructions : List Instruction}
  {p : Program}

theorem run_withoutComments (hrun : (u.program instructions).run u natives true = (none, p)) :
    (u.program instructions).run u natives false = (none, p.withoutComments) := by
  have hsilent := decompileFunctions_silent (u.program instructions) u natives true
    (List.range (u.program instructions).graphs.size)
  rw [withoutComments_program] at hsilent
  unfold Program.run at hrun ⊢
  rw [hsilent, hrun]

/-- A unit that is decoded and replayed without a fault. -/
theorem decompile_eq {annotate : Bool} (hcode : u.instructions = .ok instructions)
    (hrun : (u.program instructions).run u natives annotate = (none, p)) (optimize : Bool) :
    u.decompile natives ⟨.pseudo, annotate, optimize⟩ =
      .ok ⟨renderUnit p.functions p.store.globals optimize, p.store.diagnostics.toList⟩ := by
  unfold ScriptUnit.decompile
  simp only [hcode, hrun]

/-- The comments in the visited blocks of an annotated unit are those of its instructions. -/
theorem exists_instruction_of_run (hcode : u.instructions = .ok instructions)
    (hrun : (u.program instructions).run u natives true = (none, p)) {f : Function}
    (hf : f ∈ p.functions) {b : Block} (hb : b ∈ f.graph.blocks) (hvisited : b.visited = true)
    {text : String} (htext : .comment text ∈ b.statements) :
    ∃ i ∈ instructions, text = "asm(\"" ++ i.text ++ "\")" := by
  obtain ⟨index, hindex, hget⟩ := List.getElem_of_mem hf
  have hfunction : p.function? index = some f :=
    (function?_eq p index).trans (List.getElem?_eq_some_iff.2 ⟨hindex, hget⟩)
  obtain ⟨body, hpart, hbuilt, hrecorded⟩ := exists_part_of_run hcode hrun hfunction
  obtain ⟨before, after, hempty, hreplay, hstatements⟩ := hrecorded b hb hvisited
  rw [hstatements, show after = (replay _ before b.instructions).2 by rw [hreplay]] at htext
  rcases exists_instruction_of_replay _ htext rfl with hearlier | ⟨i, hi, hcomment⟩
  · rw [hempty] at hearlier
    cases hearlier
  · exact ⟨i, hpart.subset ((hbuilt.isInfix_block hb).subset hi), Stmt.comment.inj hcomment⟩

/-- Annotation adds comments.  The text of an annotated unit is put together from pieces.  Those
that are marked are the lines of comments, each with an instruction of the unit; without them the
text has at least the pieces of the text without annotations.  It is the same text unless jumps are
optimized and there is a visited block in which only comments come behind a jump to the block
printed next: annotated, this jump is not the last statement of its block, and is printed. -/
theorem decompile_annotated (hcode : u.instructions = .ok instructions)
    (hrun : (u.program instructions).run u natives true = (none, p)) (optimize : Bool) :
    let pieces := unitCommentPieces p.functions p.store.globals optimize
    let reports := p.store.diagnostics.toList
    u.decompile natives ⟨.pseudo, true, optimize⟩ =
        .ok ⟨String.join (pieces.map (·.1)), reports⟩ ∧
      (∀ piece ∈ pieces, piece.2 = true →
        ∃ i ∈ instructions, piece.1 = Line.indented ("/* asm(\"" ++ i.text ++ "\") */")) ∧
      ∃ plain : List String,
        u.decompile natives ⟨.pseudo, false, optimize⟩ = .ok ⟨String.join plain, reports⟩ ∧
        plain.Sublist (unmarked pieces) ∧
        (String.join (unmarked pieces) = String.join plain ↔
          ¬ (optimize = true ∧ ∃ f ∈ p.functions, f.HidesJump)) := by
  intro pieces reports
  have hannotated := decompile_eq hcode hrun optimize
  have hplain := decompile_eq hcode (run_withoutComments hrun) optimize
  rw [Program.functions_withoutComments, ← join_unitCommentPieces] at hplain
  rw [← join_unitCommentPieces] at hannotated
  refine ⟨hannotated, fun piece hpiece hmark => ?_, _, hplain, ?_, ?_⟩
  · obtain ⟨f, hf, b, hb, hvisited, text, htext, hline⟩ :=
      exists_comment_of_mem_unitCommentPieces _ _ optimize hpiece hmark
    obtain ⟨i, hi, rfl⟩ := exists_instruction_of_run hcode hrun hf hb hvisited htext
    refine ⟨i, hi, hline.trans (congrArg Line.indented ?_)⟩
    simp only [String.append_assoc]
    rfl
  · exact unitCommentPieces_sublist _ _ optimize
  · rw [join_unitCommentPieces]
    exact join_unmarked_eq_iff _ _ optimize

end Units

/-- A jump to the next block without anything behind it is left out, annotated or not. -/
theorem decompile_annotated_jump :
    let code : List UInt8 := [45, 0, 0, 0, 1, 102, 85, 0, 0, 46, 0, 0]
    let u : ScriptUnit := ⟨"u", code, code.length, [], #[], []⟩
    ∃ instructions p, u.instructions = .ok instructions ∧
      (u.program instructions).run u .empty true = (none, p) ∧
      let pieces := unitCommentPieces p.functions p.store.globals true
      unmarked pieces = ["void f() \x7b\n", "    return;\n", "\x7d\n"] ∧
      (∀ piece ∈ pieces, piece.2 = true →
        ∃ i ∈ instructions, piece.1 = Line.indented ("/* asm(\"" ++ i.text ++ "\") */")) ∧
      u.decompile .empty ⟨.pseudo, true, true⟩ = .ok ⟨String.join (pieces.map (·.1)), []⟩ ∧
      u.decompile .empty ⟨.pseudo, false, true⟩ = .ok ⟨String.join (unmarked pieces), []⟩ := by
  intro code u
  let instructions : List Instruction :=
    [⟨0, 45, .enter 0 0 "f", 6⟩, ⟨6, 85, .branch 0 9, 3⟩, ⟨9, 46, .ret 0 0, 3⟩]
  have hcode : u.instructions = .ok instructions := by decide +kernel
  have hwithin : ((u.program instructions).decompileFunctionsWithin 3 u .empty true
      (List.range (u.program instructions).graphs.size)).map (fun out => (out.1,
        unmarked (unitCommentPieces out.2.functions out.2.store.globals true),
        decide (∃ f ∈ out.2.functions, f.HidesJump), out.2.store.diagnostics.toList)) =
      some (none, ["void f() \x7b\n", "    return;\n", "\x7d\n"], false, []) := by decide +kernel
  obtain ⟨⟨fault, p⟩, hout, hwithin⟩ := Option.map_eq_some_iff.1 hwithin
  simp only [Prod.mk.injEq] at hwithin
  obtain ⟨rfl, hpieces, hhides, hreports⟩ := hwithin
  have hrun : (u.program instructions).run u .empty true = (none, p) :=
    decompileFunctions_of_within hout
  obtain ⟨hannotated, hmarked, plain, hplain, -, hsame⟩ := decompile_annotated hcode hrun true
  rw [hreports] at hannotated hplain
  rw [← hsame.2 fun h => of_decide_eq_false hhides h.2] at hplain
  exact ⟨instructions, p, hcode, hrun, hpieces, hmarked, hannotated, hplain⟩

/-- A jump to the block printed next with an instruction behind it that does nothing.  Without
annotations the jump is left out; with them it is followed by a comment, so it is printed, and so is
the label that it goes to. -/
theorem exists_join_unmarked_ne :
    let code : List UInt8 := [45, 0, 0, 0, 1, 102, 85, 1, 0, 0, 46, 0, 0]
    let u : ScriptUnit := ⟨"u", code, code.length, [], #[], []⟩
    ∃ instructions p plain, u.instructions = .ok instructions ∧
      (u.program instructions).run u .empty true = (none, p) ∧
      let pieces := unitCommentPieces p.functions p.store.globals true
      u.decompile .empty ⟨.pseudo, true, true⟩ = .ok ⟨String.join (pieces.map (·.1)), []⟩ ∧
      u.decompile .empty ⟨.pseudo, false, true⟩ = .ok ⟨plain, []⟩ ∧
      plain = "void f() \x7b\n    return;\n\x7d\n" ∧
      String.join (unmarked pieces) =
        "void f() \x7b\n    goto L_0000000a;\nL_0000000a:\n    return;\n\x7d\n" ∧
      String.join (unmarked pieces) ≠ plain := by
  intro code u
  let instructions : List Instruction := [⟨0, 45, .enter 0 0 "f", 6⟩, ⟨6, 85, .branch 1 10, 3⟩,
    ⟨9, 0, .none, 1⟩, ⟨10, 46, .ret 0 0, 3⟩]
  have hcode : u.instructions = .ok instructions := by decide +kernel
  have hwithin : ((u.program instructions).decompileFunctionsWithin 3 u .empty true
      (List.range (u.program instructions).graphs.size)).map (fun out => (out.1,
        String.join (unmarked (unitCommentPieces out.2.functions out.2.store.globals true)),
        renderUnit (out.2.functions.map Function.withoutComments) out.2.store.globals true,
        out.2.store.diagnostics.toList)) =
      some (none,
        "void f() \x7b\n    goto L_0000000a;\nL_0000000a:\n    return;\n\x7d\n",
        "void f() \x7b\n    return;\n\x7d\n", []) := by decide +kernel
  obtain ⟨⟨fault, p⟩, hout, hwithin⟩ := Option.map_eq_some_iff.1 hwithin
  simp only [Prod.mk.injEq] at hwithin
  obtain ⟨rfl, hpieces, hplain, hreports⟩ := hwithin
  have hrun : (u.program instructions).run u .empty true = (none, p) :=
    decompileFunctions_of_within hout
  have hannotated := decompile_eq hcode hrun true
  have hsilent := decompile_eq hcode (run_withoutComments hrun) true
  rw [Program.functions_withoutComments] at hsilent
  rw [← join_unitCommentPieces, hreports] at hannotated
  refine ⟨instructions, p, _, hcode, hrun, hannotated, ?_, rfl, hpieces, ?_⟩
  · rw [hsilent, ← hplain, ← hreports]
    rfl
  · rw [hpieces]
    decide

end ScriptDecompiler.Machine
