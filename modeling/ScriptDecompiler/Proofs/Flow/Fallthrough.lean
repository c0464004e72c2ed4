import ScriptDecompiler.Proofs.Flow.Edges

/-!
# Falling through

Where an instruction lets control fall through, the address behind it decides whether an
edge leads on.  The instruction that comes next stands in the same block, or it starts
the next one.  An edge leads there if nothing stands between the two.  If a sentinel
does, then the next instruction starts with the next page, and an edge leads to it only
if the block jumps there as well.
-/

namespace ScriptDecompiler.Flow

open ScriptDecompiler.Bytecode (Instruction Cursor Layout decodeCode decodeCode_eq_ok_iff
  opensSentinel Follows follows_of_neighbours)

section Lists

variable {α β : Type}

/-- Two elements in a row of concatenated lists stand in one of these, or they are the
last one and the first one of two lists in a row. -/
theorem neighbours_flatMap {pieces : List β} {elements : β → List α}
    (hne : ∀ piece ∈ pieces, elements piece ≠ []) {x y : α}
    (h : [x, y] <:+: pieces.flatMap elements) :
    (∃ piece ∈ pieces, [x, y] <:+: elements piece) ∨
      ∃ before piece next after, pieces = before ++ piece :: next :: after ∧
        (elements piece).getLast? = some x ∧ (elements next).head? = some y := by
  induction pieces with
  | nil => exact absurd (List.infix_nil.1 h) (by simp)
  | cons piece pieces ih =>
      rw [List.flatMap_cons, List.infix_append_iff] at h
      rcases h with h | h | ⟨front, back, hsplit, hfront, hback⟩
      · exact Or.inl ⟨piece, List.mem_cons_self, h⟩
      · rcases ih (fun p hp => hne p (List.mem_cons_of_mem _ hp)) h with
          ⟨p, hp, hpart⟩ | ⟨before, p, next, after, rfl, hlast, hhead⟩
        · exact Or.inl ⟨p, List.mem_cons_of_mem _ hp, hpart⟩
        · exact Or.inr ⟨piece :: before, p, next, after, rfl, hlast, hhead⟩
      · match front, back, hsplit with
        | [], _, rfl =>
            -- Nothing of the two is in the first list after all.
            rcases ih (fun p hp => hne p (List.mem_cons_of_mem _ hp)) hback.isInfix with
              ⟨p, hp, hpart⟩ | ⟨before, p, next, after, rfl, hlast, hhead⟩
            · exact Or.inl ⟨p, List.mem_cons_of_mem _ hp, hpart⟩
            · exact Or.inr ⟨piece :: before, p, next, after, rfl, hlast, hhead⟩
        | [_, _], [], rfl => exact Or.inl ⟨piece, List.mem_cons_self, hfront.isInfix⟩
        | [_], [_], rfl =>
            obtain ⟨earlier, hearlier⟩ := hfront
            obtain ⟨later, hlater⟩ := hback
            cases pieces with
            | nil => cases hlater
            | cons next after =>
                obtain ⟨first, rest, hcons⟩ := List.exists_cons_of_ne_nil
                  (hne next (List.mem_cons_of_mem _ List.mem_cons_self))
                rw [List.flatMap_cons, hcons] at hlater
                cases hlater
                refine Or.inr ⟨[], piece, next, after, rfl, ?_, ?_⟩
                · rw [← hearlier, List.getLast?_concat]
                · rw [hcons, List.head?_cons]

end Lists

section Fallthrough

variable {code : List UInt8} {codeLength : Nat} {instructions : List Instruction} {f : Function}

/-- Two instructions of a function in a row, the first of which lets control fall
through.  Either both are in one block, or the second starts the block behind that of the
first.  In that case an edge leads there if the second stands at the end of the first, and
if the block jumps there; but the gap of a sentinel between them is not bridged. -/
theorem successor_of_neighbours (h : decodeCode code codeLength = .ok instructions)
    (hf : f ∈ (buildFunctions instructions).1) {i j : Instruction}
    (hij : [i, j] <:+: f.graph.blocks.flatMap (·.instructions))
    (hfalls : i.operation.endsBlock = false) :
    Follows code instructions i j.address ∧
      ∃ b ∈ f.graph.blocks, i ∈ b.instructions ∧
        (j ∈ b.instructions ∨
          ∃ next ∈ f.graph.blocks, next.start = j.address ∧ next.instructions.head? = some j ∧
            b.endAddress = i.nextAddress ∧
            (j.address ∈ b.successors ↔
              j.address = i.nextAddress ∨ j.address ∈ b.instructions.flatMap transfers)) := by
  obtain ⟨body, hbody, hbuilt⟩ := built_of_mem_buildFunctions h hf
  refine ⟨follows_of_neighbours h ((hbuilt.concat ▸ hij).trans hbody), ?_⟩
  rcases neighbours_flatMap (fun b hb => hbuilt.instructions_ne_nil hb) hij with
    ⟨b, hb, hpair⟩ | ⟨before, b, next, after, hblocks, hlast, hhead⟩
  · exact ⟨b, hb, hpair.subset (by simp), Or.inl (hpair.subset (by simp))⟩
  · have hb : b ∈ f.graph.blocks := by simp [hblocks]
    have hnext : next ∈ f.graph.blocks := by simp [hblocks]
    have hend := Block.endAddress_eq hlast
    have hstart : next.start = j.address := by
      obtain ⟨-, first, hfirst, hkey⟩ := hbuilt.keyed next hnext
      rw [hhead, Option.some.injEq] at hfirst
      rw [← hkey, hfirst]
    refine ⟨b, hb, List.mem_of_getLast? hlast, Or.inr ⟨next, hnext, hstart, hhead, hend, ?_⟩⟩
    rw [hbuilt.linked b hb, Block.mem_exits, hend]
    constructor
    · rintro ⟨hjump | ⟨-, haddress⟩, -⟩
      · exact Or.inr hjump
      · exact Or.inl haddress
    · intro hedge
      refine ⟨?_, next, hnext, hstart⟩
      rcases hedge with haddress | hjump
      · exact Or.inr ⟨⟨i, hlast, hfalls⟩, haddress⟩
      · exact Or.inl hjump

/-- An ENTER in front of a loop, which is a block of its own. -/
theorem successor_of_neighbours_loop :
    let code : List UInt8 := [45, 0, 2, 0, 1, 102, 111, 86, 252, 255, 46, 0, 0]
    let enter : Instruction := ⟨0, 45, .enter 0 2 "f", 6⟩
    let push : Instruction := ⟨6, 111, .impliedInt 1, 1⟩
    let instructions : List Instruction :=
      [enter, push, ⟨7, 86, .branch (-4) 6, 3⟩, ⟨10, 46, .ret 0 0, 3⟩]
    decodeCode code 13 = .ok instructions ∧
      ∃ f, (buildFunctions instructions).1 = [f] ∧
        [enter, push] <:+: f.graph.blocks.flatMap (·.instructions) ∧
        enter.operation.endsBlock = false ∧
        ∃ b ∈ f.graph.blocks, enter ∈ b.instructions ∧ 6 ∈ b.successors := by
  intro code enter push instructions
  have hcode : decodeCode code 13 = .ok instructions := by decide +kernel
  obtain ⟨f, hf⟩ := List.length_eq_one_iff.1
    (show (buildFunctions instructions).1.length = 1 by decide +kernel)
  have hbuilt : (buildFunctions instructions).1.map (fun f =>
      (f.graph.blocks.flatMap (·.instructions), f.graph.blocks.map (·.instructions))) =
        [(instructions, [[enter], [push, ⟨7, 86, .branch (-4) 6, 3⟩], [⟨10, 46, .ret 0 0, 3⟩]])] := by
    decide +kernel
  rw [hf] at hbuilt
  obtain ⟨hconcat, hparts⟩ := Prod.mk.inj (List.singleton_inj.1 hbuilt)
  have hpair : [enter, push] <:+: f.graph.blocks.flatMap (·.instructions) := by
    rw [hconcat]
    exact ⟨[], _, rfl⟩
  have hfalls : enter.operation.endsBlock = false := by decide +kernel
  obtain ⟨-, b, hb, henter, hwhere⟩ :=
    successor_of_neighbours hcode (hf ▸ List.mem_cons_self) hpair hfalls
  refine ⟨hcode, f, hf, hpair, hfalls, b, hb, henter, ?_⟩
  rcases hwhere with htogether | ⟨_, -, -, -, -, hedge⟩
  · -- No block holds both of them.
    have hmem : b.instructions ∈ f.graph.blocks.map (·.instructions) := List.mem_map_of_mem hb
    rw [hparts] at hmem
    have hapart : ∀ part ∈ [[enter], [push, ⟨7, 86, .branch (-4) 6, 3⟩], [⟨10, 46, .ret 0 0, 3⟩]],
        ¬(enter ∈ part ∧ push ∈ part) := by decide +kernel
    exact absurd ⟨henter, htogether⟩ (hapart _ hmem)
  · exact hedge.2 (Or.inl rfl)

end Fallthrough

/-- An ENTER, a sentinel, and a loop at the beginning of the next page.  It does not
matter what stands in the gap, only how long it is. -/
theorem layout_across_gap {gap : List UInt8} (hgap : gap.length = 16376) :
    Layout ([45, 0, 2, 0, 1, 102, 0, 0] ++ gap ++ [111, 86, 252, 255, 46, 0, 0]) false 0
      [⟨0, 45, .enter 0 2 "f", 6⟩, ⟨6, 0, .none, 1⟩, ⟨16384, 111, .impliedInt 1, 1⟩,
        ⟨16385, 86, .branch (-4) 16384, 3⟩, ⟨16388, 46, .ret 0 0, 3⟩] [7] := by
  have hfront : ([45, 0, 2, 0, 1, 102, 0, 0] ++ gap : List UInt8).length = 16384 := by
    simp [hgap]
  generalize hcode : ([45, 0, 2, 0, 1, 102, 0, 0] ++ gap ++ [111, 86, 252, 255, 46, 0, 0] :
    List UInt8) = code
  have hnext : ∀ (i : Instruction) (before covered rest : List UInt8),
      code = before ++ (covered ++ rest) → before.length = i.address →
      (⟨i.address, covered⟩ : Cursor).next = .decoded i ⟨i.nextAddress, []⟩ →
      (Cursor.ofCode code i.address).next = .decoded i ⟨i.nextAddress, rest⟩ := by
    intro i before covered rest hsplit hbefore hcovered
    rw [hsplit]
    exact Cursor.next_ofCode_append hbefore hcovered rest
  have henter := hnext ⟨0, 45, .enter 0 2 "f", 6⟩ [] [45, 0, 2, 0, 1, 102] _ hcode.symm rfl
    (by decide +kernel)
  have hnop := hnext ⟨6, 0, .none, 1⟩ [45, 0, 2, 0, 1, 102] [0] _ hcode.symm rfl
    (by decide +kernel)
  have hsentinel := hnext ⟨7, 0, .none, 1⟩ [45, 0, 2, 0, 1, 102, 0] [0] _ hcode.symm rfl
    (by decide +kernel)
  have hpush := hnext ⟨16384, 111, .impliedInt 1, 1⟩ _ [111] _ hcode.symm hfront
    (by decide +kernel)
  have hbranch := hnext ⟨16385, 86, .branch (-4) 16384, 3⟩
    ([45, 0, 2, 0, 1, 102, 0, 0] ++ gap ++ [111]) [86, 252, 255] [46, 0, 0]
    (by rw [← hcode, List.append_assoc _ [111]]; rfl)
    (by rw [List.length_append, hfront]; rfl) (by decide +kernel)
  have hret := hnext ⟨16388, 46, .ret 0 0, 3⟩
    ([45, 0, 2, 0, 1, 102, 0, 0] ++ gap ++ [111, 86, 252, 255]) [46, 0, 0] []
    (by rw [← hcode, List.append_assoc _ [111, 86, 252, 255]]; rfl)
    (by rw [List.length_append, hfront]; rfl) (by decide +kernel)
  have hend : code.length ≤ 16391 := by
    rw [← hcode, List.length_append, hfront]
    exact Nat.le_refl _
  have hopens : opensSentinel ⟨6, 0, .none, 1⟩ = true := by decide +kernel
  refine .instruction henter (by simp) (.instruction hnop (by decide +kernel) ?_)
  rw [hopens]
  refine .sentinel hsentinel (by decide +kernel) ?_
  exact .instruction hpush (by simp) (.instruction hbranch (by decide +kernel)
    (.instruction hret (by decide +kernel) (.finished hend)))

/-- The sentinel stands between the block with the ENTER and the block with the loop, and
no edge leads from the one to the other. -/
theorem exists_fallthrough_without_edge :
    let code : List UInt8 :=
      [45, 0, 2, 0, 1, 102, 0, 0] ++ List.replicate 16376 0 ++ [111, 86, 252, 255, 46, 0, 0]
    let nop : Instruction := ⟨6, 0, .none, 1⟩
    let push : Instruction := ⟨16384, 111, .impliedInt 1, 1⟩
    let instructions : List Instruction := [⟨0, 45, .enter 0 2 "f", 6⟩, nop, push,
      ⟨16385, 86, .branch (-4) 16384, 3⟩, ⟨16388, 46, .ret 0 0, 3⟩]
    decodeCode code 16391 = .ok instructions ∧
      ∃ f, (buildFunctions instructions).1 = [f] ∧
        [nop, push] <:+: f.graph.blocks.flatMap (·.instructions) ∧
        nop.operation.endsBlock = false ∧
        ¬∃ b ∈ f.graph.blocks, nop ∈ b.instructions ∧
          (push ∈ b.instructions ∨
            ∃ next ∈ f.graph.blocks, next.instructions.head? = some push ∧
              next.start ∈ b.successors) := by
  intro code nop push instructions
  have hlength : code.length = 16391 := by
    rw [List.length_append, List.length_append, List.length_replicate]
    rfl
  have hcode : decodeCode code 16391 = .ok instructions := by
    refine decodeCode_eq_ok_iff.2 ⟨Nat.le_of_eq hlength.symm, [7], ?_⟩
    rw [List.take_of_length_le (Nat.le_of_eq hlength)]
    exact layout_across_gap List.length_replicate
  obtain ⟨f, hf⟩ := List.length_eq_one_iff.1
    (show (buildFunctions instructions).1.length = 1 by decide +kernel)
  have hconcat : (buildFunctions instructions).1.map (fun f =>
      f.graph.blocks.flatMap (·.instructions)) = [instructions] := by decide +kernel
  have hnone : ∀ g ∈ (buildFunctions instructions).1, ¬∃ b ∈ g.graph.blocks,
      nop ∈ b.instructions ∧ (push ∈ b.instructions ∨
        ∃ next ∈ g.graph.blocks, next.instructions.head? = some push ∧
          next.start ∈ b.successors) := by decide +kernel
  rw [hf] at hconcat hnone
  have hbody : f.graph.blocks.flatMap (·.instructions) = instructions :=
    List.singleton_inj.1 hconcat
  refine ⟨hcode, f, hf, ?_, by decide +kernel, hnone f List.mem_cons_self⟩
  rw [hbody]
  exact ⟨[⟨0, 45, .enter 0 2 "f", 6⟩], _, rfl⟩

end ScriptDecompiler.Flow
