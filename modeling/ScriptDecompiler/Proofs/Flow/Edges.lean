import ScriptDecompiler.Proofs.Bytecode.Neighbours
import ScriptDecompiler.Proofs.Flow.Functions
import ScriptDecompiler.Proofs.Flow.Reachability

/-!
# The edges of a function

An edge leads from a block to another one if an instruction of the block transfers
control to the start of the other, wherever in the block the instruction stands: one
behind a RET counts like any other.  A conditional branch is always the last
instruction of its block, and a block that starts where another one ends is the next
one in order.
-/

namespace ScriptDecompiler.Flow

open ScriptDecompiler.Bytecode (Instruction HoldsTargets decodeCode follows_of_neighbours
  holdsTargets_of_mem)

/-- What decoding guarantees of the instructions of a function. -/
structure Decoded (body : List Instruction) : Prop extends Ascending body where
  adjacent : ∀ i j, [i, j] <:+: body → j.address = i.nextAddress ∨ i.operation = .nop
  targets : ∀ i ∈ body, HoldsTargets i

theorem decoded_of_part {code : List UInt8} {codeLength : Nat} {instructions : List Instruction}
    (h : decodeCode code codeLength = .ok instructions) {body : List Instruction}
    (hbody : body <:+: instructions) : Decoded body := by
  refine ⟨(ascending_of_decodeCode h).sublist hbody.sublist, fun i j hij => ?_,
    fun i hi => holdsTargets_of_mem h (hbody.subset hi)⟩
  exact (follows_of_neighbours h (hij.trans hbody)).imp id And.left

/-- Does each block lead to those blocks that it passes control to? -/
def Graph.Linked (g : Graph) : Prop :=
  ∀ b ∈ g.blocks, ∀ s, s ∈ b.successors ↔ s ∈ b.exits ∧ ∃ target ∈ g.blocks, target.start = s

theorem linked_linkBlocks (entry : Nat) (blocks : List Block) :
    Graph.Linked ⟨entry, linkBlocks blocks⟩ := by
  intro b hb s
  simp only [linkBlocks, List.map_map, List.mem_map, Function.comp] at hb ⊢
  obtain ⟨original, horiginal, rfl⟩ := hb
  -- Linking leaves the instructions of a block alone, and so its exits.
  show s ∈ original.exitsAmong _ ↔ s ∈ original.exits ∧ _
  rw [Block.exitsAmong, mem_firstOccurrences, List.mem_filter, List.contains_iff_mem,
    List.mem_map]
  refine and_congr_right fun _ => ⟨?_, ?_⟩
  · rintro ⟨target, htarget, hs⟩
    exact ⟨_, ⟨target, htarget, rfl⟩, hs⟩
  · rintro ⟨_, ⟨target, htarget, rfl⟩, hs⟩
    exact ⟨target, htarget, hs⟩

theorem linked_of_mem_buildFunctions {instructions : List Instruction} {f : Function}
    (hf : f ∈ (buildFunctions instructions).1) : f.graph.Linked := by
  obtain ⟨first, rest, -, -, -, -, hgraph⟩ := exists_eq_of_mem_buildFunctions hf
  rw [hgraph]
  exact linked_linkBlocks _ _

/-- Is a graph the one of a function with the code `body`, apart from what replaying has
left behind? -/
structure Graph.Built (g : Graph) (body : List Instruction) : Prop
    extends g.Partitions body where
  decoded : Decoded body
  linked : g.Linked

/-- The code of a function is a stretch of the code of its unit. -/
theorem built_of_mem_buildFunctions {code : List UInt8} {codeLength : Nat}
    {instructions : List Instruction} (h : decodeCode code codeLength = .ok instructions)
    {f : Function} (hf : f ∈ (buildFunctions instructions).1) :
    ∃ body, body <:+: instructions ∧ f.graph.Built body := by
  obtain ⟨body, hpiece, hbody⟩ := List.mem_filterMap.1 hf
  have hpart : body <:+: instructions := by
    rw [← flatten_cutBefore Instruction.isEnter instructions]
    exact (List.infix_of_mem_flatten hpiece).trans (List.suffix_append _ _).isInfix
  have hdecoded := decoded_of_part h hpart
  obtain ⟨enter, rest, hcons, henter, hrest⟩ := opens_of_mem_pieces body hpiece
  obtain ⟨f', hf', hhas⟩ := ofBody?_eq_some hcons henter hrest hdecoded.toAscending
  obtain rfl : f' = f := Option.some.inj (hf'.symm.trans hbody)
  exact ⟨body, hpart, hhas.partitions, hdecoded, linked_of_mem_buildFunctions hf⟩

section Blocks

variable {g : Graph} {body : List Instruction} {b : Block}

/-- What a graph is built from does not depend on what replaying leaves behind. -/
theorem Graph.Partitions.of_bare (h : g.bare.Partitions body) : g.Partitions body := by
  have hforall : ∀ {P : Block → Prop}, (∀ b ∈ g.bare.blocks, P b) → ∀ b ∈ g.blocks, P b.bare :=
    fun hall b hb => hall b.bare (List.mem_map_of_mem hb)
  have hascending : g.blocks.Pairwise (fun a b => a.start < b.start) := by
    simpa [Graph.bare, Block.bare, List.pairwise_map] using h.ascending
  refine ⟨?_, hascending, fun b hb => ⟨find?_start hascending hb, (hforall h.keyed b hb).2⟩,
    ?_, hforall h.leads, hforall h.reason⟩
  · rw [← h.concat, Graph.bare, List.flatMap_map]
    rfl
  · obtain ⟨b, hb, hhead⟩ := h.entered
    rw [Graph.block?_bare] at hb
    obtain ⟨original, horiginal, rfl⟩ := Option.map_eq_some_iff.1 hb
    exact ⟨original, horiginal, hhead⟩

theorem Graph.Linked.of_bare (h : g.bare.Linked) : g.Linked := by
  intro b hb s
  refine (h b.bare (List.mem_map_of_mem hb) s).trans (and_congr_right fun _ => ?_)
  simp [Graph.bare, Block.bare]

theorem Graph.Built.of_bare (h : g.bare.Built body) : g.Built body :=
  ⟨h.toPartitions.of_bare, h.decoded, h.linked.of_bare⟩

theorem Graph.Partitions.isInfix_block (h : g.Partitions body) (hb : b ∈ g.blocks) :
    b.instructions <:+: body := by
  rw [← h.concat]
  exact List.infix_of_mem_flatten (List.mem_map_of_mem hb)

theorem Graph.Partitions.instructions_ne_nil (h : g.Partitions body) (hb : b ∈ g.blocks) :
    b.instructions ≠ [] := by
  obtain ⟨-, first, hfirst, -⟩ := h.keyed b hb
  exact List.ne_nil_of_mem (List.mem_of_head? hfirst)

theorem Block.endAddress_eq {last : Instruction} (h : b.instructions.getLast? = some last) :
    b.endAddress = last.nextAddress := by
  unfold Block.endAddress
  rw [h]

/-- Does control leave a block at its end? -/
def Block.FallsOff (b : Block) : Prop :=
  ∃ last, b.instructions.getLast? = some last ∧ last.operation.endsBlock = false

/-- Where a block passes control to. -/
theorem Block.mem_exits {s : Nat} :
    s ∈ b.exits ↔ s ∈ b.instructions.flatMap transfers ∨ b.FallsOff ∧ s = b.endAddress := by
  unfold Block.exits Block.endAddress Block.FallsOff
  rw [List.mem_append]
  cases hlast : b.instructions.getLast? with
  | none => simp
  | some last =>
      cases hends : last.operation.endsBlock <;> simp [hends]

theorem Graph.Built.holdsTargets (h : g.Built body) (hb : b ∈ g.blocks) :
    ∀ i ∈ b.instructions, HoldsTargets i :=
  fun i hi => h.decoded.targets i ((h.isInfix_block hb).subset hi)

/-- A block ends before the next one starts. -/
theorem Graph.Built.endAddress_le (h : g.Built body) {before after : List Block} {next : Block}
    (hblocks : g.blocks = before ++ b :: next :: after) : b.endAddress ≤ next.start := by
  have hb : b ∈ g.blocks := by simp [hblocks]
  have hnext : next ∈ g.blocks := by simp [hblocks]
  obtain ⟨-, first, hfirst, hstart⟩ := h.keyed next hnext
  have hlast := List.getLast?_eq_some_getLast (h.instructions_ne_nil hb)
  have hapart := h.decoded.apart
  rw [← h.concat, hblocks, List.flatMap_append, List.flatMap_cons, List.flatMap_cons] at hapart
  have hbehind := (List.pairwise_append.1 (List.pairwise_append.1 hapart).2.1).2.2
  rw [Block.endAddress_eq hlast, ← hstart]
  exact hbehind _ (List.mem_of_getLast? hlast) _
    (List.mem_append_left _ (List.mem_of_head? hfirst))

/-- A block that starts where another one ends is the next one. -/
theorem Graph.Built.next_of_start_eq (h : g.Built body) (hb : b ∈ g.blocks) {target : Block}
    (htarget : target ∈ g.blocks) (hstart : target.start = b.endAddress) :
    ∃ before after, g.blocks = before ++ b :: target :: after := by
  obtain ⟨before, rest, hblocks⟩ := List.append_of_mem hb
  have hascending := h.ascending
  rw [hblocks, List.pairwise_append] at hascending
  obtain ⟨-, hrest, hbefore⟩ := hascending
  -- The end of a block is behind its start, so the other block is none of those before.
  have hlt : b.start < b.endAddress := by
    obtain ⟨-, first, hfirst, hkey⟩ := h.keyed b hb
    have hlast := List.getLast?_eq_some_getLast (h.instructions_ne_nil hb)
    rw [Block.endAddress_eq hlast, ← hkey]
    exact ((h.decoded.sublist (h.isInfix_block hb).sublist).inside hfirst hlast
      (List.mem_of_head? hfirst)).2
  rw [hblocks, List.mem_append, List.mem_cons] at htarget
  rcases htarget with hin | rfl | hin
  · have hless := hbefore target hin b List.mem_cons_self
    omega
  · omega
  · cases rest with
    | nil => cases hin
    | cons next after =>
        have hle := h.endAddress_le hblocks
        rcases List.mem_cons.1 hin with rfl | hin
        · exact ⟨before, after, hblocks⟩
        · have hless := (List.pairwise_cons.1 (List.pairwise_cons.1 hrest).2).1 target hin
          omega

/-- A conditional branch is the last instruction of its block. -/
theorem Graph.Built.eq_nil_of_isConditionalBranch (h : g.Built body) (hb : b ∈ g.blocks)
    {before after : List Instruction} {i : Instruction}
    (hsplit : b.instructions = before ++ i :: after)
    (hconditional : i.operation.isConditionalBranch = true) : after = [] := by
  cases after with
  | nil => rfl
  | cons j after =>
      have hpair : [i, j] <:+: b.instructions := ⟨before, after, by simp [hsplit]⟩
      have hbody := hpair.trans (h.isInfix_block hb)
      have haddress : j.address = i.nextAddress := by
        refine (h.decoded.adjacent i j hbody).resolve_right fun hnop => ?_
        rw [hnop] at hconditional
        cases hconditional
      -- A block starts behind the branch, and so with the instruction there.
      have hhead := h.leads b hb j (hpair.subset (by simp))
        ⟨i, hbody.subset (by simp), Or.inr ⟨hconditional, haddress⟩⟩
      have hascending := (h.decoded.sublist (h.isInfix_block hb).sublist).pairwise
      rw [hsplit, List.pairwise_append] at hascending
      have hless := (List.pairwise_cons.1 hascending.2.1).1 j List.mem_cons_self
      cases before with
      | nil =>
          rw [hsplit, List.nil_append, List.head?_cons, Option.some.injEq] at hhead
          rw [hhead] at hless
          omega
      | cons first before =>
          rw [hsplit, List.cons_append, List.head?_cons, Option.some.injEq] at hhead
          have hearlier := hascending.2.2 first List.mem_cons_self j (by simp)
          rw [hhead] at hearlier
          omega

end Blocks

section Transfers

/-- Does an instruction never let control get to the one behind it? -/
def Diverts (i : Instruction) : Prop :=
  i.operation = .branch ∨ i.operation = .ret

instance (i : Instruction) : Decidable (Diverts i) :=
  inferInstanceAs (Decidable (_ ∨ _))

/-- Does control get from the instruction `i` of a block to the address `s`?  The
instructions `after` stand behind `i` in the block. -/
inductive TransfersTo (i : Instruction) (after : List Instruction) (s : Nat) : Prop
  | jump (hjump : i.operation.isBranch = true ∨ i.operation = .switch)
      (htarget : s ∈ i.jumpTargets)
  | past (hconditional : i.operation.isConditionalBranch = true) (hs : s = i.nextAddress)
  | leave (hlast : after = []) (hfalls : i.operation.endsBlock = false) (hs : s = i.nextAddress)

theorem mem_transfers {i : Instruction} {s : Nat} :
    s ∈ transfers i ↔
      (i.operation.isBranch = true ∨ i.operation = .switch) ∧ s ∈ i.jumpTargets ∨
        i.operation.isConditionalBranch = true ∧ s = i.nextAddress := by
  unfold transfers
  rw [List.mem_append, or_comm]
  refine or_congr ?_ ?_
  · split <;> simp_all
  · split <;> simp_all

theorem Block.mem_exits_iff_transfersTo {b : Block} {s : Nat} :
    s ∈ b.exits ↔ ∃ before i after, b.instructions = before ++ i :: after ∧
      TransfersTo i after s := by
  rw [Block.mem_exits, List.mem_flatMap]
  constructor
  · rintro (⟨i, hi, hs⟩ | ⟨⟨last, hlast, hfalls⟩, rfl⟩)
    · obtain ⟨before, after, hsplit⟩ := List.append_of_mem hi
      refine ⟨before, i, after, hsplit, ?_⟩
      rcases mem_transfers.1 hs with ⟨hjump, htarget⟩ | ⟨hconditional, hs⟩
      · exact .jump hjump htarget
      · exact .past hconditional hs
    · obtain ⟨front, hsplit⟩ := List.getLast?_eq_some_iff.1 hlast
      exact ⟨front, last, [], hsplit, .leave rfl hfalls (Block.endAddress_eq hlast)⟩
  · rintro ⟨before, i, after, hsplit, htransfers⟩
    have hi : i ∈ b.instructions := by simp [hsplit]
    cases htransfers with
    | jump hjump htarget => exact Or.inl ⟨i, hi, mem_transfers.2 (Or.inl ⟨hjump, htarget⟩)⟩
    | past hconditional hs => exact Or.inl ⟨i, hi, mem_transfers.2 (Or.inr ⟨hconditional, hs⟩)⟩
    | leave hlast hfalls hs =>
        subst hlast
        have hlast : b.instructions.getLast? = some i := by rw [hsplit, List.getLast?_concat]
        exact Or.inr ⟨⟨i, hlast, hfalls⟩, hs.trans (Block.endAddress_eq hlast).symm⟩

/-- The edges of a block are the transfers of its instructions to starts of blocks.  If
nothing stands behind a RET or an unconditional branch in the block, then each edge can be
taken: there is neither in front of an instruction that transfers control along it. -/
theorem mem_successors_iff_transfersTo {instructions : List Instruction} {f : Function}
    (hf : f ∈ (buildFunctions instructions).1) {p : Block} (hp : p ∈ f.graph.blocks) (s : Nat) :
    (s ∈ p.successors ↔ (∃ target ∈ f.graph.blocks, target.start = s) ∧
      ∃ before i after, p.instructions = before ++ i :: after ∧ TransfersTo i after s) ∧
    ((∀ e ∈ p.instructions.dropLast, ¬Diverts e) → s ∈ p.successors →
      ∃ before i after, p.instructions = before ++ i :: after ∧ TransfersTo i after s ∧
        ∀ e ∈ before, ¬Diverts e) := by
  have hedges : s ∈ p.successors ↔ (∃ target ∈ f.graph.blocks, target.start = s) ∧
      ∃ before i after, p.instructions = before ++ i :: after ∧ TransfersTo i after s := by
    rw [linked_of_mem_buildFunctions hf p hp, Block.mem_exits_iff_transfersTo, and_comm]
  refine ⟨hedges, fun hlive hs => ?_⟩
  obtain ⟨-, before, i, after, hsplit, htransfers⟩ := hedges.1 hs
  refine ⟨before, i, after, hsplit, htransfers, fun e he => hlive e ?_⟩
  rw [hsplit, List.dropLast_append_of_ne_nil (List.cons_ne_nil i after)]
  exact List.mem_append_left _ he

/-- A block that branches back to itself. -/
theorem mem_successors_iff_transfersTo_loop :
    let instructions : List Instruction := [⟨0, 45, .enter 0 2 "f", 6⟩,
      ⟨6, 111, .impliedInt 1, 1⟩, ⟨7, 86, .branch (-4) 6, 3⟩, ⟨10, 46, .ret 0 0, 3⟩]
    ∃ f p, f ∈ (buildFunctions instructions).1 ∧ p ∈ f.graph.blocks ∧
      (∀ e ∈ p.instructions.dropLast, ¬Diverts e) ∧ p.start ∈ p.successors ∧
      ∃ before i after, p.instructions = before ++ i :: after ∧ TransfersTo i after p.start ∧
        ∀ e ∈ before, ¬Diverts e := by
  intro instructions
  have hloop : ∃ f ∈ (buildFunctions instructions).1, ∃ p ∈ f.graph.blocks,
      (∀ e ∈ p.instructions.dropLast, ¬Diverts e) ∧ p.start ∈ p.successors := by decide +kernel
  obtain ⟨f, hf, p, hp, hlive, hedge⟩ := hloop
  obtain ⟨-, htaken⟩ := mem_successors_iff_transfersTo hf hp p.start
  exact ⟨f, p, hf, hp, hlive, hedge, htaken hlive hedge⟩

/-- A jump behind a RET, which makes a block count as reachable.  The block has no other
instruction that transfers control there. -/
theorem exists_edge_behind_ret :
    let code : List UInt8 := [45, 0, 2, 0, 1, 102, 111, 46, 0, 0, 85, 0, 0, 46, 0, 0]
    let dead : List Instruction := [⟨0, 45, .enter 0 2 "f", 6⟩, ⟨6, 111, .impliedInt 1, 1⟩,
      ⟨7, 46, .ret 0 0, 3⟩, ⟨10, 85, .branch 0 13, 3⟩]
    let instructions : List Instruction := dead ++ [⟨13, 46, .ret 0 0, 3⟩]
    decodeCode code 16 = .ok instructions ∧
      ∃ f p, (buildFunctions instructions).1 = [f] ∧ f.graph.block? f.graph.entry = some p ∧
        p.instructions = dead ∧ 13 ∈ p.successors ∧ f.graph.Reaches 13 ∧
        ∀ before i after, p.instructions = before ++ i :: after → TransfersTo i after 13 →
          ∃ e ∈ before, Diverts e := by
  intro code dead instructions
  have hcode : decodeCode code 16 = .ok instructions := by decide +kernel
  obtain ⟨f, hf⟩ := List.length_eq_one_iff.1
    (show (buildFunctions instructions).1.length = 1 by decide +kernel)
  have hentry : (buildFunctions instructions).1.map (fun f =>
      (f.graph.block? f.graph.entry).map fun p => (p.instructions, p.successors)) =
        [some (dead, [13])] := by decide +kernel
  rw [hf] at hentry
  obtain ⟨p, hp, hfound⟩ := Option.map_eq_some_iff.1 (List.singleton_inj.1 hentry)
  obtain ⟨hinstructions, hsuccessors⟩ := Prod.mk.inj hfound
  have hedge : 13 ∈ p.successors := by simp [hsuccessors]
  refine ⟨hcode, f, p, hf, hp, hinstructions, hedge, .single ⟨p, hp, hedge⟩, ?_⟩
  -- None of the instructions up to the RET leads anywhere else.
  have hstay : ∀ i ∈ dead.take 3, ∀ after, after ≠ [] → ¬TransfersTo i after 13 := by
    intro i hi after hafter htransfers
    have hplain : ∀ i ∈ dead.take 3, i.operation.isBranch = false ∧ i.operation ≠ .switch ∧
        i.operation.isConditionalBranch = false := by decide +kernel
    obtain ⟨hbranch, hswitch, hconditional⟩ := hplain i hi
    rcases htransfers with ⟨hjump, -⟩ | ⟨hpast, -⟩ | ⟨hlast, -, -⟩
    · simp [hbranch, hswitch] at hjump
    · simp [hconditional] at hpast
    · exact hafter hlast
  intro before i after hsplit htransfers
  simp only [hinstructions, dead] at hsplit
  rcases before with _ | ⟨_, _ | ⟨_, _ | ⟨e, rest⟩⟩⟩ <;>
    simp only [List.cons_append, List.nil_append, List.cons.injEq] at hsplit
  · obtain ⟨rfl, rfl⟩ := hsplit
    exact absurd htransfers (hstay _ (by decide) _ (by simp))
  · obtain ⟨-, rfl, rfl⟩ := hsplit
    exact absurd htransfers (hstay _ (by decide) _ (by simp))
  · obtain ⟨-, -, rfl, rfl⟩ := hsplit
    exact absurd htransfers (hstay _ (by decide) _ (by simp))
  · obtain ⟨-, -, rfl, -⟩ := hsplit
    exact ⟨⟨7, 46, .ret 0 0, 3⟩, by simp, by decide +kernel⟩

end Transfers

end ScriptDecompiler.Flow
