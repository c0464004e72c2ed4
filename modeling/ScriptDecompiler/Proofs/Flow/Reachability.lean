import Mathlib.Logic.Relation
import ScriptDecompiler.Proofs.Flow.Blocks

/-!
# Reachable blocks

Control starts at the entry of a graph and follows its edges.  Where it can get
to depends on the blocks as they were built, not on what replaying them leaves
behind.  In a graph that was built from instructions every edge leads to a block,
and nothing is left behind yet.
-/

namespace ScriptDecompiler.Flow

open ScriptDecompiler.Bytecode (Instruction)

namespace Block

/-- The block as it was built. -/
def bare (b : Block) : Block :=
  { b with entryStack := none, statements := [], visited := false }

end Block

namespace Graph

/-- The graph as it was built. -/
def bare (g : Graph) : Graph :=
  { g with blocks := g.blocks.map Block.bare }

/-- Is there an edge from the block that starts at `a` to the one that starts at
`b`? -/
def Leads (g : Graph) (a b : Nat) : Prop :=
  ∃ block, g.block? a = some block ∧ b ∈ block.successors

/-- Does a path of edges lead from the entry to the block that starts at `a`? -/
def Reaches (g : Graph) (a : Nat) : Prop :=
  Relation.ReflTransGen g.Leads g.entry a

/-- Is an instruction in a block that control can get to? -/
def Executes (g : Graph) (i : Instruction) : Prop :=
  ∃ start b, g.Reaches start ∧ g.block? start = some b ∧ i ∈ b.instructions

theorem mem_of_block? {g : Graph} {start : Nat} {b : Block} (h : g.block? start = some b) :
    b ∈ g.blocks ∧ b.start = start :=
  ⟨List.mem_of_find?_eq_some h, by simpa using List.find?_some h⟩

theorem block?_start {g : Graph} {start : Nat} {b : Block} (h : g.block? start = some b) :
    g.block? b.start = some b := by
  rw [(mem_of_block? h).2]
  exact h

theorem exists_block?_iff {g : Graph} {start : Nat} :
    (∃ b, g.block? start = some b) ↔ ∃ b ∈ g.blocks, b.start = start := by
  constructor
  · rintro ⟨b, hb⟩
    exact ⟨b, mem_of_block? hb⟩
  · rintro ⟨b, hb, hstart⟩
    have hsome : (g.block? start).isSome := by
      rw [block?, List.find?_isSome]
      exact ⟨b, hb, by simpa using hstart⟩
    exact Option.isSome_iff_exists.1 hsome

theorem block?_bare (g : Graph) (start : Nat) :
    g.bare.block? start = (g.block? start).map Block.bare := by
  unfold block? bare
  rw [List.find?_map]
  rfl

/-- A block of a changed graph is one of the changed ones, or starts elsewhere. -/
theorem of_mem_modifyBlock {g : Graph} {start : Nat} {change : Block → Block} {b : Block}
    (hb : b ∈ (g.modifyBlock start change).blocks) :
    (∃ original ∈ g.blocks, original.start = start ∧ b = change original) ∨
      b.start ≠ start ∧ b ∈ g.blocks := by
  obtain ⟨original, hmem, rfl⟩ := List.mem_map.1 hb
  by_cases hsame : original.start = start
  · exact Or.inl ⟨original, hmem, hsame, if_pos hsame⟩
  · rw [if_neg hsame]
    exact Or.inr ⟨hsame, hmem⟩

/-- What holds of all blocks, and of the changed ones afterwards. -/
theorem forall_modifyBlock {g : Graph} {start : Nat} {change : Block → Block} {P : Block → Prop}
    (h : ∀ b ∈ g.blocks, P b)
    (hchange : ∀ b ∈ g.blocks, b.start = start → P (change b)) :
    ∀ b ∈ (g.modifyBlock start change).blocks, P b := by
  intro b hb
  rcases of_mem_modifyBlock hb with ⟨original, hmem, hstart, rfl⟩ | ⟨-, hmem⟩
  · exact hchange original hmem hstart
  · exact h b hmem

/-- Leaving something behind in a block. -/
theorem bare_modifyBlock (g : Graph) (start : Nat) {change : Block → Block}
    (h : ∀ b, (change b).bare = b.bare) : (g.modifyBlock start change).bare = g.bare := by
  unfold modifyBlock bare
  simp only [List.map_map, Graph.mk.injEq, true_and]
  apply List.map_congr_left
  intro b _
  by_cases hb : b.start = start <;> simp [hb, h]

theorem block?_modifyBlock (g : Graph) (start other : Nat) {change : Block → Block}
    (h : ∀ b, (change b).start = b.start) :
    (g.modifyBlock start change).block? other =
      (g.block? other).map fun b => if other = start then change b else b := by
  unfold modifyBlock block?
  rw [List.find?_map]
  have hkey : ((fun b : Block => decide (b.start = other)) ∘
      fun b => if b.start = start then change b else b) =
        fun b => decide (b.start = other) := by
    funext b
    by_cases hb : b.start = start <;> simp [hb, h]
  rw [hkey]
  cases hfind : g.blocks.find? (·.start = other) with
  | none => rfl
  | some b =>
      have hstart : b.start = other := by simpa using List.find?_some hfind
      simp [hstart]

/-- Is nothing left behind yet, and does every edge lead to a block, no two of them
from one block to the same one? -/
structure Fresh (g : Graph) : Prop where
  bare : g.bare = g
  entry : ∃ b, g.block? g.entry = some b
  leads : ∀ a b, g.Leads a b → ∃ block, g.block? b = some block
  distinct : ∀ b ∈ g.blocks, b.successors.Nodup

namespace Fresh

variable {g : Graph}

theorem block (h : g.Fresh) {a : Nat} (ha : g.Reaches a) : ∃ b, g.block? a = some b := by
  induction ha with
  | refl => exact h.entry
  | tail _ hleads _ => exact h.leads _ _ hleads

theorem untouched (h : g.Fresh) {b : Block} (hb : b ∈ g.blocks) : b.bare = b := by
  have hblocks : g.blocks.map Block.bare = g.blocks := congrArg Graph.blocks h.bare
  have hmap : g.blocks.map Block.bare = g.blocks.map id := by rw [hblocks, List.map_id]
  exact (List.map_inj_left.1 hmap) b hb

end Fresh

end Graph

theorem mem_firstOccurrences {xs : List Nat} {x : Nat} : x ∈ firstOccurrences xs ↔ x ∈ xs := by
  have hfold : ∀ kept : List Nat, x ∈ xs.foldl
      (fun kept x => if kept.contains x then kept else kept ++ [x]) kept ↔ x ∈ kept ∨ x ∈ xs := by
    induction xs with
    | nil => simp
    | cons y xs ih =>
        intro kept
        rw [List.foldl_cons, ih]
        split <;> grind
  rw [firstOccurrences, hfold]
  simp

theorem nodup_firstOccurrences (xs : List Nat) : (firstOccurrences xs).Nodup := by
  have hfold : ∀ kept : List Nat, kept.Nodup → (xs.foldl
      (fun kept x => if kept.contains x then kept else kept ++ [x]) kept).Nodup := by
    induction xs with
    | nil => exact fun _ h => h
    | cons y xs ih =>
        intro kept hkept
        rw [List.foldl_cons]
        apply ih
        split
        · exact hkept
        · rename_i hy
          rw [List.contains_iff_mem] at hy
          rw [List.nodup_append]
          exact ⟨hkept, by simp, by grind⟩
  exact hfold [] List.nodup_nil

/-- Linked blocks lead to each other only, and to none of them twice. -/
theorem successors_linkBlocks {blocks : List Block} {b : Block} (hb : b ∈ linkBlocks blocks) :
    b.successors.Nodup ∧ ∀ s ∈ b.successors, ∃ target ∈ linkBlocks blocks, target.start = s := by
  simp only [linkBlocks, List.map_map, List.mem_map, Function.comp] at hb ⊢
  obtain ⟨original, horiginal, rfl⟩ := hb
  refine ⟨nodup_firstOccurrences _, fun s hs => ?_⟩
  have hstart := (List.mem_filter.1 (mem_firstOccurrences.1 hs)).2
  rw [List.contains_iff_mem, List.mem_map] at hstart
  obtain ⟨target, htarget, hs⟩ := hstart
  exact ⟨_, ⟨target, htarget, rfl⟩, hs⟩

theorem bare_of_mem_linkBlocks {body : List Instruction} {b : Block}
    (hb : b ∈ linkBlocks (splitBlocks body)) : b.bare = b := by
  simp only [linkBlocks, List.map_map, List.mem_map, Function.comp] at hb
  obtain ⟨original, horiginal, rfl⟩ := hb
  obtain ⟨run, -, hrun⟩ := List.mem_filterMap.1 horiginal
  obtain ⟨first, -, rfl⟩ := Option.map_eq_some_iff.1 hrun
  rfl

/-- The first instruction opens a block. -/
theorem exists_block_first {body : List Instruction} {first : Instruction}
    (hfirst : body.head? = some first) :
    ∃ b ∈ linkBlocks (splitBlocks body), b.start = first.address := by
  obtain ⟨rest, rfl⟩ := List.head?_eq_some_iff.1 hfirst
  obtain ⟨link, hlinked, hlink⟩ := linkBlocks_eq_map (splitBlocks (first :: rest))
  have hmem : first ∈ (splitBlocks (first :: rest)).flatMap (·.instructions) := by
    rw [flatMap_splitBlocks rfl]
    exact List.mem_cons_self
  have hopens : (blockStarts (first :: rest)).contains first.address = true := by
    rw [List.contains_iff_mem, mem_blockStarts rfl (List.getLast?_cons)]
    exact Or.inl rfl
  obtain ⟨b, hb, hin⟩ := List.mem_flatMap.1 hmem
  obtain ⟨hpiece, i, hi, hstart⟩ := of_mem_splitBlocks hb
  have hhead := head?_of_opens hpiece hin hopens
  rw [hi, Option.some.injEq] at hhead
  refine ⟨link b, ?_, ?_⟩
  · rw [hlinked]
    exact List.mem_map_of_mem hb
  · rw [(hlink b).1, ← hstart, hhead]

/-- The graphs of the functions of a unit. -/
theorem fresh_of_mem_buildFunctions {instructions : List Instruction} {f : Function}
    (hf : f ∈ (buildFunctions instructions).1) : f.graph.Fresh := by
  obtain ⟨first, rest, -, -, -, -, hgraph⟩ := exists_eq_of_mem_buildFunctions hf
  rw [hgraph]
  refine ⟨?_, ?_, ?_, ?_⟩
  · unfold Graph.bare
    simp only [Graph.mk.injEq, true_and]
    conv_rhs => rw [← List.map_id (linkBlocks (splitBlocks (first :: rest)))]
    exact List.map_congr_left fun b hb => bare_of_mem_linkBlocks hb
  · exact Graph.exists_block?_iff.2 (exists_block_first rfl)
  · rintro a b ⟨block, hblock, hb⟩
    exact Graph.exists_block?_iff.2 ((successors_linkBlocks (Graph.mem_of_block? hblock).1).2 b hb)
  · exact fun b hb => (successors_linkBlocks hb).1

end ScriptDecompiler.Flow
