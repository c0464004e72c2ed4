import Mathlib.Data.List.Basic
import ScriptDecompiler.Flow.Build

/-!
# The blocks of a function

Cutting a list loses nothing and makes a cut exactly in front of the elements
that open a piece.  Hence the blocks of a function hold its instructions in
order, and an instruction that control is transferred to is the first one of its
block.
-/

namespace ScriptDecompiler.Flow

open ScriptDecompiler.Bytecode (Instruction)

section Cut

variable {α : Type} {opens : α → Bool}

theorem cutBefore_cons (x : α) (xs : List α) :
    cutBefore opens (x :: xs) =
      if opens x then ([], (x :: (cutBefore opens xs).1) :: (cutBefore opens xs).2)
      else (x :: (cutBefore opens xs).1, (cutBefore opens xs).2) := rfl

/-- The pieces together are the list. -/
theorem flatten_cutBefore (opens : α → Bool) (xs : List α) :
    (cutBefore opens xs).1 ++ (cutBefore opens xs).2.flatten = xs := by
  induction xs with
  | nil => rfl
  | cons x xs ih =>
      rw [cutBefore_cons]
      split
      · rw [List.nil_append, List.flatten_cons, List.cons_append, ih]
      · rw [List.cons_append, ih]

theorem opens_of_mem_before {xs : List α} :
    ∀ x ∈ (cutBefore opens xs).1, opens x = false := by
  induction xs with
  | nil => simp [cutBefore]
  | cons x xs ih =>
      rw [cutBefore_cons]
      split
      · simp
      · rename_i hopens
        intro y hy
        rcases List.mem_cons.1 hy with rfl | hy
        · exact Bool.eq_false_iff.2 hopens
        · exact ih y hy

/-- A piece begins with an element that opens it, and has no other such. -/
theorem opens_of_mem_pieces {xs : List α} :
    ∀ piece ∈ (cutBefore opens xs).2, ∃ first rest, piece = first :: rest ∧
      opens first = true ∧ ∀ x ∈ rest, opens x = false := by
  induction xs with
  | nil => simp [cutBefore]
  | cons x xs ih =>
      rw [cutBefore_cons]
      split
      · rename_i hopens
        intro piece hpiece
        rcases List.mem_cons.1 hpiece with rfl | hpiece
        · exact ⟨x, _, rfl, hopens, opens_of_mem_before⟩
        · exact ih piece hpiece
      · exact ih

/-- In a piece only the first element opens one. -/
theorem head?_of_opens {xs piece : List α} (hpiece : piece ∈ (cutBefore opens xs).2) {x : α}
    (hx : x ∈ piece) (hopens : opens x = true) : piece.head? = some x := by
  obtain ⟨first, rest, rfl, -, hrest⟩ := opens_of_mem_pieces piece hpiece
  rcases List.mem_cons.1 hx with rfl | hx
  · rfl
  · rw [hrest x hx] at hopens
    cases hopens

end Cut

/-- Do the instructions stand in ascending order, each behind the one before? -/
structure Ascending (body : List Instruction) : Prop where
  apart : body.Pairwise (fun a b => a.nextAddress ≤ b.address)
  nonempty : ∀ i ∈ body, i.address < i.nextAddress

namespace Ascending

variable {body : List Instruction}

theorem pairwise (h : Ascending body) : body.Pairwise (fun a b => a.address < b.address) :=
  h.apart.imp_of_mem fun ha _ hapart => Nat.lt_of_lt_of_le (h.nonempty _ ha) hapart

theorem nodup_addresses (h : Ascending body) : (body.map (·.address)).Nodup :=
  List.pairwise_map.2 (h.pairwise.imp Nat.ne_of_lt)

theorem sublist (h : Ascending body) {part : List Instruction} (hpart : part.Sublist body) :
    Ascending part :=
  ⟨h.apart.sublist hpart, fun i hi => h.nonempty i (hpart.subset hi)⟩

/-- The instructions lie between the first and the end of the last one. -/
theorem inside (h : Ascending body) {first last i : Instruction} (hfirst : body.head? = some first)
    (hlast : body.getLast? = some last) (hi : i ∈ body) :
    first.address ≤ i.address ∧ i.address < last.nextAddress := by
  constructor
  · obtain ⟨rest, rfl⟩ := List.head?_eq_some_iff.1 hfirst
    rcases List.mem_cons.1 hi with rfl | hi
    · exact Nat.le_refl _
    · exact Nat.le_of_lt ((List.pairwise_cons.1 h.pairwise).1 i hi)
  · have hend := h.nonempty last (List.mem_of_getLast? hlast)
    obtain ⟨front, rfl⟩ := List.getLast?_eq_some_iff.1 hlast
    rcases List.mem_append.1 hi with hi | hi
    · have hbefore := (List.pairwise_append.1 h.pairwise).2.2 i hi last List.mem_cons_self
      exact Nat.lt_trans hbefore hend
    · rw [List.mem_singleton.1 hi]
      exact hend

end Ascending

/-- Is `address` the target of a jump of `body`, or the address behind one of its
conditional branches? -/
def IsTransferTarget (body : List Instruction) (address : Nat) : Prop :=
  ∃ i ∈ body, address ∈ i.jumpTargets ∨
    i.operation.isConditionalBranch = true ∧ address = i.nextAddress

theorem isTransferTarget_iff {body : List Instruction} {address : Nat} :
    IsTransferTarget body address ↔ address ∈ body.flatMap blockStartsOf := by
  simp only [IsTransferTarget, List.mem_flatMap, blockStartsOf, List.mem_append]
  refine exists_congr fun i => and_congr_right fun _ => or_congr_right ?_
  split <;> simp_all

/-- Where blocks start. -/
theorem mem_blockStarts {body : List Instruction} {first last : Instruction}
    (hfirst : body.head? = some first) (hlast : body.getLast? = some last) {address : Nat} :
    address ∈ blockStarts body ↔ address = first.address ∨
      IsTransferTarget body address ∧ first.address ≤ address ∧ address < last.nextAddress := by
  simp [blockStarts, hfirst, hlast, isTransferTarget_iff]

theorem flatMap_instructions_runs (runs : List (List Instruction)) :
    (runs.filterMap fun run => run.head?.map fun first =>
      Block.ofInstructions first.address run).flatMap (·.instructions) = runs.flatten := by
  induction runs with
  | nil => rfl
  | cons run runs ih =>
      cases run with
      | nil => exact ih
      | cons first rest => exact congrArg ((first :: rest) ++ ·) ih

/-- The blocks hold all instructions, in order. -/
theorem flatMap_splitBlocks {body : List Instruction} {first : Instruction}
    (hfirst : body.head? = some first) : (splitBlocks body).flatMap (·.instructions) = body := by
  obtain ⟨rest, rfl⟩ := List.head?_eq_some_iff.1 hfirst
  have hopens : (blockStarts (first :: rest)).contains first.address = true := by
    rw [List.contains_iff_mem, mem_blockStarts rfl (List.getLast?_cons)]
    exact Or.inl rfl
  -- The first instruction opens a block, so nothing comes before the first cut.
  have hflatten := flatten_cutBefore
    (fun i => (blockStarts (first :: rest)).contains i.address) (first :: rest)
  rw [cutBefore_cons, if_pos hopens, List.nil_append] at hflatten
  rw [splitBlocks, flatMap_instructions_runs, cutBefore_cons, if_pos hopens, hflatten]

/-- A block is one piece, and starts where its first instruction does. -/
theorem of_mem_splitBlocks {body : List Instruction} {b : Block} (hb : b ∈ splitBlocks body) :
    b.instructions ∈ (cutBefore (fun i => (blockStarts body).contains i.address) body).2 ∧
      ∃ first, b.instructions.head? = some first ∧ first.address = b.start := by
  obtain ⟨run, hrun, hblock⟩ := List.mem_filterMap.1 hb
  obtain ⟨first, hfirst, rfl⟩ := Option.map_eq_some_iff.1 hblock
  exact ⟨hrun, first, hfirst, rfl⟩

theorem mem_of_mem_splitBlocks {body : List Instruction} {b : Block} (hb : b ∈ splitBlocks body)
    {i : Instruction} (hi : i ∈ b.instructions) : i ∈ body := by
  rw [← flatten_cutBefore (fun i => (blockStarts body).contains i.address) body]
  exact List.mem_append_right _ (List.mem_flatten_of_mem (of_mem_splitBlocks hb).1 hi)

/-- Blocks stand in ascending order. -/
theorem pairwise_splitBlocks {body : List Instruction} (h : Ascending body) :
    (splitBlocks body).Pairwise (fun a b => a.start < b.start) := by
  have hpieces := h.pairwise
  rw [← flatten_cutBefore (fun i => (blockStarts body).contains i.address) body] at hpieces
  have hflatten := List.pairwise_flatten.1 (List.pairwise_append.1 hpieces).2.1
  refine List.pairwise_filterMap.2 (hflatten.2.imp fun {run later} hbefore => ?_)
  intro b hb c hc
  obtain ⟨first, hfirst, rfl⟩ := Option.map_eq_some_iff.1 hb
  obtain ⟨second, hsecond, rfl⟩ := Option.map_eq_some_iff.1 hc
  exact hbefore first (List.mem_of_head? hfirst) second (List.mem_of_head? hsecond)

/-- An instruction that control is transferred to is the first of its block. -/
theorem head?_of_isTransferTarget {body : List Instruction} (h : Ascending body) {b : Block}
    (hb : b ∈ splitBlocks body) {i : Instruction} (hi : i ∈ b.instructions)
    (htarget : IsTransferTarget body i.address) : b.instructions.head? = some i := by
  have hmem := mem_of_mem_splitBlocks hb hi
  have hne : body ≠ [] := List.ne_nil_of_mem hmem
  have hfirst := List.head?_eq_some_head hne
  have hlast := List.getLast?_eq_some_getLast hne
  -- The target lies inside the body because one of its instructions is there.
  have hstart := (mem_blockStarts hfirst hlast).2 (Or.inr ⟨htarget, h.inside hfirst hlast hmem⟩)
  exact head?_of_opens (of_mem_splitBlocks hb).1 hi (List.contains_iff_mem.2 hstart)

/-- A block starts with the body or because control is transferred there. -/
theorem start_of_mem_splitBlocks {body : List Instruction} {b : Block}
    (hb : b ∈ splitBlocks body) {first : Instruction} (hfirst : body.head? = some first) :
    b.start = first.address ∨ IsTransferTarget body b.start := by
  obtain ⟨hpiece, i, hi, hstart⟩ := of_mem_splitBlocks hb
  obtain ⟨_, _, hrun, hopens, -⟩ := opens_of_mem_pieces _ hpiece
  rw [hrun, List.head?_cons, Option.some.injEq] at hi
  rw [hi, hstart] at hopens
  have hlast := List.getLast?_eq_some_getLast (List.ne_nil_of_mem (List.mem_of_head? hfirst))
  exact ((mem_blockStarts hfirst hlast).1 (List.contains_iff_mem.1 hopens)).imp id And.left

/-- Linking adds edges to the blocks and changes nothing else in them. -/
theorem linkBlocks_eq_map (blocks : List Block) :
    ∃ link : Block → Block, linkBlocks blocks = blocks.map link ∧
      ∀ b, (link b).start = b.start ∧ (link b).instructions = b.instructions :=
  ⟨_, List.map_map, fun _ => ⟨rfl, rfl⟩⟩

/-- In ascending blocks each is found at its start. -/
theorem find?_start {blocks : List Block} (h : blocks.Pairwise (fun a b => a.start < b.start))
    {b : Block} (hb : b ∈ blocks) : blocks.find? (·.start = b.start) = some b := by
  induction blocks with
  | nil => cases hb
  | cons c blocks ih =>
      obtain ⟨hbefore, hrest⟩ := List.pairwise_cons.1 h
      rcases List.mem_cons.1 hb with rfl | hb
      · exact List.find?_cons_of_pos (by simp)
      · have hne := Nat.ne_of_lt (hbefore b hb)
        rw [List.find?_cons_of_neg (by simpa using hne)]
        exact ih hrest hb

/-- The block that comes first begins as the body does. -/
theorem block?_entry {g : Graph} {body : List Instruction} {first : Instruction}
    (hfirst : body.head? = some first) (hentry : g.entry = first.address)
    (hconcat : g.blocks.flatMap (·.instructions) = body)
    (hascending : g.blocks.Pairwise (fun a b => a.start < b.start))
    (hkeyed : ∀ b ∈ g.blocks, ∃ i, b.instructions.head? = some i ∧ i.address = b.start) :
    ∃ b, g.block? g.entry = some b ∧ b.instructions.head? = body.head? := by
  have hne : g.blocks ≠ [] := by
    intro hnil
    rw [hnil] at hconcat
    rw [← hconcat] at hfirst
    cases hfirst
  obtain ⟨b, blocks, hblocks⟩ := List.exists_cons_of_ne_nil hne
  have hb : b ∈ g.blocks := hblocks ▸ List.mem_cons_self
  obtain ⟨i, hi, hstart⟩ := hkeyed b hb
  have hhead : body.head? = some i := by
    obtain ⟨rest, hrest⟩ := List.head?_eq_some_iff.1 hi
    rw [← hconcat, hblocks, List.flatMap_cons, hrest, List.cons_append, List.head?_cons]
  have hsame : i = first := Option.some.inj (hhead.symm.trans hfirst)
  refine ⟨b, ?_, hi.trans hhead.symm⟩
  rw [hentry, ← hsame, hstart]
  exact find?_start hascending hb

/-- The blocks of a graph are a partition of `body`: they hold its instructions in
order, and start at the entry and wherever control is transferred to. -/
structure Graph.Partitions (g : Graph) (body : List Instruction) : Prop where
  concat : g.blocks.flatMap (·.instructions) = body
  ascending : g.blocks.Pairwise (fun a b => a.start < b.start)
  keyed : ∀ b ∈ g.blocks, g.block? b.start = some b ∧
    ∃ first, b.instructions.head? = some first ∧ first.address = b.start
  entered : ∃ b, g.block? g.entry = some b ∧ b.instructions.head? = body.head?
  leads : ∀ b ∈ g.blocks, ∀ i ∈ b.instructions, IsTransferTarget body i.address →
    b.instructions.head? = some i
  reason : ∀ b ∈ g.blocks, b.start = g.entry ∨ IsTransferTarget body b.start

theorem flatMap_linkBlocks {body : List Instruction} {first : Instruction}
    (hfirst : body.head? = some first) :
    (linkBlocks (splitBlocks body)).flatMap (·.instructions) = body := by
  obtain ⟨link, hlinked, hlink⟩ := linkBlocks_eq_map (splitBlocks body)
  rw [hlinked, List.flatMap_map]
  simp only [(hlink _).2]
  exact flatMap_splitBlocks hfirst

theorem partitions_linkBlocks {body : List Instruction} {first : Instruction}
    (h : Ascending body) (hfirst : body.head? = some first) :
    Graph.Partitions ⟨first.address, linkBlocks (splitBlocks body)⟩ body := by
  obtain ⟨link, hlinked, hlink⟩ := linkBlocks_eq_map (splitBlocks body)
  have hascending : (linkBlocks (splitBlocks body)).Pairwise (fun a b => a.start < b.start) := by
    rw [hlinked, List.pairwise_map]
    simp only [(hlink _).1]
    exact pairwise_splitBlocks h
  have hkeyed : ∀ b ∈ linkBlocks (splitBlocks body),
      ∃ i, b.instructions.head? = some i ∧ i.address = b.start := by
    rw [hlinked, List.forall_mem_map]
    simp only [(hlink _).1, (hlink _).2]
    exact fun b hb => (of_mem_splitBlocks hb).2
  have hleads : ∀ b ∈ linkBlocks (splitBlocks body), ∀ i ∈ b.instructions,
      IsTransferTarget body i.address → b.instructions.head? = some i := by
    rw [hlinked, List.forall_mem_map]
    simp only [(hlink _).2]
    exact fun b hb i hi => head?_of_isTransferTarget h hb hi
  have hreason : ∀ b ∈ linkBlocks (splitBlocks body),
      b.start = first.address ∨ IsTransferTarget body b.start := by
    rw [hlinked, List.forall_mem_map]
    simp only [(hlink _).1]
    exact fun b hb => start_of_mem_splitBlocks hb hfirst
  have hconcat := flatMap_linkBlocks hfirst
  exact ⟨hconcat, hascending, fun b hb => ⟨find?_start hascending hb, hkeyed b hb⟩,
    block?_entry hfirst rfl hconcat hascending hkeyed, hleads, hreason⟩

/-- A function of a unit was built from some instructions, the first of which declares its
variables. -/
theorem exists_eq_of_mem_buildFunctions {instructions : List Instruction} {f : Function}
    (hf : f ∈ (buildFunctions instructions).1) :
    ∃ (first : Instruction) (rest : List Instruction) (arguments slots : Nat) (name : String),
      f.frame = { Frame.declare first.address name arguments slots with
        result := { Variable.fresh 0 name .result with ty := resultType (first :: rest) } } ∧
      f.graph = ⟨first.address, linkBlocks (splitBlocks (first :: rest))⟩ := by
  obtain ⟨body, -, hbody⟩ := List.mem_filterMap.1 hf
  unfold Function.ofBody? at hbody
  split at hbody
  · cases hbody
  · rename_i first rest
    split at hbody
    · cases hbody
      exact ⟨first, rest, _, _, _, rfl, rfl⟩
    · cases hbody

end ScriptDecompiler.Flow
