import Mathlib.Data.List.Nodup
import ScriptDecompiler.Proofs.Machine.Reachability

/-!
# The stacks that blocks are entered with

The first visited block with an edge to another one settles the stack that the other
is entered with.  A block that is visited later compares its final stack with it, but
only as long as the target was not visited itself.  So the reported mismatches are
exactly those of the edges that lead from one visit to a later one.  Along an edge
back to a visited block, as in a loop that leaves a value behind in each round, stacks
may differ in depth and nothing is said about it.
-/

namespace ScriptDecompiler

namespace Flow.Graph

/-- The stack that the block at an address is entered with, once it is settled. -/
def entryStack? (g : Graph) (start : Nat) : Option (List Expr) :=
  (g.block? start).bind (·.entryStack)

/-- Is there a block at an address, not visited yet? -/
def IsOpen (g : Graph) (start : Nat) : Prop :=
  ∃ b, g.block? start = some b ∧ b.visited = false

section Modify

variable {g : Graph} {start other : Nat} {change : Block → Block}

theorem entryStack?_modifyBlock (hstart : ∀ b, (change b).start = b.start)
    (hentry : ∀ b, (change b).entryStack = b.entryStack) :
    (g.modifyBlock start change).entryStack? other = g.entryStack? other := by
  unfold entryStack?
  rw [g.block?_modifyBlock start other hstart]
  cases g.block? other with
  | none => rfl
  | some b =>
      simp only [Option.map_some, Option.bind_some]
      split
      · exact hentry b
      · rfl

theorem isOpen_modifyBlock (hstart : ∀ b, (change b).start = b.start)
    (hvisited : ∀ b, (change b).visited = b.visited) :
    (g.modifyBlock start change).IsOpen other ↔ g.IsOpen other := by
  unfold IsOpen
  rw [g.block?_modifyBlock start other hstart]
  cases g.block? other with
  | none => simp
  | some b => by_cases hsame : other = start <;> simp [hsame, hvisited]

end Modify

end Flow.Graph

namespace Machine

open ScriptDecompiler.Bytecode (Instruction opcodeInfo)
open ScriptDecompiler.Flow (Block Graph buildFunctions fresh_of_mem_buildFunctions)

-- The opcode table is too large to be unfolded whenever terms are compared.
attribute [local irreducible] opcodeInfo

/-- The report that a block is entered with stacks of different depths, if they are. -/
def mismatch? (function : Option String) (target expected found : Nat) : Option Diagnostic :=
  if expected = found then none
  else some ⟨function, some target, .entryStackMismatch target expected found⟩

/-- The report about the edge from one visited block to another one. -/
def disagreement (function : Option String) (edge : Visit × Visit) : Option Diagnostic :=
  mismatch? function edge.2.start edge.2.before.stack.length edge.1.after.stack.length

/-- The edges that lead from a visit to a later one, in the order of the visits. -/
def laterEdges : List Visit → List (Visit × Visit)
  | [] => []
  | v :: later =>
    (v.block.successors.filterMap fun target => later.find? (·.start = target)).map (v, ·) ++
      laterEdges later

theorem exists_find?_start {visits : List Visit} {start : Nat}
    (h : start ∈ visits.map Visit.start) :
    ∃ w, visits.find? (·.start = start) = some w ∧ w ∈ visits ∧ w.start = start := by
  obtain ⟨w, hw, hsame⟩ := List.mem_map.1 h
  have hsome : (visits.find? (·.start = start)).isSome := by
    rw [List.find?_isSome]
    exact ⟨w, hw, by simpa using hsame⟩
  obtain ⟨found, hfound⟩ := Option.isSome_iff_exists.1 hsome
  exact ⟨found, hfound, List.mem_of_find?_eq_some hfound, by simpa using List.find?_some hfound⟩

theorem find?_start {visits : List Visit} (hdistinct : (visits.map Visit.start).Nodup)
    {w : Visit} (hw : w ∈ visits) : visits.find? (·.start = w.start) = some w := by
  obtain ⟨found, hfound, hmem, hsame⟩ := exists_find?_start (List.mem_map_of_mem hw)
  rw [hfound, List.inj_on_of_nodup_map hdistinct hmem hw hsame]

/-- An edge to a later visit: the one visit comes before the other, and its block leads
to the other one's. -/
theorem mem_laterEdges {visits : List Visit} (hdistinct : (visits.map Visit.start).Nodup)
    {v w : Visit} :
    (v, w) ∈ laterEdges visits ↔ [v, w].Sublist visits ∧ w.start ∈ v.block.successors := by
  induction visits with
  | nil => simp [laterEdges]
  | cons first later ih =>
      have hlater := (List.nodup_cons.1 (List.map_cons ▸ hdistinct)).2
      simp only [laterEdges, List.mem_append, List.mem_map, List.mem_filterMap, Prod.mk.injEq,
        ih hlater, List.sublist_cons_iff]
      constructor
      · rintro (⟨found, ⟨target, htarget, hfind⟩, rfl, rfl⟩ | ⟨hsub, hedge⟩)
        · have hsame : found.start = target := by simpa using List.find?_some hfind
          refine ⟨Or.inr ⟨[found], rfl, ?_⟩, hsame ▸ htarget⟩
          exact List.singleton_sublist.2 (List.mem_of_find?_eq_some hfind)
        · exact ⟨Or.inl hsub, hedge⟩
      · rintro ⟨hsub | ⟨rest, hrest, hsub⟩, hedge⟩
        · exact Or.inr ⟨hsub, hedge⟩
        · cases hrest
          have hw := List.singleton_sublist.1 hsub
          exact Or.inl ⟨w, ⟨w.start, hedge, find?_start hlater hw⟩, rfl, rfl⟩

/-- No edge is named twice. -/
theorem nodup_laterEdges {visits : List Visit} (hdistinct : (visits.map Visit.start).Nodup)
    (hsuccessors : ∀ v ∈ visits, v.block.successors.Nodup) : (laterEdges visits).Nodup := by
  induction visits with
  | nil => exact List.nodup_nil
  | cons first later ih =>
      obtain ⟨hfirst, hlater⟩ := List.nodup_cons.1 (List.map_cons ▸ hdistinct)
      rw [laterEdges, List.nodup_append]
      refine ⟨?_, ih hlater fun v hv => hsuccessors v (List.mem_cons_of_mem _ hv), ?_⟩
      · refine List.Nodup.map (fun a b h => (Prod.mk.inj h).2) ?_
        refine List.Nodup.filterMap (fun a b found ha hb => ?_)
          (hsuccessors first List.mem_cons_self)
        have ha : found.start = a := by simpa using List.find?_some ha
        have hb : found.start = b := by simpa using List.find?_some hb
        exact ha.symm.trans hb
      · -- The edges of the first visit start where no later visit does.
        rintro edge hedge ⟨v, w⟩ hother rfl
        obtain ⟨target, -, hsame⟩ := List.mem_map.1 hedge
        obtain ⟨rfl, rfl⟩ := Prod.mk.inj hsame
        have hsub := ((mem_laterEdges hlater).1 hother).1
        exact hfirst (List.mem_map_of_mem (hsub.subset List.mem_cons_self))

/-- The stack on which the block at an address is replayed, if it is one of the visited. -/
def replayedOn (visits : List Visit) (start : Nat) : Option (List Expr) :=
  (visits.find? (·.start = start)).map (·.before.stack)

theorem replayedOn_eq_none {visited : List Nat} {visits : List Visit} {start : Nat}
    (hdistinct : (visited ++ visits.map Visit.start).Nodup) (h : start ∈ visited) :
    replayedOn visits start = none := by
  have hnone : visits.find? (·.start = start) = none := by
    rw [List.find?_eq_none]
    intro w hw hsame
    have hin : start ∈ visits.map Visit.start := List.mem_map.2 ⟨w, hw, by simpa using hsame⟩
    exact (List.nodup_append.1 hdistinct).2.2 start h start hin rfl
  rw [replayedOn, hnone, Option.map_none]

/-- The disagreements along the edges from one visit to later ones, target by target. -/
theorem disagreements_from (function : Option String) (v : Visit) (later : List Visit) :
    ((v.block.successors.filterMap fun target => later.find? (·.start = target)).map
        (v, ·)).filterMap (disagreement function) =
      v.block.successors.filterMap fun target => (replayedOn later target).bind fun entry =>
        mismatch? function target entry.length v.after.stack.length := by
  rw [List.filterMap_map, List.filterMap_filterMap]
  apply List.filterMap_congr
  intro target _
  cases hfind : later.find? (·.start = target) with
  | none => simp [replayedOn, hfind]
  | some w =>
      have hsame : w.start = target := by simpa using List.find?_some hfind
      simp [replayedOn, hfind, disagreement, hsame]

section HandOff

variable (c : Context) (stack : List Expr) {g : Graph} {start target : Nat}

/-- Handing on a stack visits nothing. -/
theorem isOpen_handOff (g : Graph) (store : Store) :
    (handOff c stack target g store).1.IsOpen start ↔ g.IsOpen start := by
  rcases handOff_graph c stack target g store with hg | ⟨-, hg⟩
  · rw [hg]
  · rw [hg]
    exact Graph.isOpen_modifyBlock (fun _ => rfl) fun _ => rfl

/-- A settled stack stays. -/
theorem entryStack?_handOff {entry : List Expr} (h : g.entryStack? start = some entry)
    (store : Store) : (handOff c stack target g store).1.entryStack? start = some entry := by
  rcases handOff_graph c stack target g store with hg | ⟨⟨first, hfirst, hnone⟩, hg⟩
  · rw [hg]
    exact h
  · rw [hg]
    unfold Graph.entryStack? at h ⊢
    rw [g.block?_modifyBlock target start (by intro; rfl)]
    by_cases hsame : start = target
    · -- The target has no entry stack yet, so it is not the block in question.
      rw [hsame, hfirst] at h
      simp [hnone] at h
    · simpa [hsame] using h

theorem handOff_of_not_isOpen (h : ¬ g.IsOpen target) (store : Store) :
    handOff c stack target g store = (g, store) := by
  unfold handOff
  split
  · rfl
  · rename_i b hb
    have hvisited : b.visited = true := by
      by_contra hnew
      exact h ⟨b, hb, by simpa using hnew⟩
    rw [if_pos hvisited]

/-- An open block has a settled stack afterwards, and a stack of another depth is
reported. -/
theorem handOff_of_isOpen (h : g.IsOpen target) (store : Store) :
    ∃ entry, (handOff c stack target g store).1.entryStack? target = some entry ∧
      (handOff c stack target g store).2.mismatches = store.mismatches ++
        (mismatch? (store.frames[c.current]?.map (·.name)) target entry.length
          stack.length).toList := by
  obtain ⟨b, hb, hnew⟩ := h
  unfold handOff mismatch?
  simp only [hb, hnew, Bool.false_eq_true, if_false]
  cases hentry : b.entryStack with
  | none =>
      refine ⟨stack, ?_, by simp⟩
      unfold Graph.entryStack?
      dsimp only
      rw [g.block?_modifyBlock target target (by intro; rfl), hb]
      simp
  | some entry =>
      have hsettled : g.entryStack? target = some entry := by
        unfold Graph.entryStack?
        rw [hb]
        exact hentry
      refine ⟨entry, ?_, ?_⟩
      · dsimp only
        split <;> exact hsettled
      · dsimp only
        split
        · simp
        · simp [Store.mismatches, Store.diagnose, DiagnosticKind.isMismatch]

theorem isOpen_handOffAll (targets : List Nat) (g : Graph) (store : Store) :
    (handOffAll c stack targets g store).1.IsOpen start ↔ g.IsOpen start :=
  handOffAll_keeps c (P := fun after _ => after.IsOpen start ↔ g.IsOpen start)
    (fun _ _ after store h => (isOpen_handOff c stack after store).trans h) Iff.rfl

theorem entryStack?_handOffAll (targets : List Nat) {entry : List Expr}
    (h : g.entryStack? start = some entry) (store : Store) :
    (handOffAll c stack targets g store).1.entryStack? start = some entry :=
  handOffAll_keeps c (P := fun after _ => after.entryStack? start = some entry)
    (fun _ _ _ store h => entryStack?_handOff c stack h store) h

theorem exists_entryStack?_handOffAll {targets : List Nat} (htarget : target ∈ targets)
    (h : g.IsOpen target) (store : Store) :
    ∃ entry, (handOffAll c stack targets g store).1.entryStack? target = some entry := by
  induction targets generalizing g store with
  | nil => cases htarget
  | cons first rest ih =>
      rw [handOffAll]
      rcases List.mem_cons.1 htarget with rfl | hrest
      · obtain ⟨entry, hentry, -⟩ := handOff_of_isOpen c stack h store
        exact ⟨entry, entryStack?_handOffAll c stack rest hentry _⟩
      · exact ih hrest ((isOpen_handOff c stack g store).2 h) _

/-- What handing on a stack reports, given the stacks that the open ones among the
targets are entered with in the end. -/
theorem mismatches_handOffAll {targets : List Nat} {settled : Nat → Option (List Expr)}
    (hclosed : ∀ target ∈ targets, ¬ g.IsOpen target → settled target = none) (store : Store)
    (hopen : ∀ target ∈ targets, g.IsOpen target →
      (handOffAll c stack targets g store).1.entryStack? target = settled target) :
    (handOffAll c stack targets g store).2.mismatches = store.mismatches ++
      targets.filterMap fun target => (settled target).bind fun entry =>
        mismatch? (store.frames[c.current]?.map (·.name)) target entry.length stack.length := by
  induction targets generalizing g store with
  | nil => simp [handOffAll]
  | cons target rest ih =>
      have hframes := frames_handOff c stack target g store
      have hsame : ∀ other, (handOff c stack target g store).1.IsOpen other ↔ g.IsOpen other :=
        fun _ => isOpen_handOff c stack g store
      rw [handOffAll] at hopen ⊢
      have hrest := ih (g := (handOff c stack target g store).1)
        (fun other hother hnot => hclosed other (List.mem_cons_of_mem _ hother)
          fun h => hnot ((hsame other).2 h))
        (handOff c stack target g store).2
        (fun other hother h => hopen other (List.mem_cons_of_mem _ hother) ((hsame other).1 h))
      rw [hframes] at hrest
      refine hrest.trans ?_
      by_cases h : g.IsOpen target
      · obtain ⟨entry, hentry, hreport⟩ := handOff_of_isOpen c stack h store
        have hsettled := hopen target List.mem_cons_self h
        rw [entryStack?_handOffAll c stack rest hentry] at hsettled
        rw [hreport, List.append_assoc, List.filterMap_cons, ← hsettled, Option.bind_some]
        cases mismatch? _ target entry.length stack.length <;> rfl
      · rw [handOff_of_not_isOpen c stack h, List.filterMap_cons,
          hclosed target List.mem_cons_self h]
        rfl

end HandOff

section Leave

variable (c : Context) {g : Graph} {start : Nat}

theorem entryStack?_mark (g : Graph) (marked : Nat) :
    (mark g marked).entryStack? start = g.entryStack? start :=
  Graph.entryStack?_modifyBlock (fun _ => rfl) fun _ => rfl

theorem isOpen_of_mark {marked : Nat} (h : (mark g marked).IsOpen start) : g.IsOpen start := by
  obtain ⟨b, hb, hnew⟩ := h
  rw [mark, g.block?_modifyBlock marked start (by intro; rfl)] at hb
  obtain ⟨original, horiginal, rfl⟩ := Option.map_eq_some_iff.1 hb
  split at hnew
  · cases hnew
  · exact ⟨original, horiginal, hnew⟩

theorem isOpen_mark_of_ne {marked : Nat} (hother : start ≠ marked) (h : g.IsOpen start) :
    (mark g marked).IsOpen start := by
  obtain ⟨b, hb, hnew⟩ := h
  refine ⟨b, ?_, hnew⟩
  rw [mark, g.block?_modifyBlock marked start (by intro; rfl), hb, Option.map_some, if_neg hother]

theorem entryStack?_leave_eq (b : Block) (s : State) (g : Graph) :
    (leave c b s g).1.entryStack? start =
      (handOffAll c s.stack b.successors (mark g b.start) s.store).1.entryStack? start :=
  Graph.entryStack?_modifyBlock (fun _ => rfl) fun _ => rfl

theorem entryStack?_leave (b : Block) (s : State) {entry : List Expr}
    (h : g.entryStack? start = some entry) :
    (leave c b s g).1.entryStack? start = some entry := by
  rw [entryStack?_leave_eq]
  exact entryStack?_handOffAll c s.stack b.successors
    ((entryStack?_mark g b.start).trans h) s.store

theorem isOpen_leave (b : Block) (s : State) (g : Graph) :
    (leave c b s g).1.IsOpen start ↔ (mark g b.start).IsOpen start :=
  (Graph.isOpen_modifyBlock (by intro; rfl) (by intro; rfl)).trans
    (isOpen_handOffAll c s.stack b.successors (mark g b.start) s.store)

end Leave

section Walks

variable {c : Context} {fresh g : Graph} {store : Store} {worklist visited : List Nat}
  {visits : List Visit} {out : Option Fault × Graph × Store}

/-- In an explored graph the open blocks are those that were not visited. -/
theorem Explored.isOpen_iff (h : Explored fresh g visited) {start : Nat}
    (hblock : ∃ b, fresh.block? start = some b) : g.IsOpen start ↔ start ∉ visited := by
  constructor
  · rintro ⟨b, hb, hnew⟩
    exact h.not_mem_visited hb hnew
  · intro hnot
    obtain ⟨block, hblock⟩ := hblock
    rw [h.block?] at hblock
    obtain ⟨b, hb, -⟩ := Option.map_eq_some_iff.1 hblock
    obtain ⟨hmem, hstart⟩ := Graph.mem_of_block? hb
    refine ⟨b, hb, Bool.eq_false_iff.2 fun hvisited => hnot ?_⟩
    exact hstart ▸ (h.marked b hmem).1 hvisited

theorem stack_opening {start : Nat} {b : Block} {entry : List Expr}
    (hblock : g.block? start = some b) (hentry : g.entryStack? start = some entry)
    (store : Store) : (opening b store).stack = entry := by
  unfold Graph.entryStack? at hentry
  rw [hblock, Option.bind_some] at hentry
  show b.entryStack.getD [] = entry
  rw [hentry, Option.getD_some]

namespace Walk

/-- A settled stack stays, and it is the one on which the block is replayed. -/
theorem settled (h : Walk c g store worklist visits out) {start : Nat} {entry : List Expr}
    (hentry : g.entryStack? start = some entry) :
    out.2.1.entryStack? start = some entry ∧
      ∀ v ∈ visits, v.start = start → v.before.stack = entry := by
  obtain ⟨hout, hvisits⟩ := h.invariant (I := fun g _ => g.entryStack? start = some entry) hentry
    (fun g _ b _ _ hg _ => (entryStack?_mark g b.start).trans hg)
    (fun _ _ b s hg _ => entryStack?_leave c b s hg)
  refine ⟨hout, fun v hv hsame => ?_⟩
  obtain ⟨g', hg, hblock, hbefore⟩ := hvisits v hv
  rw [hbefore]
  exact stack_opening (hsame ▸ hblock) hg _

/-- If the open blocks on the worklist have settled stacks, so has every visited block:
the one on which it was replayed. -/
theorem entryStack?_eq (h : Walk c g store worklist visits out)
    (hsettled : ∀ a ∈ worklist, g.IsOpen a → ∃ entry, g.entryStack? a = some entry) :
    ∀ v ∈ visits, out.2.1.entryStack? v.start = some v.before.stack := by
  induction h with
  | done => simp
  | skip _ _ ih => exact ih fun a ha => hsettled a (List.mem_cons_of_mem _ ha)
  | @stop g store start b fault s rest hblock hnew hreplay =>
      intro v hv
      rw [List.mem_singleton.1 hv]
      obtain ⟨entry, hentry⟩ := hsettled start List.mem_cons_self ⟨b, hblock, hnew⟩
      show (mark g b.start).entryStack? b.start = some (opening b store).stack
      rw [stack_opening hblock hentry, entryStack?_mark, (Graph.mem_of_block? hblock).2, hentry]
  | @visit g store start rest b s visits out hblock hnew hreplay hrest ih =>
      obtain ⟨entry, hentry⟩ := hsettled start List.mem_cons_self ⟨b, hblock, hnew⟩
      intro v hv
      rcases List.mem_cons.1 hv with rfl | hv
      · show out.2.1.entryStack? b.start = some (opening b store).stack
        rw [stack_opening hblock hentry, (Graph.mem_of_block? hblock).2]
        exact (hrest.settled (entryStack?_leave c b s hentry)).1
      · refine ih (fun a ha hopen => ?_) v hv
        rw [isOpen_leave] at hopen
        rcases List.mem_append.1 ha with ha | ha
        · rw [entryStack?_leave_eq]
          exact exists_entryStack?_handOffAll c s.stack (List.mem_filter.1 ha).1 hopen s.store
        · obtain ⟨entry, hentry⟩ := hsettled a (List.mem_cons_of_mem _ ha) (isOpen_of_mark hopen)
          exact ⟨entry, entryStack?_leave c b s hentry⟩

theorem replayedOn_eq (h : Walk c g store worklist visits out) {start : Nat}
    {entry : List Expr} (hentry : g.entryStack? start = some entry)
    (hin : start ∈ visits.map Visit.start) : replayedOn visits start = some entry := by
  obtain ⟨w, hfound, hw, hsame⟩ := exists_find?_start hin
  rw [replayedOn, hfound, Option.map_some, (h.settled hentry).2 w hw hsame]

/-- A walk reports exactly the disagreements along edges to later visits. -/
theorem mismatches (h : Walk c g store worklist visits out)
    (hg : Exploring fresh g visited worklist) (hfresh : fresh.Fresh) (hout : out.1 = none) :
    out.2.2.mismatches = store.mismatches ++
      (laterEdges visits).filterMap (disagreement (store.frames[c.current]?.map (·.name))) := by
  induction h generalizing visited with
  | done => simp [laterEdges]
  | skip hvisited _ ih => exact ih (hg.skip hfresh hvisited) hout
  | stop => cases hout
  | @visit g store start rest b s visits out hblock hnew hreplay hrest ih =>
      have hvisit := hg.visit hfresh c hblock hnew s
      have hstart := (Graph.mem_of_block? hblock).2
      have hcontinues := continues_opening c b store hreplay
      have hmark : Explored fresh (mark g b.start) (visited ++ [start]) := hstart ▸ hg.mark start
      have hnext : ∀ target ∈ b.successors, fresh.Reaches target := fun target htarget =>
        (hg.worklist_reaches start List.mem_cons_self).tail ((hg.leads_iff hblock).2 htarget)
      have hopen := fun target htarget =>
        hmark.isOpen_iff (hfresh.block (hnext target htarget))
      -- A successor that is not open was visited, so it is not visited again.
      have hclosed : ∀ target ∈ b.successors, ¬ (mark g b.start).IsOpen target →
          replayedOn visits target = none := by
        intro target htarget hnot
        rw [hopen target htarget, not_not] at hnot
        exact replayedOn_eq_none (hrest.distinct hvisit hfresh) hnot
      -- An open one is visited later, on the stack that is settled now.
      have hsettled : ∀ target ∈ b.successors, (mark g b.start).IsOpen target →
          (handOffAll c s.stack b.successors (mark g b.start) s.store).1.entryStack? target =
            replayedOn visits target := by
        intro target htarget hisOpen
        have hend := hrest.exploring hvisit hfresh hout
        have hin := (List.mem_append.1 (hend.mem_visited_iff.2 (hnext target htarget))).resolve_left
          ((hopen target htarget).1 hisOpen)
        obtain ⟨entry, hentry⟩ :=
          exists_entryStack?_handOffAll c s.stack htarget hisOpen s.store
        rw [hentry, hrest.replayedOn_eq ((entryStack?_leave_eq c b s g).trans hentry) hin]
      have hhanded := mismatches_handOffAll c s.stack hclosed s.store hsettled
      rw [name?_congr hcontinues.heads, hcontinues.mismatches] at hhanded
      rw [ih hvisit hout, name?_congr (keeps_leave c hreplay g).heads c.current, laterEdges,
        List.filterMap_append, disagreements_from, ← List.append_assoc]
      exact congrArg (· ++ _) hhanded

end Walk

end Walks

/-- The entry block has a settled stack from the beginning. -/
theorem entryStack?_openEntry {fresh : Graph} (hfresh : fresh.Fresh) :
    (openEntry fresh).entryStack? fresh.entry = some [] := by
  obtain ⟨b, hb⟩ := hfresh.entry
  obtain ⟨hmem, hstart⟩ := Graph.mem_of_block? hb
  unfold Graph.entryStack? openEntry
  rw [fresh.block?_modifyBlock fresh.entry fresh.entry (by intro; rfl), hb, ← hfresh.untouched hmem]
  simp [Block.bare]

/-- No other block has one yet. -/
theorem entryStack?_openEntry_of_ne {fresh : Graph} (hfresh : fresh.Fresh) {start : Nat}
    (hother : start ≠ fresh.entry) : (openEntry fresh).entryStack? start = none := by
  unfold Graph.entryStack? openEntry
  rw [fresh.block?_modifyBlock fresh.entry start (by intro; rfl)]
  cases hb : fresh.block? start with
  | none => rfl
  | some b =>
      rw [Option.map_some, if_neg hother, Option.bind_some,
        ← hfresh.untouched (Graph.mem_of_block? hb).1]
      rfl

/-- Decompiling a function that was just built, in whatever program, reports exactly the
disagreements along edges from a visited block to one that is visited later, each of them
once.  The stack that a visited block is entered with is the one kept with the block. -/
theorem decompileFunction_mismatches {instructions : List Instruction} {f : Flow.Function}
    (hf : f ∈ (buildFunctions instructions).1) (p : Program) (c : Context)
    (hgraph : p.graphs[c.current]? = some f.graph)
    (hsuccess : (p.decompileFunction c).1 = none) :
    ∃ visits g,
      (p.decompileFunction c).2.graphs[c.current]? = some g ∧
      Walk c (openEntry f.graph) p.store [f.graph.entry] visits
        (none, g, (p.decompileFunction c).2.store) ∧
      (∀ a, a ∈ visits.map Visit.start ↔ f.graph.Reaches a) ∧
      (∀ v ∈ visits, f.graph.block? v.start = some v.block.bare ∧
        g.entryStack? v.start = some v.before.stack) ∧
      (∀ v w, (v, w) ∈ laterEdges visits ↔
        [v, w].Sublist visits ∧ w.start ∈ v.block.successors) ∧
      (laterEdges visits).Nodup ∧
      (p.decompileFunction c).2.store.mismatches = p.store.mismatches ++
        (laterEdges visits).filterMap
          (disagreement (p.store.frames[c.current]?.map (·.name))) := by
  have hfresh := fresh_of_mem_buildFunctions hf
  have hopen := exploring_openEntry hfresh
  obtain ⟨visits, ⟨fault, g, store⟩, hwalk, hrun⟩ := decompileFunction_eq hgraph
  rw [hrun] at hsuccess ⊢
  dsimp only at hsuccess ⊢
  subst hsuccess
  have hexplored := hwalk.exploring hopen hfresh rfl
  rw [List.nil_append] at hexplored
  have hblock := fun v hv => (hwalk.reaches hopen hfresh v hv).2
  have hentered := hwalk.entryStack?_eq fun a ha _ => by
    rw [List.mem_singleton.1 ha]
    exact ⟨[], entryStack?_openEntry hfresh⟩
  obtain ⟨hlt, -⟩ := Array.getElem?_eq_some_iff.1 hgraph
  refine ⟨visits, g, Array.getElem?_setIfInBounds_self_of_lt hlt, hwalk,
    fun a => hexplored.mem_visited_iff, fun v hv => ⟨hblock v hv, hentered v hv⟩,
    fun v w => mem_laterEdges hexplored.distinct, ?_, hwalk.mismatches hopen hfresh rfl⟩
  refine nodup_laterEdges hexplored.distinct fun v hv => ?_
  exact hfresh.distinct v.block.bare (Graph.mem_of_block? (hblock v hv)).1

/-- A branch around an instruction that pushes a value: both edges into the block behind
lead to a later visit, and the second one brings a value that the first did not. -/
theorem decompileFunction_mismatches_branch :
    let instructions : List Instruction := [⟨0, 45, .enter 0 2 "f", 6⟩, ⟨6, 111, .impliedInt 1, 1⟩,
      ⟨7, 86, .branch 1 11, 3⟩, ⟨10, 117, .impliedInt 7, 1⟩, ⟨11, 46, .ret 0 0, 3⟩]
    let c : Context := ⟨⟨"u", [], 0, [], #[], []⟩, .empty, false, 0⟩
    ∃ f, (buildFunctions instructions).1 = [f] ∧
      ((Program.ofFunctions [f] [] []).decompileFunction c).1 = none ∧
      ∃ visits g, Walk c (openEntry f.graph) (Program.ofFunctions [f] [] []).store
          [f.graph.entry] visits
          (none, g, ((Program.ofFunctions [f] [] []).decompileFunction c).2.store) ∧
        (laterEdges visits).filterMap (disagreement (some "f")) =
          [⟨some "f", some 11, .entryStackMismatch 11 0 1⟩] := by
  intro instructions c
  obtain ⟨f, hf⟩ := List.length_eq_one_iff.1
    (show (buildFunctions instructions).1.length = 1 by decide +kernel)
  have hname : (buildFunctions instructions).1.map (·.frame.name) = ["f"] := by decide +kernel
  have hrun : (buildFunctions instructions).1.map (fun f =>
      (walkWithin c 9 (openEntry f.graph) (Program.ofFunctions [f] [] []).store
        [f.graph.entry]).map fun walk => (walk.2.1, walk.2.2.2.mismatches)) =
      [some (none, [⟨some "f", some 11, .entryStackMismatch 11 0 1⟩])] := by decide +kernel
  rw [hf] at hname hrun
  obtain ⟨⟨found, out⟩, hwithin, hfound⟩ := Option.map_eq_some_iff.1 (List.singleton_inj.1 hrun)
  obtain ⟨hnone, hmismatches⟩ := Prod.mk.inj hfound
  have hout := explore_of_walk (walk_of_walkWithin hwithin)
  have hfunction : (Program.ofFunctions [f] [] []).decompileFunction c =
      (out.1, ⟨out.2.2, #[out.2.1]⟩) := by
    show (_, _) = _
    rw [← hout]
    rfl
  have hsuccess : ((Program.ofFunctions [f] [] []).decompileFunction c).1 = none := by
    rw [hfunction]
    exact hnone
  obtain ⟨visits, g, -, hwalk, -, -, -, -, hreported⟩ := decompileFunction_mismatches
    (show f ∈ (buildFunctions instructions).1 from hf ▸ List.mem_cons_self)
    (Program.ofFunctions [f] [] []) c rfl hsuccess
  refine ⟨f, hf, hsuccess, visits, g, hwalk, ?_⟩
  have hfirst : (Program.ofFunctions [f] [] []).store.frames[c.current]?.map (·.name) =
      some "f" := congrArg some (List.singleton_inj.1 hname)
  rw [hfirst, hfunction, hmismatches] at hreported
  exact hreported.symm

/-- A loop that leaves a value behind in each round: the stack at its end is deeper than
the one it is entered with, and nothing is reported. -/
theorem exists_unreported_disagreement :
    let instructions : List Instruction := [⟨0, 45, .enter 0 2 "f", 6⟩, ⟨6, 111, .impliedInt 1, 1⟩,
      ⟨7, 85, .branch (-4) 6, 3⟩]
    let c : Context := ⟨⟨"u", [], 0, [], #[], []⟩, .empty, false, 0⟩
    ∃ f, (buildFunctions instructions).1 = [f] ∧
      ∃ visits g store,
        (Program.ofFunctions [f] [] []).decompileFunction c = (none, ⟨store, #[g]⟩) ∧
        Walk c (openEntry f.graph) (Program.ofFunctions [f] [] []).store [f.graph.entry] visits
          (none, g, store) ∧
        ∃ v ∈ visits, ∃ w ∈ visits, w.start ∈ v.block.successors ∧
          (g.entryStack? w.start).map List.length = some w.before.stack.length ∧
          disagreement (some "f") (v, w) = some ⟨some "f", some 6, .entryStackMismatch 6 0 1⟩ ∧
          store.mismatches = [] := by
  intro instructions c
  obtain ⟨f, hf⟩ := List.length_eq_one_iff.1
    (show (buildFunctions instructions).1.length = 1 by decide +kernel)
  have hrun : (buildFunctions instructions).1.map (fun f =>
      (walkWithin c 9 (openEntry f.graph) (Program.ofFunctions [f] [] []).store
        [f.graph.entry]).map fun walk => (walk.2.1, walk.2.2.2.mismatches,
          walk.1.any fun v => walk.1.any fun w => decide (w.start ∈ v.block.successors ∧
            (walk.2.2.1.entryStack? w.start).map List.length = some w.before.stack.length ∧
            disagreement (some "f") (v, w) =
              some ⟨some "f", some 6, .entryStackMismatch 6 0 1⟩))) =
      [some (none, [], true)] := by decide +kernel
  rw [hf] at hrun
  obtain ⟨⟨visits, fault, g, store⟩, hwithin, hfound⟩ :=
    Option.map_eq_some_iff.1 (List.singleton_inj.1 hrun)
  simp only [Prod.mk.injEq, List.any_eq_true, decide_eq_true_eq] at hfound
  obtain ⟨rfl, hmismatches, v, hv, w, hw, hedge, hentry, hdisagree⟩ := hfound
  have hwalk := walk_of_walkWithin hwithin
  have hout := explore_of_walk hwalk
  refine ⟨f, hf, visits, g, store, ?_, hwalk, v, hv, w, hw, hedge, hentry, hdisagree,
    hmismatches⟩
  unfold Program.decompileFunction
  simp only [show (Program.ofFunctions [f] [] []).graphs[c.current]? = some f.graph from rfl, hout]
  rfl

end Machine

end ScriptDecompiler
