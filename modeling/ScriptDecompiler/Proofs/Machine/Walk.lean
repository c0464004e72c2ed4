import ScriptDecompiler.Proofs.Flow.Reachability
import ScriptDecompiler.Proofs.Machine.Preservation

/-!
# Walks through a graph

An exploration takes addresses off a worklist.  An address whose block was visited
before is dropped; any other block is visited: it is marked, replayed, and its
final stack handed on.  A walk is the list of these visits, each with the state in
which the replay of the block began and the one in which it ended.  Every
exploration is a walk, and so it is finite.

The invariant of a walk: the marked blocks are the ones visited so far, an edge
from a visited block leads to a visited block or to one on the worklist, and
everything visited, on the worklist or given an entry stack is reachable.  When the
worklist is empty, the visited blocks are therefore the reachable ones.
-/

namespace ScriptDecompiler.Machine

open ScriptDecompiler.Bytecode (Instruction)
open ScriptDecompiler.Flow (Block Graph)

/-- One visit: the block as it was found, and the states in which its replay began
and ended. -/
structure Visit where
  block : Block
  before : State
  after : State

/-- Where the visited block starts. -/
def Visit.start (v : Visit) : Nat :=
  v.block.start

/-- The state in which the replay of a block begins. -/
def opening (b : Block) (store : Store) : State :=
  ⟨store, b.entryStack.getD [], #[]⟩

/-- The graph and the store behind a visit of a block whose replay ended in `s`. -/
def leave (c : Context) (b : Block) (s : State) (g : Graph) : Graph × Store :=
  let handed := handOffAll c s.stack b.successors (mark g b.start) s.store
  (handed.1.modifyBlock b.start ({ · with statements := s.emitted.toList }), handed.2)

theorem visit_eq (c : Context) (b : Block) (g : Graph) (store : Store) :
    visit c b g store =
      match replay c (opening b store) b.instructions with
      | (some fault, s) => (some fault, mark g b.start, s.store)
      | (none, s) => (none, leave c b s g) := rfl

theorem visit_cases (c : Context) (b : Block) (g : Graph) (store : Store) :
    (∃ fault s, replay c (opening b store) b.instructions = (some fault, s) ∧
      visit c b g store = (some fault, mark g b.start, s.store)) ∨
    ∃ s, replay c (opening b store) b.instructions = (none, s) ∧
      visit c b g store = (none, leave c b s g) := by
  rw [visit_eq]
  obtain ⟨_ | fault, s⟩ := replay c (opening b store) b.instructions
  · exact Or.inr ⟨s, rfl, rfl⟩
  · exact Or.inl ⟨fault, s, rfl, rfl⟩

/-- The visits of an exploration, with its outcome.  A visit that meets a fault is
the last one. -/
inductive Walk (c : Context) :
    Graph → Store → (worklist : List Nat) → List Visit → Option Fault × Graph × Store → Prop
  | done (g : Graph) (store : Store) : Walk c g store [] [] (none, g, store)
  | skip {g : Graph} {store : Store} {start : Nat} {rest : List Nat} {visits : List Visit}
      {out : Option Fault × Graph × Store}
      (hvisited : ∀ b, g.block? start = some b → b.visited = true)
      (hrest : Walk c g store rest visits out) : Walk c g store (start :: rest) visits out
  | stop {g : Graph} {store : Store} {start : Nat} {b : Block} {fault : Fault} {s : State}
      (rest : List Nat) (hblock : g.block? start = some b) (hnew : b.visited = false)
      (hreplay : replay c (opening b store) b.instructions = (some fault, s)) :
      Walk c g store (start :: rest) [⟨b, opening b store, s⟩]
        (some fault, mark g b.start, s.store)
  | visit {g : Graph} {store : Store} {start : Nat} {rest : List Nat} {b : Block} {s : State}
      {visits : List Visit} {out : Option Fault × Graph × Store}
      (hblock : g.block? start = some b) (hnew : b.visited = false)
      (hreplay : replay c (opening b store) b.instructions = (none, s))
      (hrest : Walk c (leave c b s g).1 (leave c b s g).2
        (b.successors.filter (!(leave c b s g).1.isVisited ·) ++ rest) visits out) :
      Walk c g store (start :: rest) (⟨b, opening b store, s⟩ :: visits) out

/-- Every exploration is a walk. -/
theorem walk_explore (c : Context) (g : Graph) (store : Store) (worklist : List Nat) :
    ∃ visits, Walk c g store worklist visits (explore c g store worklist) := by
  fun_induction explore c g store worklist with
  | case1 g store => exact ⟨[], .done g store⟩
  | case2 g store start rest hfind ih =>
      obtain ⟨visits, hwalk⟩ := ih
      exact ⟨visits, .skip (fun b hb => by rw [hfind] at hb; cases hb) hwalk⟩
  | case3 g store start rest b hfind hb ih =>
      obtain ⟨visits, hwalk⟩ := ih
      refine ⟨visits, .skip (fun b' hb' => ?_) hwalk⟩
      rw [hfind, Option.some.injEq] at hb'
      exact hb' ▸ hb
  | case4 g store start rest b hfind hb after hlt fault hfault =>
      obtain ⟨found, s, hreplay, hafter : after = _⟩ | ⟨s, -, hafter : after = _⟩ :=
        visit_cases c b g store
      · rw [hafter] at hfault ⊢
        cases hfault
        exact ⟨_, .stop rest hfind (Bool.eq_false_iff.2 hb) hreplay⟩
      · rw [hafter] at hfault
        cases hfault
  | case5 g store start rest b hfind hb after hlt hnone ih =>
      obtain ⟨visits, hwalk⟩ := ih
      obtain ⟨found, s, -, hafter : after = _⟩ | ⟨s, hreplay, hafter : after = _⟩ :=
        visit_cases c b g store
      · rw [hafter] at hnone
        cases hnone
      · rw [hafter] at hwalk ⊢
        exact ⟨_, .visit hfind (Bool.eq_false_iff.2 hb) hreplay hwalk⟩

theorem explore_skip (c : Context) {g : Graph} (store : Store) {start : Nat} (rest : List Nat)
    (hvisited : ∀ b, g.block? start = some b → b.visited = true) :
    explore c g store (start :: rest) = explore c g store rest := by
  rw [explore]
  split
  · rfl
  · rename_i b hb
    rw [dif_pos (hvisited b hb)]

theorem explore_new (c : Context) {g : Graph} (store : Store) {start : Nat} (rest : List Nat)
    {b : Block} (hblock : g.block? start = some b) (hnew : b.visited = false) :
    explore c g store (start :: rest) =
      match visit c b g store with
      | (some fault, left) => (some fault, left)
      | (none, left) =>
        explore c left.1 left.2 (b.successors.filter (!left.1.isVisited ·) ++ rest) := by
  rw [explore]
  split
  · rename_i hnone
    rw [hblock] at hnone
    cases hnone
  · rename_i b' hb'
    rw [hblock, Option.some.injEq] at hb'
    subst hb'
    rw [dif_neg (Bool.eq_false_iff.1 hnew)]
    dsimp only
    rcases visit c b g store with ⟨_ | fault, left⟩ <;> rfl

/-- A walk has the outcome of the exploration. -/
theorem explore_of_walk {c : Context} {g : Graph} {store : Store} {worklist : List Nat}
    {visits : List Visit} {out : Option Fault × Graph × Store}
    (h : Walk c g store worklist visits out) : explore c g store worklist = out := by
  induction h with
  | done => rw [explore]
  | skip hvisited _ ih => rw [explore_skip c _ _ hvisited, ih]
  | stop rest hblock hnew hreplay => rw [explore_new c _ rest hblock hnew, visit_eq, hreplay]
  | visit hblock hnew hreplay _ ih =>
      rw [explore_new c _ _ hblock hnew, visit_eq, hreplay]
      exact ih

/-- The walk of an exploration that takes at most `fuel` addresses off its worklist. -/
def walkWithin (c : Context) :
    (fuel : Nat) → Graph → Store → List Nat → Option (List Visit × Option Fault × Graph × Store)
  | _, g, store, [] => some ([], none, g, store)
  | 0, _, _, _ :: _ => none
  | fuel + 1, g, store, start :: rest =>
    match g.block? start with
    | none => walkWithin c fuel g store rest
    | some b =>
      if b.visited then walkWithin c fuel g store rest
      else
        match replay c (opening b store) b.instructions with
        | (some fault, s) => some ([⟨b, opening b store, s⟩], some fault, mark g b.start, s.store)
        | (none, s) =>
          let left := leave c b s g
          (walkWithin c fuel left.1 left.2 (b.successors.filter (!left.1.isVisited ·) ++ rest)).map
            fun (visits, out) => (⟨b, opening b store, s⟩ :: visits, out)

theorem walk_of_walkWithin {c : Context} {fuel : Nat} {g : Graph} {store : Store}
    {worklist : List Nat} {visits : List Visit} {out : Option Fault × Graph × Store}
    (h : walkWithin c fuel g store worklist = some (visits, out)) :
    Walk c g store worklist visits out := by
  fun_induction walkWithin c fuel g store worklist generalizing visits with
  | case1 fuel g store =>
      cases h
      exact .done g store
  | case2 => cases h
  | case3 fuel g store start rest hnone ih =>
      exact .skip (fun b hb => by rw [hnone] at hb; cases hb) (ih h)
  | case4 fuel g store start rest b hblock hvisited ih =>
      refine .skip (fun b' hb' => ?_) (ih h)
      rw [hblock, Option.some.injEq] at hb'
      exact hb' ▸ hvisited
  | case5 fuel g store start rest b hblock hnew fault s hreplay =>
      cases h
      exact .stop rest hblock (Bool.eq_false_iff.2 hnew) hreplay
  | case6 fuel g store start rest b hblock hnew s hreplay left =>
      rename_i ih
      obtain ⟨⟨later, out'⟩, hlater, hcons⟩ := Option.map_eq_some_iff.1 h
      cases hcons
      exact .visit hblock (Bool.eq_false_iff.2 hnew) hreplay (ih hlater)

/-- What holds at the beginning of a walk and is kept by every visit holds at its end, and
whenever a visit begins. -/
theorem Walk.invariant {c : Context} {g : Graph} {store : Store} {worklist : List Nat}
    {visits : List Visit} {out : Option Fault × Graph × Store} {I : Graph → Store → Prop}
    (h : Walk c g store worklist visits out) (hstart : I g store)
    (hstop : ∀ g store b fault s, I g store →
      replay c (opening b store) b.instructions = (some fault, s) → I (mark g b.start) s.store)
    (hleave : ∀ g store b s, I g store →
      replay c (opening b store) b.instructions = (none, s) →
        I (leave c b s g).1 (leave c b s g).2) :
    I out.2.1 out.2.2 ∧ ∀ v ∈ visits, ∃ g, I g v.before.store ∧
      g.block? v.start = some v.block ∧ v.before = opening v.block v.before.store := by
  induction h with
  | done => exact ⟨hstart, by simp⟩
  | skip _ _ ih => exact ih hstart
  | @stop g store start b fault s rest hblock hnew hreplay =>
      refine ⟨hstop g store b fault s hstart hreplay, fun v hv => ?_⟩
      rw [List.mem_singleton.1 hv]
      exact ⟨g, hstart, Graph.block?_start hblock, rfl⟩
  | @visit g store start rest b s visits out hblock hnew hreplay _ ih =>
      obtain ⟨hout, hlater⟩ := ih (hleave g store b s hstart hreplay)
      refine ⟨hout, fun v hv => ?_⟩
      rcases List.mem_cons.1 hv with rfl | hv
      · exact ⟨g, hstart, Graph.block?_start hblock, rfl⟩
      · exact hlater v hv

section Stores

variable (c : Context)

/-- What handing a stack on to one target keeps, handing it on to several ones keeps as well. -/
theorem handOffAll_keeps {P : Graph → Store → Prop} {stack : List Expr} {targets : List Nat}
    (hstep : ∀ target ∈ targets, ∀ g store, P g store →
      P (handOff c stack target g store).1 (handOff c stack target g store).2)
    {g : Graph} {store : Store} (h : P g store) :
    P (handOffAll c stack targets g store).1 (handOffAll c stack targets g store).2 := by
  induction targets generalizing g store with
  | nil => exact h
  | cons target rest ih =>
      rw [handOffAll]
      exact ih (fun other hother => hstep other (List.mem_cons_of_mem _ hother))
        (hstep target List.mem_cons_self g store h)

/-- Handing on a stack leaves the store alone, or reports that the depths differ. -/
theorem handOff_store (stack : List Expr) (target : Nat) (g : Graph) (store : Store) :
    (handOff c stack target g store).2 = store ∨
      ∃ expected, (handOff c stack target g store).2 = store.diagnose c.current target
        (.entryStackMismatch target expected stack.length) := by
  unfold handOff
  split
  · exact Or.inl rfl
  · split
    · exact Or.inl rfl
    · split
      · exact Or.inl rfl
      · split
        · exact Or.inl rfl
        · exact Or.inr ⟨_, rfl⟩

theorem frames_handOff (stack : List Expr) (target : Nat) (g : Graph) (store : Store) :
    (handOff c stack target g store).2.frames = store.frames := by
  rcases handOff_store c stack target g store with hs | ⟨_, hs⟩ <;> rw [hs]
  rfl

theorem frames_handOffAll (stack : List Expr) (targets : List Nat) (g : Graph) (store : Store) :
    (handOffAll c stack targets g store).2.frames = store.frames :=
  handOffAll_keeps c (P := fun _ after => after.frames = store.frames)
    (fun target _ g after h => (frames_handOff c stack target g after).trans h) rfl

/-- The replay of a block. -/
theorem continues_opening (b : Block) (store : Store) {out : Option Fault} {s : State}
    (h : replay c (opening b store) b.instructions = (out, s)) :
    store.Continues c.current s.store := by
  have hcontinues := continues_replay c (opening b store) b.instructions
  rw [h] at hcontinues
  exact hcontinues

/-- A whole visit. -/
theorem keeps_leave {b : Block} {store : Store} {out : Option Fault} {s : State}
    (h : replay c (opening b store) b.instructions = (out, s)) (g : Graph) :
    store.Keeps c.current (leave c b s g).2 :=
  (continues_opening c b store h).toKeeps.trans
    (.of_frames c.current (frames_handOffAll c s.stack b.successors _ s.store))

end Stores

/-- A walk gets to know the result of the current function only. -/
theorem Walk.keeps {c : Context} {g : Graph} {store : Store} {worklist : List Nat}
    {visits : List Visit} {out : Option Fault × Graph × Store}
    (h : Walk c g store worklist visits out) :
    store.Keeps c.current out.2.2 ∧ ∀ v ∈ visits, store.Keeps c.current v.before.store := by
  obtain ⟨hout, hvisits⟩ := h.invariant (I := fun _ s => store.Keeps c.current s) (.refl _ _)
    (fun _ s b _ _ hs hreplay => hs.trans (continues_opening c b s hreplay).toKeeps)
    (fun g _ _ _ hs hreplay => hs.trans (keeps_leave c hreplay g))
  refine ⟨hout, fun v hv => ?_⟩
  obtain ⟨-, hv, -⟩ := hvisits v hv
  exact hv

section Graphs

variable (c : Context)

theorem bare_mark (g : Graph) (start : Nat) : (mark g start).bare = g.bare :=
  g.bare_modifyBlock start fun _ => rfl

/-- Handing on a stack leaves the graph alone, or gives a block its first entry
stack. -/
theorem handOff_graph (stack : List Expr) (target : Nat) (g : Graph) (store : Store) :
    (handOff c stack target g store).1 = g ∨
      (∃ b, g.block? target = some b ∧ b.entryStack = none) ∧
        (handOff c stack target g store).1 =
          g.modifyBlock target ({ · with entryStack := some stack }) := by
  unfold handOff
  split
  · exact Or.inl rfl
  · rename_i b hb
    split
    · exact Or.inl rfl
    · split
      · rename_i hnone
        exact Or.inr ⟨⟨b, hb, hnone⟩, rfl⟩
      · split <;> exact Or.inl rfl

theorem bare_handOff (stack : List Expr) (target : Nat) (g : Graph) (store : Store) :
    (handOff c stack target g store).1.bare = g.bare := by
  rcases handOff_graph c stack target g store with hg | ⟨-, hg⟩
  · rw [hg]
  · rw [hg]
    exact g.bare_modifyBlock target (by intro; rfl)

theorem bare_handOffAll (stack : List Expr) (targets : List Nat) (g : Graph) (store : Store) :
    (handOffAll c stack targets g store).1.bare = g.bare :=
  handOffAll_keeps c (P := fun after _ => after.bare = g.bare)
    (fun target _ after store h => (bare_handOff c stack target after store).trans h) rfl

theorem bare_leave (b : Block) (s : State) (g : Graph) : (leave c b s g).1.bare = g.bare :=
  (Graph.bare_modifyBlock _ b.start (by intro; rfl)).trans
    ((bare_handOffAll c s.stack b.successors _ s.store).trans (bare_mark g b.start))

theorem bare_openEntry (g : Graph) : (openEntry g).bare = g.bare :=
  g.bare_modifyBlock g.entry (by intro; rfl)

/-- Do the blocks that start at an address have this entry stack? -/
def Enters (g : Graph) (start : Nat) (stack : List Expr) : Prop :=
  ∀ b ∈ g.blocks, b.start = start → b.entryStack = some stack

variable {c} {g : Graph} {start : Nat} {entry : List Expr}

theorem Enters.modifyBlock (h : Enters g start entry) (target : Nat) {change : Block → Block}
    (hstart : ∀ b, (change b).start = b.start) (hentry : ∀ b, (change b).entryStack = b.entryStack) :
    Enters (g.modifyBlock target change) start entry := by
  intro b hb hsame
  rcases Graph.of_mem_modifyBlock hb with ⟨original, hmem, -, rfl⟩ | ⟨-, hmem⟩
  · rw [hentry]
    exact h original hmem ((hstart original).symm.trans hsame)
  · exact h b hmem hsame

/-- The first entry stack stays. -/
theorem Enters.handOff (h : Enters g start entry) (stack : List Expr) (target : Nat)
    (store : Store) : Enters (handOff c stack target g store).1 start entry := by
  rcases handOff_graph c stack target g store with hg | ⟨⟨first, hfirst, hnone⟩, hg⟩
  · rw [hg]
    exact h
  · rw [hg]
    intro b hb hsame
    rcases Graph.of_mem_modifyBlock hb with ⟨original, -, htarget, rfl⟩ | ⟨-, hmem⟩
    · -- The target has no entry stack yet, so it is not the block in question.
      obtain ⟨hin, hstart⟩ := Graph.mem_of_block? hfirst
      have hsome := h first hin (hstart.trans (htarget.symm.trans hsame))
      rw [hnone] at hsome
      cases hsome
    · exact h b hmem hsame

theorem Enters.handOffAll (h : Enters g start entry) (stack : List Expr) (targets : List Nat)
    (store : Store) : Enters (handOffAll c stack targets g store).1 start entry :=
  handOffAll_keeps c (P := fun after _ => Enters after start entry)
    (fun target _ _ store h => h.handOff stack target store) h

theorem Enters.leave (h : Enters g start entry) (b : Block) (s : State) :
    Enters (leave c b s g).1 start entry := by
  have hmark : Enters (mark g b.start) start entry :=
    h.modifyBlock b.start (fun _ => rfl) fun _ => rfl
  exact (hmark.handOffAll s.stack b.successors s.store).modifyBlock b.start (fun _ => rfl)
    fun _ => rfl

theorem Enters.walk {store : Store} {worklist : List Nat} {visits : List Visit}
    {out : Option Fault × Graph × Store} (hwalk : Walk c g store worklist visits out)
    (h : Enters g start entry) : Enters out.2.1 start entry :=
  (hwalk.invariant (I := fun g _ => Enters g start entry) h
    (fun _ _ b _ _ hg _ => hg.modifyBlock b.start (fun _ => rfl) fun _ => rfl)
    (fun _ _ b s hg _ => hg.leave b s)).1

/-- A walk builds no blocks, and replays those that were built. -/
theorem Walk.bare {store : Store} {worklist : List Nat} {visits : List Visit}
    {out : Option Fault × Graph × Store} (h : Walk c g store worklist visits out) :
    out.2.1.bare = g.bare ∧ ∀ v ∈ visits, v.block.bare ∈ g.bare.blocks := by
  obtain ⟨hout, hvisits⟩ := h.invariant (I := fun g' _ => g'.bare = g.bare) rfl
    (fun g' _ b _ _ hg _ => (bare_mark g' b.start).trans hg)
    (fun g' _ b s hg _ => (bare_leave c b s g').trans hg)
  refine ⟨hout, fun v hv => ?_⟩
  obtain ⟨g', hg, hblock, -⟩ := hvisits v hv
  rw [← hg]
  exact List.mem_map_of_mem (Graph.mem_of_block? hblock).1

end Graphs

/-- What an exploration of the fresh graph `fresh` has left behind in `g` when the
blocks that start at `visited` were visited. -/
structure Explored (fresh g : Graph) (visited : List Nat) : Prop where
  bare : g.bare = fresh
  marked : ∀ b ∈ g.blocks, b.visited = true ↔ b.start ∈ visited
  stacked : ∀ b ∈ g.blocks, b.entryStack ≠ none → fresh.Reaches b.start
  stated : ∀ b ∈ g.blocks, b.statements ≠ [] → b.start ∈ visited

namespace Explored

variable {fresh g : Graph} {visited : List Nat}

theorem block? (h : Explored fresh g visited) (start : Nat) :
    fresh.block? start = (g.block? start).map Block.bare := by
  rw [← h.bare, Graph.block?_bare]

theorem entry_eq (h : Explored fresh g visited) : g.entry = fresh.entry := by
  rw [← h.bare]
  rfl

theorem leads_iff (h : Explored fresh g visited) {start target : Nat} {b : Block}
    (hb : g.block? start = some b) : fresh.Leads start target ↔ target ∈ b.successors := by
  unfold Graph.Leads
  rw [h.block?, hb]
  simp [Block.bare]

theorem not_mem_visited (h : Explored fresh g visited) {start : Nat} {b : Block}
    (hb : g.block? start = some b) (hnew : b.visited = false) : start ∉ visited := by
  obtain ⟨hmem, hstart⟩ := Graph.mem_of_block? hb
  rw [← hstart, ← h.marked b hmem, hnew]
  simp

theorem mem_of_isVisited (h : Explored fresh g visited) {start : Nat}
    (hstart : g.isVisited start = true) : start ∈ visited := by
  simp only [Graph.isVisited, List.any_eq_true, Bool.and_eq_true, decide_eq_true_eq] at hstart
  obtain ⟨b, hb, rfl, hvisited⟩ := hstart
  exact (h.marked b hb).1 hvisited

theorem isVisited_iff (h : Explored fresh g visited) {start : Nat}
    (hblock : ∃ b, fresh.block? start = some b) : g.isVisited start = true ↔ start ∈ visited := by
  refine ⟨h.mem_of_isVisited, fun hin => ?_⟩
  obtain ⟨b, hb⟩ := hblock
  rw [h.block?] at hb
  obtain ⟨original, horiginal, -⟩ := Option.map_eq_some_iff.1 hb
  obtain ⟨hmem, hstart⟩ := Graph.mem_of_block? horiginal
  simp only [Graph.isVisited, List.any_eq_true, Bool.and_eq_true, decide_eq_true_eq]
  exact ⟨original, hmem, hstart, (h.marked original hmem).2 (hstart.symm ▸ hin)⟩

/-- Changing a block in what replaying leaves behind. -/
theorem modifyBlock {visited' : List Nat} (h : Explored fresh g visited) (start : Nat)
    {change : Block → Block} (hbare : ∀ b, (change b).bare = b.bare)
    (hvisited : ∀ a, a ≠ start → (a ∈ visited' ↔ a ∈ visited))
    (hmarked : ∀ b ∈ g.blocks, b.start = start → ((change b).visited = true ↔ start ∈ visited'))
    (hstacked : ∀ b ∈ g.blocks, b.start = start → (change b).entryStack ≠ none →
      fresh.Reaches start)
    (hstated : ∀ b ∈ g.blocks, b.start = start → (change b).statements ≠ [] →
      start ∈ visited') : Explored fresh (g.modifyBlock start change) visited' := by
  have hsame : ∀ b, (change b).start = b.start := fun b => by
    have hstart := congrArg Block.start (hbare b)
    exact hstart
  refine ⟨(g.bare_modifyBlock start hbare).trans h.bare, fun b hb => ?_, fun b hb hne => ?_,
    fun b hb hne => ?_⟩
  · rcases Graph.of_mem_modifyBlock hb with ⟨original, hmem, hstart, rfl⟩ | ⟨hother, hmem⟩
    · rw [hsame, hstart]
      exact hmarked original hmem hstart
    · exact (h.marked b hmem).trans (hvisited b.start hother).symm
  · rcases Graph.of_mem_modifyBlock hb with ⟨original, hmem, hstart, rfl⟩ | ⟨-, hmem⟩
    · rw [hsame, hstart]
      exact hstacked original hmem hstart hne
    · exact h.stacked b hmem hne
  · rcases Graph.of_mem_modifyBlock hb with ⟨original, hmem, hstart, rfl⟩ | ⟨hother, hmem⟩
    · rw [hsame, hstart]
      exact hstated original hmem hstart hne
    · exact (hvisited b.start hother).2 (h.stated b hmem hne)

/-- Giving an entry stack to a block that can be reached. -/
theorem handOff (h : Explored fresh g visited) (c : Context) (stack : List Expr) {target : Nat}
    (htarget : fresh.Reaches target) (store : Store) :
    Explored fresh (handOff c stack target g store).1 visited := by
  rcases handOff_graph c stack target g store with hg | ⟨-, hg⟩
  · rw [hg]
    exact h
  · rw [hg]
    exact h.modifyBlock target (by intro; rfl) (fun _ _ => Iff.rfl)
      (fun b hb hstart => hstart ▸ h.marked b hb) (fun _ _ _ _ => htarget)
      (fun b hb hstart hne => hstart ▸ h.stated b hb hne)

theorem handOffAll (h : Explored fresh g visited) (c : Context) (stack : List Expr)
    {targets : List Nat} (htargets : ∀ target ∈ targets, fresh.Reaches target) (store : Store) :
    Explored fresh (handOffAll c stack targets g store).1 visited :=
  handOffAll_keeps c (P := fun after _ => Explored fresh after visited)
    (fun target htarget _ store h => h.handOff c stack (htargets target htarget) store) h

/-- Marking a block. -/
theorem mark (h : Explored fresh g visited) (start : Nat) :
    Explored fresh (mark g start) (visited ++ [start]) := by
  have hin : start ∈ visited ++ [start] := List.mem_append_right _ List.mem_cons_self
  exact h.modifyBlock start (by intro; rfl) (fun a ha => by simp [ha])
    (fun _ _ _ => iff_of_true rfl hin) (fun b hb hstart hne => hstart ▸ h.stacked b hb hne)
    (fun _ _ _ _ => hin)

/-- Keeping the statements of a block that was visited. -/
theorem keep (h : Explored fresh g visited) {start : Nat} (hstart : start ∈ visited)
    (statements : List Stmt) :
    Explored fresh (g.modifyBlock start ({ · with statements := statements })) visited :=
  h.modifyBlock start (by intro; rfl) (fun _ _ => Iff.rfl)
    (fun b hb hsame => hsame ▸ h.marked b hb)
    (fun b hb hsame hne => hsame ▸ h.stacked b hb hne) (fun _ _ _ _ => hstart)

/-- A whole visit. -/
theorem leave (h : Explored fresh g visited) (c : Context) {start : Nat} {b : Block}
    (hb : g.block? start = some b) (hreaches : fresh.Reaches start) (s : State) :
    Explored fresh (leave c b s g).1 (visited ++ [start]) := by
  have hstart := (Graph.mem_of_block? hb).2
  have htargets : ∀ target ∈ b.successors, fresh.Reaches target := fun target htarget =>
    hreaches.tail ((h.leads_iff hb).2 htarget)
  unfold Machine.leave
  rw [hstart]
  exact ((h.mark start).handOffAll c s.stack htargets s.store).keep
    (List.mem_append_right _ List.mem_cons_self) s.emitted.toList

end Explored

/-- The invariant of an exploration: besides what it has left behind, how the visited
blocks, the worklist and the edges go together. -/
structure Exploring (fresh g : Graph) (visited worklist : List Nat) : Prop
    extends Explored fresh g visited where
  distinct : visited.Nodup
  entry : fresh.entry ∈ visited ∨ fresh.entry ∈ worklist
  closed : ∀ a ∈ visited, ∀ b, fresh.Leads a b → b ∈ visited ∨ b ∈ worklist
  visited_reaches : ∀ a ∈ visited, fresh.Reaches a
  worklist_reaches : ∀ a ∈ worklist, fresh.Reaches a

namespace Exploring

variable {fresh g : Graph} {visited rest : List Nat} {start : Nat}

/-- The next block on the worklist is reachable, and still as it was built. -/
theorem here (h : Exploring fresh g visited (start :: rest)) {b : Block}
    (hb : g.block? start = some b) :
    fresh.Reaches b.start ∧ fresh.block? b.start = some b.bare := by
  rw [(Graph.mem_of_block? hb).2, h.block?, hb]
  exact ⟨h.worklist_reaches start List.mem_cons_self, rfl⟩

/-- Dropping a block that was visited before. -/
theorem skip (h : Exploring fresh g visited (start :: rest)) (hfresh : fresh.Fresh)
    (hvisited : ∀ b, g.block? start = some b → b.visited = true) :
    Exploring fresh g visited rest := by
  have hreaches := h.worklist_reaches start List.mem_cons_self
  obtain ⟨block, hblock⟩ := hfresh.block hreaches
  rw [h.block?] at hblock
  obtain ⟨b, hb, -⟩ := Option.map_eq_some_iff.1 hblock
  obtain ⟨hmem, hstart⟩ := Graph.mem_of_block? hb
  have hin : start ∈ visited := hstart ▸ (h.marked b hmem).1 (hvisited b hb)
  have hkeep : ∀ a, a ∈ visited ∨ a ∈ start :: rest → a ∈ visited ∨ a ∈ rest := by
    rintro a (ha | ha)
    · exact Or.inl ha
    · rcases List.mem_cons.1 ha with rfl | ha
      · exact Or.inl hin
      · exact Or.inr ha
  exact { h with
    entry := hkeep _ h.entry
    closed := fun a ha b hb => hkeep b (h.closed a ha b hb)
    worklist_reaches := fun a ha => h.worklist_reaches a (List.mem_cons_of_mem _ ha) }

/-- Visiting a block: every edge from it leads to a block that was visited, this one
included, or to one that is put on the worklist. -/
theorem visit (h : Exploring fresh g visited (start :: rest)) (hfresh : fresh.Fresh)
    (c : Context) {b : Block} (hb : g.block? start = some b) (hnew : b.visited = false)
    (s : State) :
    Exploring fresh (leave c b s g).1 (visited ++ [start])
      (b.successors.filter (!(leave c b s g).1.isVisited ·) ++ rest) := by
  have hreaches := h.worklist_reaches start List.mem_cons_self
  have hleave := h.leave c hb hreaches s
  have hnext : ∀ target ∈ b.successors, fresh.Reaches target := fun target htarget =>
    hreaches.tail ((h.leads_iff hb).2 htarget)
  have hkeep : ∀ a, a ∈ visited ∨ a ∈ start :: rest → a ∈ visited ++ [start] ∨
      a ∈ b.successors.filter (!(Machine.leave c b s g).1.isVisited ·) ++ rest := by
    rintro a (ha | ha)
    · exact Or.inl (List.mem_append_left _ ha)
    · rcases List.mem_cons.1 ha with rfl | ha
      · exact Or.inl (List.mem_append_right _ List.mem_cons_self)
      · exact Or.inr (List.mem_append_right _ ha)
  refine { hleave with
    distinct := ?_
    entry := hkeep _ h.entry
    closed := ?_
    visited_reaches := ?_
    worklist_reaches := ?_ }
  · rw [List.nodup_append]
    have hnot := h.not_mem_visited hb hnew
    exact ⟨h.distinct, by simp, by grind⟩
  · intro a ha target htarget
    rcases List.mem_append.1 ha with ha | ha
    · exact hkeep target (h.closed a ha target htarget)
    · rw [List.mem_singleton.1 ha] at htarget
      have hsuccessor := (h.leads_iff hb).1 htarget
      have hvisited := hleave.isVisited_iff (hfresh.block (hnext target hsuccessor))
      by_cases hin : target ∈ visited ++ [start]
      · exact Or.inl hin
      · refine Or.inr (List.mem_append_left _ (List.mem_filter.2 ⟨hsuccessor, ?_⟩))
        rw [← hvisited] at hin
        simpa using hin
  · intro a ha
    rcases List.mem_append.1 ha with ha | ha
    · exact h.visited_reaches a ha
    · exact List.mem_singleton.1 ha ▸ hreaches
  · intro a ha
    rcases List.mem_append.1 ha with ha | ha
    · exact hnext a (List.mem_filter.1 ha).1
    · exact h.worklist_reaches a (List.mem_cons_of_mem _ ha)

/-- When nothing is left to do, the visited blocks are the reachable ones. -/
theorem mem_visited_iff (h : Exploring fresh g visited []) {a : Nat} :
    a ∈ visited ↔ fresh.Reaches a := by
  constructor
  · exact h.visited_reaches a
  · intro ha
    induction ha with
    | refl => exact h.entry.resolve_right List.not_mem_nil
    | tail _ hleads ih => exact (h.closed _ ih _ hleads).resolve_right List.not_mem_nil

end Exploring

namespace Walk

variable {c : Context} {fresh g : Graph} {store : Store} {worklist visited : List Nat}
  {visits : List Visit} {out : Option Fault × Graph × Store}

/-- A walk without a fault keeps the invariant, and empties the worklist. -/
theorem exploring (h : Walk c g store worklist visits out)
    (hg : Exploring fresh g visited worklist) (hfresh : fresh.Fresh) (hout : out.1 = none) :
    Exploring fresh out.2.1 (visited ++ visits.map Visit.start) [] := by
  induction h generalizing visited with
  | done => simpa using hg
  | skip hvisited _ ih => exact ih (hg.skip hfresh hvisited) hout
  | stop => cases hout
  | @visit g store start rest b s visits out hblock hnew hreplay _ ih =>
      have hrest := ih (hg.visit hfresh c hblock hnew s) hout
      have hstart : Visit.start ⟨b, opening b store, s⟩ = start := (Graph.mem_of_block? hblock).2
      rw [List.map_cons, hstart]
      simpa using hrest

/-- No block is visited twice, whatever the outcome is. -/
theorem distinct (h : Walk c g store worklist visits out)
    (hg : Exploring fresh g visited worklist) (hfresh : fresh.Fresh) :
    (visited ++ visits.map Visit.start).Nodup := by
  induction h generalizing visited with
  | done => simpa using hg.distinct
  | skip hvisited _ ih => exact ih (hg.skip hfresh hvisited)
  | @stop g store start b fault s rest hblock hnew hreplay =>
      have hstart : Visit.start ⟨b, opening b store, s⟩ = start := (Graph.mem_of_block? hblock).2
      rw [List.map_singleton, hstart]
      exact (hg.visit hfresh c hblock hnew s).distinct
  | @visit g store start rest b s visits out hblock hnew hreplay _ ih =>
      have hstart : Visit.start ⟨b, opening b store, s⟩ = start := (Graph.mem_of_block? hblock).2
      rw [List.map_cons, hstart]
      simpa using ih (hg.visit hfresh c hblock hnew s)

/-- Every visit of a walk is one of a reachable block, as it was built. -/
theorem reaches (h : Walk c g store worklist visits out)
    (hg : Exploring fresh g visited worklist) (hfresh : fresh.Fresh) :
    ∀ v ∈ visits, fresh.Reaches v.start ∧ fresh.block? v.start = some v.block.bare := by
  induction h generalizing visited with
  | done => simp
  | skip hvisited _ ih => exact ih (hg.skip hfresh hvisited)
  | stop rest hblock _ _ =>
      intro v hv
      rw [List.mem_singleton.1 hv]
      exact hg.here hblock
  | @visit g store start rest b s visits out hblock hnew hreplay _ ih =>
      intro v hv
      rcases List.mem_cons.1 hv with rfl | hv
      · exact hg.here hblock
      · exact ih (hg.visit hfresh c hblock hnew s) v hv

end Walk

/-- Nothing is left behind in a fresh graph. -/
theorem Explored.of_fresh {fresh : Graph} (hfresh : fresh.Fresh) : Explored fresh fresh [] := by
  refine ⟨hfresh.bare, fun b hb => ?_, fun b hb hstack => ?_, fun b hb hne => ?_⟩
  · rw [← hfresh.untouched hb]
    simp [Block.bare]
  · rw [← hfresh.untouched hb] at hstack
    exact absurd rfl hstack
  · rw [← hfresh.untouched hb] at hne
    exact absurd rfl hne

/-- The beginning of an exploration. -/
theorem exploring_openEntry {fresh : Graph} (hfresh : fresh.Fresh) :
    Exploring fresh (openEntry fresh) [] [fresh.entry] := by
  have hempty := Explored.of_fresh hfresh
  have hentry : fresh.Reaches fresh.entry := .refl
  have hopened : Explored fresh (openEntry fresh) [] :=
    hempty.modifyBlock fresh.entry (by intro; rfl) (fun _ _ => Iff.rfl)
      (fun b hb hstart => hstart ▸ hempty.marked b hb) (fun _ _ _ _ => hentry)
      (fun b hb hstart hne => hstart ▸ hempty.stated b hb hne)
  exact { hopened with
    distinct := List.nodup_nil
    entry := Or.inr List.mem_cons_self
    closed := fun _ h => absurd h List.not_mem_nil
    visited_reaches := fun _ h => absurd h List.not_mem_nil
    worklist_reaches := fun a ha => List.mem_singleton.1 ha ▸ hentry }

section Programs

variable {p : Program} {c : Context}

/-- Decompiling a function, as a walk. -/
theorem decompileFunction_eq {g : Graph} (hgraph : p.graphs[c.current]? = some g) :
    ∃ visits out, Walk c (openEntry g) p.store [g.entry] visits out ∧
      p.decompileFunction c = (out.1, ⟨out.2.2, p.graphs.setIfInBounds c.current out.2.1⟩) := by
  obtain ⟨visits, hwalk⟩ := walk_explore c (openEntry g) p.store [g.entry]
  refine ⟨visits, _, hwalk, ?_⟩
  unfold Program.decompileFunction
  simp only [hgraph]

theorem keeps_decompileFunction (p : Program) (c : Context) :
    p.store.Keeps c.current (p.decompileFunction c).2.store := by
  cases hgraph : p.graphs[c.current]? with
  | none =>
      unfold Program.decompileFunction
      simp only [hgraph]
      exact .refl _ _
  | some g =>
      obtain ⟨visits, out, hwalk, hrun⟩ := decompileFunction_eq hgraph
      rw [hrun]
      exact hwalk.keeps.1

/-- The graphs of the other functions stay as they are. -/
theorem graphs_decompileFunction (p : Program) (c : Context) {index : Nat}
    (h : index ≠ c.current) : (p.decompileFunction c).2.graphs[index]? = p.graphs[index]? := by
  unfold Program.decompileFunction
  split
  · rfl
  · exact Array.getElem?_setIfInBounds_ne (Ne.symm h)

end Programs

end ScriptDecompiler.Machine
