import ScriptDecompiler.Proofs.Machine.EntryStacks
import ScriptDecompiler.Proofs.Machine.Points

/-!
# The first stack to arrive

A block is entered with the stack that was on hand at the end of the predecessor that was
replayed first.  What decides this lies in the past of a point, so the facts are about points and
the steps between them.

Two invariants carry the module.  At every point the visited blocks, those on the worklist and
those that a stack was already handed on to have settled stacks; and a stack that is settled, but
not the one of the entry, was on hand when a predecessor was done, before any stack was settled.
A predecessor that is done later settles nothing, because its successors are settled by then or
the point is its own end.  As a decompilation goes one way only, the ends of two predecessors are
never side by side.
-/

namespace ScriptDecompiler

/-- Is it settled with which stack the block at an address is entered? -/
def Flow.Graph.IsSettled (g : Flow.Graph) (start : Nat) : Prop :=
  ∃ entry, g.entryStack? start = some entry

namespace Machine

open ScriptDecompiler.Bytecode (Instruction opcodeInfo)
open ScriptDecompiler.Flow (Block Graph buildFunctions fresh_of_mem_buildFunctions)

-- The opcode table is too large to be unfolded whenever terms are compared.
attribute [local irreducible] opcodeInfo

/-- The block whose instructions are being replayed, or whose stack is being handed on. -/
def Todo.block? : Todo → Option Block
  | replay b _ _ => some b
  | handOn b _ _ => some b
  | _ => none

/-- The addresses of the blocks that wait to be picked. -/
def Todo.worklist : Todo → List Nat
  | pick worklist => worklist
  | replay _ _ worklist => worklist
  | handOn _ _ worklist => worklist
  | stop _ => []

/-- Has a predecessor of the block at `a` just been replayed, all its instructions? -/
def Point.Finishes (fresh : Graph) (a : Nat) (x : Point) : Prop :=
  ∃ b rest, x.todo = .replay b [] rest ∧ fresh.Leads b.start a

variable {c : Context} {x y z : Point} {fresh : Graph} {a : Nat} {entry : List Expr}

theorem Step.unique (hy : Step c x y) (hz : Step c x z) : y = z :=
  Option.some.inj (hy.next?_eq.symm.trans hz.next?_eq)

/-- What a step does to entry stacks: nothing, except that handing on gives the stack on hand to
a block without one. -/
theorem Step.entryStack? (h : Step c x y) (a : Nat) :
    y.graph.entryStack? a = x.graph.entryStack? a ∨
      ∃ b targets rest, x.todo = .handOn b (a :: targets) rest ∧
        x.graph.entryStack? a = none ∧ y.graph.entryStack? a = some x.state.stack := by
  cases h with
  | skip => exact Or.inl rfl
  | @enter g s start rest b => exact Or.inl (entryStack?_mark g b.start)
  | replay => exact Or.inl rfl
  | stop => exact Or.inl rfl
  | finish => exact Or.inl rfl
  | @handOn g s b target targets rest =>
      rcases handOff_graph c s.stack target g s.store with hg | ⟨⟨block, hblock, hnone⟩, hg⟩
      · exact Or.inl (congrArg (Graph.entryStack? · a) hg)
      · by_cases hsame : a = target
        · subst hsame
          refine Or.inr ⟨b, targets, rest, rfl, ?_, ?_⟩
          · simp [Graph.entryStack?, hblock, hnone]
          · show Graph.entryStack? (handOff c s.stack a g s.store).1 a = some s.stack
            rw [hg, Graph.entryStack?, g.block?_modifyBlock a a (by intro; rfl), hblock]
            simp
        · refine Or.inl ?_
          show Graph.entryStack? (handOff c s.stack target g s.store).1 a = g.entryStack? a
          unfold Graph.entryStack?
          rw [hg, g.block?_modifyBlock target a (by intro; rfl)]
          cases g.block? a <;> simp [hsame]
  | keep hkept =>
      subst hkept
      exact Or.inl (Graph.entryStack?_modifyBlock (fun _ => rfl) fun _ => rfl)

/-- A settled stack stays. -/
theorem Step.settled (h : Step c x y) (hentry : x.graph.entryStack? a = some entry) :
    y.graph.entryStack? a = some entry := by
  rcases h.entryStack? a with hsame | ⟨b, targets, rest, -, hnone, -⟩
  · rw [hsame, hentry]
  · rw [hnone] at hentry
    cases hentry

theorem settled_of_steps (h : Relation.ReflTransGen (Step c) x y)
    (hentry : x.graph.entryStack? a = some entry) : y.graph.entryStack? a = some entry := by
  induction h with
  | refl => exact hentry
  | tail _ hstep ih => exact hstep.settled ih

/-- The invariant about what is settled: the stack of the entry, those of the visited blocks, of
the blocks on the worklist and of the current one, and while a stack is handed on, those of the
successors that it was handed on to. -/
structure Arriving (fresh : Graph) (x : Point) : Prop where
  bare : x.graph.bare = fresh
  entry : x.graph.entryStack? fresh.entry = some []
  visited : ∀ a, (∃ b, fresh.block? a = some b) → ¬ x.graph.IsOpen a → x.graph.IsSettled a
  worklist : ∀ a ∈ x.todo.worklist, x.graph.IsSettled a
  current : ∀ b, x.todo.block? = some b →
    fresh.block? b.start = some b.bare ∧ x.graph.IsSettled b.start
  handed : ∀ b targets rest, x.todo = .handOn b targets rest →
    ∀ a, fresh.Leads b.start a → a ∈ targets ∨ x.graph.IsSettled a

theorem Step.isSettled (h : Step c x y) (hsettled : x.graph.IsSettled a) :
    y.graph.IsSettled a := by
  obtain ⟨entry, hentry⟩ := hsettled
  exact ⟨entry, h.settled hentry⟩

namespace Arriving

/-- An edge from the current block leads to one of its successors. -/
theorem leads_iff (h : Arriving fresh x) {b : Block} (hb : x.todo.block? = some b) :
    fresh.Leads b.start a ↔ a ∈ b.successors := by
  unfold Graph.Leads
  rw [(h.current b hb).1]
  simp [Block.bare]

theorem start (hfresh : fresh.Fresh) (store : Store) :
    Arriving fresh (.between (openEntry fresh) store [fresh.entry]) := by
  have hexploring := exploring_openEntry hfresh
  have hentry := entryStack?_openEntry hfresh
  refine ⟨hexploring.bare, hentry, fun a hblock hclosed => ?_, fun a ha => ?_, nofun, nofun⟩
  · exact absurd ((hexploring.isOpen_iff hblock).2 List.not_mem_nil) hclosed
  · rw [List.mem_singleton.1 ha]
    exact ⟨[], hentry⟩

theorem step (hfresh : fresh.Fresh) (h : Arriving fresh x) (hstep : Step c x y) :
    Arriving fresh y := by
  have hkeep : ∀ a, x.graph.IsSettled a → y.graph.IsSettled a := fun a => hstep.isSettled
  have hentry := hstep.settled h.entry
  cases hstep with
  | skip =>
      exact ⟨h.bare, hentry, h.visited, fun a ha => h.worklist a (List.mem_cons_of_mem _ ha),
        nofun, nofun⟩
  | @enter g s start rest b hblock hnew =>
      have hstart := (Graph.mem_of_block? hblock).2
      have hsettled : (mark g b.start).IsSettled b.start :=
        hkeep b.start (h.worklist b.start (hstart ▸ List.mem_cons_self))
      refine ⟨(bare_mark g b.start).trans h.bare, hentry, fun a ha hclosed => ?_,
        fun a ha => hkeep a (h.worklist a (List.mem_cons_of_mem _ ha)), ?_, nofun⟩
      · by_cases hsame : a = b.start
        · exact hsame ▸ hsettled
        · exact hkeep a (h.visited a ha fun hopen => hclosed (isOpen_mark_of_ne hsame hopen))
      · rintro b' ⟨⟩
        refine ⟨?_, hsettled⟩
        rw [← h.bare, Graph.block?_bare, hstart]
        exact congrArg (Option.map Block.bare) hblock
  | replay => exact ⟨h.bare, hentry, h.visited, h.worklist, h.current, nofun⟩
  | stop => exact ⟨h.bare, hentry, h.visited, nofun, nofun, nofun⟩
  | finish =>
      refine ⟨h.bare, hentry, h.visited, h.worklist, h.current, ?_⟩
      rintro b targets rest ⟨⟩ a hleads
      exact Or.inl ((h.leads_iff rfl).1 hleads)
  | @handOn g s b target targets rest =>
      refine ⟨(bare_handOff c s.stack target g s.store).trans h.bare, hentry,
        fun a ha hclosed => hkeep a (h.visited a ha fun hopen => hclosed ?_),
        fun a ha => hkeep a (h.worklist a ha),
        fun b' hb' => ⟨(h.current b' hb').1, hkeep b'.start (h.current b' hb').2⟩, ?_⟩
      · exact (isOpen_handOff c s.stack g s.store).2 hopen
      · rintro b' targets' rest' ⟨⟩ a hleads
        rcases h.handed _ _ _ rfl a hleads with hmem | hsettled
        · rcases List.mem_cons.1 hmem with rfl | hmem
          · -- The stack is handed on to an open block; any other one was visited.
            refine Or.inr ?_
            by_cases hopen : g.IsOpen a
            · obtain ⟨settled, hsettled, -⟩ := handOff_of_isOpen c s.stack hopen s.store
              exact ⟨settled, hsettled⟩
            · exact hkeep a (h.visited a (hfresh.leads _ _ hleads) hopen)
          · exact Or.inl hmem
        · exact Or.inr (hkeep a hsettled)
  | @keep g kept s b rest hkept =>
      subst hkept
      refine ⟨(Graph.bare_modifyBlock _ b.start (by intro; rfl)).trans h.bare, hentry,
        fun a ha hclosed => hkeep a (h.visited a ha fun hopen => hclosed ?_), fun a ha => ?_,
        nofun, nofun⟩
      · exact (Graph.isOpen_modifyBlock (by intro; rfl) (by intro; rfl)).2 hopen
      · rcases List.mem_append.1 ha with ha | ha
        · have hleads := (h.leads_iff rfl).2 (List.mem_filter.1 ha).1
          exact hkeep a ((h.handed _ _ _ rfl a hleads).resolve_left List.not_mem_nil)
        · exact hkeep a (h.worklist a ha)

theorem steps (hfresh : fresh.Fresh) (h : Arriving fresh x)
    (hsteps : Relation.ReflTransGen (Step c) x y) : Arriving fresh y := by
  induction hsteps with
  | refl => exact h
  | tail _ hstep ih => exact ih.step hfresh hstep

/-- Once a predecessor is done, and its stack handed on, the stack of its successor is settled. -/
theorem after_finish (hfresh : fresh.Fresh) (h : Arriving fresh z) (hfinish : z.Finishes fresh a)
    (hsteps : Relation.ReflTransGen (Step c) z x) :
    x = z ∨ (∃ b targets rest, x.todo = .handOn b targets rest ∧ fresh.Leads b.start a) ∨
      x.graph.IsSettled a := by
  induction hsteps with
  | refl => exact Or.inl rfl
  | @tail x y hsteps hstep ih =>
      rcases ih with rfl | ⟨b, targets, rest, htodo, hleads⟩ | hsettled
      · obtain ⟨b, rest, htodo, hleads⟩ := hfinish
        cases hstep with
        | finish =>
            cases htodo
            exact Or.inr (Or.inl ⟨_, _, _, rfl, hleads⟩)
        | _ => cases htodo
      · have hx := h.steps hfresh hsteps
        have hhanded := hx.handed b targets rest htodo a hleads
        have hkeep : x.graph.IsSettled a → y.graph.IsSettled a := hstep.isSettled
        cases hstep with
        | handOn =>
            cases htodo
            exact Or.inr (Or.inl ⟨_, _, _, rfl, hleads⟩)
        | keep hkept =>
            cases htodo
            exact Or.inr (Or.inr (hkeep (hhanded.resolve_left List.not_mem_nil)))
        | _ => cases htodo
      · exact Or.inr (Or.inr (hstep.isSettled hsettled))

end Arriving

/-- A stack that is handed on was on hand when the block was done. -/
theorem exists_finish_of_handOn {start : Point} {b : Block} {targets rest : List Nat}
    (hstart : start.todo.block? = none) (h : Relation.ReflTransGen (Step c) start x)
    (htodo : x.todo = .handOn b targets rest) :
    ∃ z, Relation.ReflTransGen (Step c) start z ∧ Relation.ReflTransGen (Step c) z x ∧
      z.todo = .replay b [] rest ∧ z.state.stack = x.state.stack ∧ targets ⊆ b.successors := by
  induction h generalizing targets with
  | refl =>
      rw [htodo] at hstart
      cases hstart
  | @tail x y hsteps hstep ih =>
      cases hstep with
      | finish =>
          cases htodo
          exact ⟨_, hsteps, .single .finish, rfl, rfl, List.Subset.refl _⟩
      | handOn =>
          cases htodo
          obtain ⟨z, hz, hzx, hfinish, hstack, hsubset⟩ := ih rfl
          exact ⟨z, hz, hzx.tail .handOn, hfinish, hstack,
            List.Subset.trans (List.subset_cons_self _ _) hsubset⟩
      | _ => cases htodo

/-- A settled stack, unless it is that of the entry, was on hand when a predecessor was done, and
no stack was settled before. -/
theorem exists_finish_of_settled (hfresh : fresh.Fresh) {store : Store}
    (h : Relation.ReflTransGen (Step c) (.between (openEntry fresh) store [fresh.entry]) x)
    (hother : a ≠ fresh.entry) (hentry : x.graph.entryStack? a = some entry) :
    ∃ z, Relation.ReflTransGen (Step c) (.between (openEntry fresh) store [fresh.entry]) z ∧
      Relation.ReflTransGen (Step c) z x ∧ z.Finishes fresh a ∧ z.state.stack = entry ∧
      z.graph.entryStack? a = none := by
  induction h with
  | refl =>
      have hnone := entryStack?_openEntry_of_ne hfresh hother
      rw [Point.between, hnone] at hentry
      cases hentry
  | @tail x y hsteps hstep ih =>
      rcases hstep.entryStack? a with hsame | ⟨b, targets, rest, htodo, hnone, hsettled⟩
      · obtain ⟨z, hz, hzx, hfinish⟩ := ih (hsame.symm.trans hentry)
        exact ⟨z, hz, hzx.tail hstep, hfinish⟩
      · obtain ⟨z, hz, hzx, hfinish, hstack, hsubset⟩ := exists_finish_of_handOn rfl hsteps htodo
        have hx := (Arriving.start hfresh store).steps hfresh hsteps
        have hleads : fresh.Leads b.start a :=
          (hx.leads_iff (b := b) (by rw [htodo]; rfl)).2 (hsubset List.mem_cons_self)
        refine ⟨z, hz, hzx.tail hstep, ⟨b, rest, hfinish, hleads⟩, ?_, ?_⟩
        · rw [hsettled, Option.some.injEq] at hentry
          rw [hstack, hentry]
        · cases hz' : z.graph.entryStack? a with
          | none => rfl
          | some earlier =>
              rw [settled_of_steps hzx hz'] at hnone
              cases hnone

/-- If nothing is settled yet when a predecessor is done, no other one was done before. -/
theorem Arriving.earliest_finish {start z' : Point} (hfresh : fresh.Fresh)
    (hstart : Arriving fresh start) (hz : Relation.ReflTransGen (Step c) start z)
    (hfinish : z.Finishes fresh a) (hnone : z.graph.entryStack? a = none)
    (hz' : Relation.ReflTransGen (Step c) start z') (hfinish' : z'.Finishes fresh a) :
    Relation.ReflTransGen (Step c) z z' := by
  have hunique : Relator.RightUnique (Step c) := fun _ _ _ => Step.unique
  rcases Relation.ReflTransGen.total_of_right_unique hunique hz hz' with hlater | hearlier
  · exact hlater
  · -- Had another predecessor been done before, the stack would be settled at `z`.
    obtain ⟨b, rest, htodo, -⟩ := hfinish
    rcases (hstart.steps hfresh hz').after_finish hfresh hfinish' hearlier with
      rfl | ⟨b', targets, rest', htodo', -⟩ | ⟨settled, hsettled⟩
    · exact .refl
    · rw [htodo] at htodo'
      cases htodo'
    · rw [hnone] at hsettled
      cases hsettled

/-- The stack of a block that was visited is settled. -/
theorem Arriving.isSettled_of_visited {b : Block} (h : Arriving fresh x)
    (hblock : x.graph.block? a = some b) (hvisited : b.visited = true) : x.graph.IsSettled a := by
  refine h.visited a ⟨b.bare, ?_⟩ ?_
  · rw [← h.bare, Graph.block?_bare, hblock]
    rfl
  · rintro ⟨b', hblock', hnew⟩
    rw [hblock, Option.some.injEq] at hblock'
    rw [← hblock', hvisited] at hnew
    cases hnew

/-- When the replay of a block begins, the stack on hand is the one that is settled for it. -/
theorem Arriving.entryStack?_of_enter {worklist rest : List Nat} {y : Point} {b : Block}
    {body : List Instruction} (h : Arriving fresh x) (hpick : x.todo = .pick worklist)
    (hstep : Step c x y) (htodo : y.todo = .replay b body rest) :
    x.graph.entryStack? b.start = some y.state.stack := by
  cases hstep with
  | @enter g s start rest' b' hblock hnew =>
      cases htodo
      cases hpick
      have hsame := (Graph.mem_of_block? hblock).2
      obtain ⟨entry, hentry⟩ := h.worklist start List.mem_cons_self
      rw [stack_opening hblock hentry, hsame]
      exact hentry
  | skip => cases htodo
  | keep => cases htodo
  | _ => cases hpick

/-- The first stack to arrive is the one that a block is entered with.  At every point of
decompiling a function that was just built, in whatever program: the entry block has the empty
stack; a stack that is settled never changes; that of any other block is the one that was on hand
at the end of a predecessor before which no other predecessor was done; a block that was visited
has a settled stack; and when the replay of a block begins, the stack on hand is the one that is
settled for it. -/
theorem first_arrival_settles {instructions : List Instruction} {f : Flow.Function}
    (hf : f ∈ (buildFunctions instructions).1) {p : Program} {c : Context}
    (hgraph : p.graphs[c.current]? = some f.graph) {x : Point} (hx : p.Passes c x) :
    x.graph.entryStack? f.graph.entry = some [] ∧
      (∀ a entry, x.graph.entryStack? a = some entry →
        ∀ y, Relation.ReflTransGen (Step c) x y → y.graph.entryStack? a = some entry) ∧
      (∀ a entry, a ≠ f.graph.entry → x.graph.entryStack? a = some entry →
        ∃ z, p.Passes c z ∧ Relation.ReflTransGen (Step c) z x ∧ z.Finishes f.graph a ∧
          z.state.stack = entry ∧
          ∀ z', p.Passes c z' → z'.Finishes f.graph a → Relation.ReflTransGen (Step c) z z') ∧
      (∀ a b, x.graph.block? a = some b → b.visited = true → x.graph.IsSettled a) ∧
      ∀ worklist y b body rest, x.todo = .pick worklist → Step c x y →
        y.todo = .replay b body rest → x.graph.entryStack? b.start = some y.state.stack := by
  have hfresh := fresh_of_mem_buildFunctions hf
  have hpath : ∀ {z}, p.Passes c z ↔ Relation.ReflTransGen (Step c)
      (.between (openEntry f.graph) p.store [f.graph.entry]) z := by
    intro z
    simp [Program.Passes, hgraph]
  have hstart : Arriving f.graph (.between (openEntry f.graph) p.store [f.graph.entry]) :=
    .start hfresh p.store
  have harriving : Arriving f.graph x := hstart.steps hfresh (hpath.1 hx)
  refine ⟨harriving.entry, fun a entry hentry y hsteps => settled_of_steps hsteps hentry,
    fun a entry hother hentry => ?_,
    fun a b hblock hvisited => harriving.isSettled_of_visited hblock hvisited,
    fun worklist y b body rest hpick hstep htodo =>
      harriving.entryStack?_of_enter hpick hstep htodo⟩
  obtain ⟨z, hz, hzx, hfinish, hstack, hnone⟩ :=
    exists_finish_of_settled hfresh (hpath.1 hx) hother hentry
  exact ⟨z, hpath.2 hz, hzx, hfinish, hstack, fun z' hz' hfinish' =>
    hstart.earliest_finish hfresh hz hfinish hnone (hpath.1 hz') hfinish'⟩

/-- A branch around an instruction that pushes a value, with another value below it: the block
behind is entered with the stack at the branch, not with the deeper one that falls through. -/
theorem first_arrival_settles_branch :
    let instructions : List Instruction := [⟨0, 45, .enter 0 2 "f", 6⟩, ⟨6, 111, .impliedInt 1, 1⟩,
      ⟨7, 112, .impliedInt 2, 1⟩, ⟨8, 86, .branch 1 12, 3⟩, ⟨11, 117, .impliedInt 7, 1⟩,
      ⟨12, 46, .ret 0 0, 3⟩]
    let c : Context := ⟨⟨"u", [], 0, [], #[], []⟩, .empty, false, 0⟩
    ∃ f, (buildFunctions instructions).1 = [f] ∧ 12 ≠ f.graph.entry ∧
      ∃ x entry, (Program.ofFunctions [f] [] []).Passes c x ∧
        x.graph.entryStack? 12 = some entry ∧ entry.map Expr.integer? = [some 1] ∧
        ∃ z, (Program.ofFunctions [f] [] []).Passes c z ∧ Relation.ReflTransGen (Step c) z x ∧
          z.Finishes f.graph 12 ∧ z.state.stack = entry ∧
          ∀ z', (Program.ofFunctions [f] [] []).Passes c z' → z'.Finishes f.graph 12 →
            Relation.ReflTransGen (Step c) z z' := by
  intro instructions c
  obtain ⟨f, hf⟩ := List.length_eq_one_iff.1
    (show (buildFunctions instructions).1.length = 1 by decide +kernel)
  have hentries : (buildFunctions instructions).1.map (·.graph.entry) = [0] := by decide +kernel
  have hrun : (buildFunctions instructions).1.map (fun f =>
      (walkWithin c 9 (openEntry f.graph) (Program.ofFunctions [f] [] []).store
        [f.graph.entry]).map fun walk =>
          (walk.2.2.1.entryStack? 12).map (List.map Expr.integer?)) =
      [some (some [some 1])] := by decide +kernel
  rw [hf] at hentries hrun
  have hfirst : f.graph.entry = 0 := List.singleton_inj.1 hentries
  have hother : 12 ≠ f.graph.entry := by
    rw [hfirst]
    decide
  obtain ⟨⟨visits, out⟩, hwithin, hfound⟩ := Option.map_eq_some_iff.1 (List.singleton_inj.1 hrun)
  obtain ⟨entry, hentry, hvalues⟩ := Option.map_eq_some_iff.1 hfound
  have hgraph : (Program.ofFunctions [f] [] []).graphs[c.current]? = some f.graph := rfl
  obtain ⟨x, hx, hout⟩ := steps_of_walk _ (walk_of_walkWithin hwithin)
  have hpasses : (Program.ofFunctions [f] [] []).Passes c x := ⟨f.graph, hgraph, hx⟩
  rw [hout] at hentry
  obtain ⟨-, -, harrived, -⟩ := first_arrival_settles
    (show f ∈ (buildFunctions instructions).1 from hf ▸ List.mem_cons_self) hgraph hpasses
  exact ⟨f, hf, hother, x, entry, hpasses, hentry, hvalues, harrived 12 entry hother hentry⟩

end Machine

end ScriptDecompiler
