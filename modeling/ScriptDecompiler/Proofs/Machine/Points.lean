import Mathlib.Logic.Relation
import ScriptDecompiler.Proofs.Machine.Walk

/-!
# The points of a decompilation

While a function is decompiled, blocks are picked from a worklist; the instructions of a block
are replayed, one after another; what is left on the stack is handed on to the successors, one
after another; and the statements are kept.  Between these steps the decompilation is at a
point.

Every decompilation goes from point to point, up to its outcome.  What a step keeps, therefore
holds throughout.
-/

namespace ScriptDecompiler.Machine

open ScriptDecompiler.Bytecode (Instruction opcodeInfo)
open ScriptDecompiler.Flow (Block Graph)

-- The opcode table is too large to be unfolded whenever terms are compared.
attribute [local irreducible] opcodeInfo

/-- What is still to be done for a function: picking a block, replaying the rest of one, or
handing its stack on to the rest of its successors; or nothing, because of a fault. -/
inductive Todo where
  | pick (worklist : List Nat)
  | replay (b : Block) (body : List Instruction) (worklist : List Nat)
  | handOn (b : Block) (targets worklist : List Nat)
  | stop (fault : Fault)

/-- The fault that has stopped a decompilation. -/
def Todo.fault? : Todo → Option Fault
  | stop fault => some fault
  | _ => none

/-- A point of a decompilation: the graph of the function, the state of the replay, and what is
still to be done. -/
structure Point where
  graph : Graph
  state : State
  todo : Todo

/-- A point between two blocks, where there is neither a stack nor a statement. -/
def Point.between (g : Graph) (store : Store) (worklist : List Nat) : Point :=
  ⟨g, ⟨store, [], #[]⟩, .pick worklist⟩

/-- From one point to the next. -/
inductive Step (c : Context) : Point → Point → Prop
  | skip {g : Graph} {s : State} {start : Nat} {rest : List Nat}
      (hvisited : ∀ b, g.block? start = some b → b.visited = true) :
      Step c ⟨g, s, .pick (start :: rest)⟩ ⟨g, s, .pick rest⟩
  | enter {g : Graph} {s : State} {start : Nat} {rest : List Nat} {b : Block}
      (hblock : g.block? start = some b) (hnew : b.visited = false) :
      Step c ⟨g, s, .pick (start :: rest)⟩
        ⟨mark g b.start, opening b s.store, .replay b b.instructions rest⟩
  | replay {g : Graph} {s : State} {b : Block} {i : Instruction} {body : List Instruction}
      {rest : List Nat} (hfault : Machine.fault? c s.store.frames i = none) :
      Step c ⟨g, s, .replay b (i :: body) rest⟩
        ⟨g, (replayInstruction c i s).2, .replay b body rest⟩
  | stop {g : Graph} {s : State} {b : Block} {i : Instruction} {body : List Instruction}
      {rest : List Nat} {fault : Fault} (hfault : Machine.fault? c s.store.frames i = some fault) :
      Step c ⟨g, s, .replay b (i :: body) rest⟩ ⟨g, s, .stop fault⟩
  | finish {g : Graph} {s : State} {b : Block} {rest : List Nat} :
      Step c ⟨g, s, .replay b [] rest⟩ ⟨g, s, .handOn b b.successors rest⟩
  | handOn {g : Graph} {s : State} {b : Block} {target : Nat} {targets rest : List Nat} :
      Step c ⟨g, s, .handOn b (target :: targets) rest⟩
        ⟨(handOff c s.stack target g s.store).1,
          { s with store := (handOff c s.stack target g s.store).2 }, .handOn b targets rest⟩
  | keep {g kept : Graph} {s : State} {b : Block} {rest : List Nat}
      (hkept : kept = g.modifyBlock b.start ({ · with statements := s.emitted.toList })) :
      Step c ⟨g, s, .handOn b [] rest⟩
        (.between kept s.store (b.successors.filter (!kept.isVisited ·) ++ rest))

/-- The point behind a point, if there is one. -/
def Point.next? (c : Context) : Point → Option Point
  | ⟨_, _, .pick []⟩ | ⟨_, _, .stop _⟩ => none
  | ⟨g, s, .pick (start :: rest)⟩ =>
    match g.block? start with
    | none => some ⟨g, s, .pick rest⟩
    | some b =>
      if b.visited then some ⟨g, s, .pick rest⟩
      else some ⟨mark g b.start, opening b s.store, .replay b b.instructions rest⟩
  | ⟨g, s, .replay b (i :: body) rest⟩ =>
    match Machine.fault? c s.store.frames i with
    | none => some ⟨g, (replayInstruction c i s).2, .replay b body rest⟩
    | some fault => some ⟨g, s, .stop fault⟩
  | ⟨g, s, .replay b [] rest⟩ => some ⟨g, s, .handOn b b.successors rest⟩
  | ⟨g, s, .handOn b (target :: targets) rest⟩ =>
    let handed := handOff c s.stack target g s.store
    some ⟨handed.1, { s with store := handed.2 }, .handOn b targets rest⟩
  | ⟨g, s, .handOn b [] rest⟩ =>
    let kept := g.modifyBlock b.start ({ · with statements := s.emitted.toList })
    some (.between kept s.store (b.successors.filter (!kept.isVisited ·) ++ rest))

/-- There is one way on from a point. -/
theorem Step.next?_eq {c : Context} {x y : Point} (h : Step c x y) : x.next? c = some y := by
  cases h with
  | @skip g s start rest hvisited =>
      unfold Point.next?
      cases hblock : g.block? start with
      | none => simp only [hblock]
      | some b => simp only [hblock, hvisited b hblock, if_true]
  | enter hblock hnew => simp only [Point.next?, hblock, hnew, Bool.false_eq_true, if_false]
  | replay hfault | stop hfault => simp only [Point.next?, hfault]
  | finish | handOn => simp only [Point.next?]
  | keep hkept => simp only [Point.next?, hkept]

/-- Does a check succeed at a point and at all that come behind it, `fuel` at the most? -/
def Point.allWithin (c : Context) (check : Point → Bool) : (fuel : Nat) → Point → Bool
  | 0, _ => false
  | fuel + 1, x =>
    check x &&
      match x.next? c with
      | none => true
      | some y => y.allWithin c check fuel

theorem Point.check_of_allWithin {c : Context} {check : Point → Bool} {fuel : Nat} {x y : Point}
    (h : x.allWithin c check fuel = true) (hsteps : Relation.ReflTransGen (Step c) x y) :
    check y = true := by
  induction hsteps using Relation.ReflTransGen.head_induction_on generalizing fuel with
  | refl =>
      cases fuel with
      | zero => cases h
      | succ fuel => exact (Bool.and_eq_true_iff.1 h).1
  | head hstep _ ih =>
      cases fuel with
      | zero => cases h
      | succ fuel =>
          have hrest := (Bool.and_eq_true_iff.1 h).2
          rw [hstep.next?_eq] at hrest
          exact ih hrest

section Steps

variable {c : Context} (g : Graph) {s s' : State} (b : Block) (rest : List Nat)

/-- The rest of a block, without a fault. -/
theorem steps_replay {body : List Instruction} (h : replay c s body = (none, s')) :
    Relation.ReflTransGen (Step c) ⟨g, s, .replay b body rest⟩
      ⟨g, s', .handOn b b.successors rest⟩ := by
  induction body generalizing s with
  | nil =>
      cases h
      exact .single .finish
  | cons i body ih =>
      obtain ⟨hfault, h⟩ := replay_cons_eq_none_iff.1 h
      exact .head (.replay hfault) (ih h)

/-- The rest of a block, up to a fault. -/
theorem steps_stop {body : List Instruction} {fault : Fault}
    (h : replay c s body = (some fault, s')) :
    Relation.ReflTransGen (Step c) ⟨g, s, .replay b body rest⟩ ⟨g, s', .stop fault⟩ := by
  induction body generalizing s with
  | nil => cases h
  | cons i body ih =>
      rw [replay_cons] at h
      cases hfault : fault? c s.store.frames i with
      | some fault =>
          rw [hfault] at h
          cases h
          exact .single (.stop hfault)
      | none =>
          rw [hfault] at h
          exact .head (.replay hfault) (ih h)

theorem steps_handOffAll (targets : List Nat) (s : State) :
    Relation.ReflTransGen (Step c) ⟨g, s, .handOn b targets rest⟩
      ⟨(handOffAll c s.stack targets g s.store).1,
        { s with store := (handOffAll c s.stack targets g s.store).2 }, .handOn b [] rest⟩ := by
  induction targets generalizing g s with
  | nil => exact .refl
  | cons target targets ih => exact .head .handOn (ih _ { s with store := _ })

/-- A walk goes from point to point. -/
theorem steps_of_walk {store : Store} {worklist : List Nat} {visits : List Visit}
    {out : Option Fault × Graph × Store} (h : Walk c g store worklist visits out) :
    ∃ last, Relation.ReflTransGen (Step c) (.between g store worklist) last ∧
      out = (last.todo.fault?, last.graph, last.state.store) := by
  induction h with
  | done g store => exact ⟨_, .refl, rfl⟩
  | skip hvisited _ ih =>
      obtain ⟨last, hsteps, hout⟩ := ih
      exact ⟨last, .head (.skip hvisited) hsteps, hout⟩
  | @stop g store start b fault s rest hblock hnew hreplay =>
      exact ⟨_, .head (.enter hblock hnew) (steps_stop _ b rest hreplay), rfl⟩
  | @visit g store start rest b s visits out hblock hnew hreplay _ ih =>
      obtain ⟨last, hsteps, hout⟩ := ih
      refine ⟨last, ?_, hout⟩
      refine .head (.enter hblock hnew) (.trans (steps_replay _ b rest hreplay) ?_)
      refine .trans (steps_handOffAll (mark g b.start) b rest b.successors s) ?_
      exact .head (.keep rfl) hsteps

end Steps

/-- Is this a point of decompiling the function with index `c.current`? -/
def Program.Passes (p : Program) (c : Context) (x : Point) : Prop :=
  ∃ g, p.graphs[c.current]? = some g ∧
    Relation.ReflTransGen (Step c) (.between (openEntry g) p.store [g.entry]) x

/-- Does a check succeed at all points of decompiling a function, `fuel` at the most? -/
def Program.allWithin (p : Program) (c : Context) (check : Point → Bool) (fuel : Nat) : Bool :=
  match p.graphs[c.current]? with
  | none => true
  | some g => (Point.between (openEntry g) p.store [g.entry]).allWithin c check fuel

theorem Program.check_of_allWithin {p : Program} {c : Context} {check : Point → Bool} {fuel : Nat}
    {x : Point} (h : p.allWithin c check fuel = true) (hx : p.Passes c x) : check x = true := by
  obtain ⟨g, hgraph, hsteps⟩ := hx
  unfold Program.allWithin at h
  rw [hgraph] at h
  exact Point.check_of_allWithin h hsteps

/-- The outcome of decompiling a function is the last of its points. -/
theorem exists_passes_decompileFunction {p : Program} {c : Context} {g : Graph}
    (hgraph : p.graphs[c.current]? = some g) :
    ∃ last, p.Passes c last ∧ p.decompileFunction c =
      (last.todo.fault?, ⟨last.state.store, p.graphs.setIfInBounds c.current last.graph⟩) := by
  obtain ⟨visits, out, hwalk, hrun⟩ := decompileFunction_eq hgraph
  obtain ⟨last, hsteps, hout⟩ := steps_of_walk _ hwalk
  refine ⟨last, ⟨g, hgraph, hsteps⟩, ?_⟩
  rw [hrun, hout]

/-- Can this update be made while a function is decompiled?  Instructions make updates, and where
stacks of different depths meet this is reported. -/
def Occurs (c : Context) (u : Update) : Prop :=
  (∃ i, Admits c i u) ∨ ∃ address kind, u = .report address kind ∧ kind.isMismatch = true

section Stores

variable {P : Store → Prop} {p : Program} {c : Context} {x y : Point}

/-- What every update keeps, handing on a stack keeps. -/
theorem handOff_keeps (hP : ∀ u s, Occurs c u → u.Valid s → P s → P (u.apply c.current s))
    (stack : List Expr) (target : Nat) (g : Graph) {store : Store} (h : P store) :
    P (handOff c stack target g store).2 := by
  rcases handOff_store c stack target g store with hs | ⟨_, hs⟩ <;> rw [hs]
  · exact h
  · exact hP (.report _ _) store (Or.inr ⟨_, _, rfl, rfl⟩) rfl h

/-- What every update keeps, every step keeps. -/
theorem Step.keeps_store (hP : ∀ u s, Occurs c u → u.Valid s → P s → P (u.apply c.current s))
    (h : Step c x y) (hx : P x.state.store) : P y.state.store := by
  cases h with
  | skip | enter | stop | finish | keep => exact hx
  | @handOn g s b target targets rest => exact handOff_keeps hP s.stack target g hx
  | @replay g s b i body rest hfault =>
      have hmakes : Replay.Makes (fun s s' => P s → P s') (Adds i)
          (stores i.operation = false) (Replay.step c i) := by
        refine (Replay.makes_step c i).mono (fun s s' hadmitted hs => ?_) (fun _ hadds => hadds) id
        obtain ⟨u, hu, hvalid, rfl⟩ := hadmitted
        exact hP u s (Or.inl ⟨i, hu⟩) hvalid hs
      dsimp only
      rw [replayInstruction_apply]
      exact hmakes.keeps_store (fun _ hs => hs) (fun _ _ _ h h' hs => h' (h hs)) _ hx

/-- What every update keeps, holds at every point. -/
theorem Program.Passes.keeps_store
    (hP : ∀ u s, Occurs c u → u.Valid s → P s → P (u.apply c.current s)) (h : p.Passes c x)
    (hp : P p.store) : P x.state.store := by
  obtain ⟨g, -, hsteps⟩ := h
  induction hsteps with
  | refl => exact hp
  | tail _ hstep ih => exact hstep.keeps_store hP ih

theorem decompileFunction_keeps_store
    (hP : ∀ u s, Occurs c u → u.Valid s → P s → P (u.apply c.current s)) (hp : P p.store) :
    P (p.decompileFunction c).2.store := by
  cases hgraph : p.graphs[c.current]? with
  | none =>
      unfold Program.decompileFunction
      simp only [hgraph]
      exact hp
  | some g =>
      obtain ⟨last, hlast, hrun⟩ := exists_passes_decompileFunction hgraph
      rw [hrun]
      exact hlast.keeps_store hP hp

end Stores

end ScriptDecompiler.Machine
