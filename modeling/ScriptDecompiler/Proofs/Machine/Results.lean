import Mathlib.Data.List.Induction
import ScriptDecompiler.Decompile
import ScriptDecompiler.Proofs.Machine.Walk

/-!
# What is known about results

A call pushes as many slots as the known type of the callee's result takes.  To begin
with this type is the one that the first return of the function shows; it changes only
when a return of the function itself is replayed, whose value is then one more
observation of it.  Observing types of equally many slots does not change how many
slots the type takes.  So the number stays what it was as long as every return that is
replayed returns a value of that many slots, in whatever order functions are
decompiled.
-/

namespace ScriptDecompiler

/-- Types of equally many slots are merged into one of as many. -/
theorem Ty.footprint_merge {a b merged : Ty} (h : a.merge b = some merged)
    (hsame : b.footprint = a.footprint) : merged.footprint = a.footprint := by
  fun_induction Ty.merge a b generalizing merged with
  | case1 => cases h; exact hsame
  | case2 => cases h; rfl
  | case3 =>
      obtain ⟨target, -, rfl⟩ := Option.map_eq_some_iff.1 h
      rfl
  | case4 x y length _ _ ih =>
      obtain ⟨element, helement, rfl⟩ := Option.map_eq_some_iff.1 h
      simp only [Ty.footprint] at hsame ⊢
      rcases Nat.eq_zero_or_pos length with rfl | hlength
      · simp
      · rw [ih helement (Nat.eq_of_mul_eq_mul_right hlength hsame)]
  | case5 => cases h
  | case6 => cases h; rfl
  | case7 => cases h

/-- Observing types of `n` slots, one remains with a type of `n` slots. -/
theorem Variable.footprint_infer {v : Variable} {ty : Ty} {n : Nat} (hv : v.ty.footprint = n)
    (hty : ty.footprint = n) : (v.infer ty).1.ty.footprint = n := by
  unfold Variable.infer
  split
  · exact hv
  · split
    · split
      · exact hv
      · exact hty
    · split
      · rename_i merged hmerged
        split
        · exact hv
        · exact (Ty.footprint_merge hmerged (hty.trans hv.symm)).trans hv
      · exact hv

/-- If anything is known about the result of function `k`, is it a type of `n` slots? -/
def Store.ResultTakes (k n : Nat) (s : Store) : Prop :=
  ∀ r, s.result? k = some r → r.ty.footprint = n

namespace Machine

open ScriptDecompiler.Bytecode (Instruction opcodeInfo)
open ScriptDecompiler.Flow (Block Graph)

-- The opcode table is too large to be unfolded whenever terms are compared.
attribute [local irreducible] opcodeInfo

/-- How many values a RET returns. -/
def returnCount? (i : Instruction) : Option Nat :=
  match i.operand with
  | .ret _ values => some values
  | _ => none

/-- The type that a RET observes the result of its function to have. -/
def returnedTy (c : Context) (i : Instruction) (s : State) : Ty :=
  if (returnCount? i).getD 0 = 0 then .void
  else (s.stack.headD .underflow).typeIn (s.store.scope c.current)

namespace Replay

variable (c : Context)

theorem result?_inferResult (address : Nat) (ty : Ty) (s : State) :
    (inferResult c address ty s).2.store.result? c.current =
      (s.store.result? c.current).map fun r => (r.infer ty).1 := by
  unfold inferResult
  rw [bind_apply, get_apply]
  dsimp only
  cases hframe : s.store.frames[c.current]? with
  | none =>
      show s.store.result? c.current = _
      rw [Store.result?, hframe]
      rfl
  | some frame =>
      have hmodify : (s.store.modifyFrame c.current
          ({ · with result := (frame.result.infer ty).1 })).result? c.current =
            some (frame.result.infer ty).1 := by
        simp [Store.result?, Store.modifyFrame, Array.getElem?_modify, hframe]
      have hresult : s.store.result? c.current = some frame.result := by
        simp [Store.result?, hframe]
      rw [hresult, Option.map_some, ← hmodify]
      dsimp only
      cases (frame.result.infer ty).2 <;> rfl

theorem result?_returnValues (address values : Nat) (s : State) :
    (returnValues c address values s).2.store.result? c.current =
      (s.store.result? c.current).map fun r => (r.infer (if values = 0 then .void
        else (s.stack.headD .underflow).typeIn (s.store.scope c.current))).1 := by
  unfold returnValues
  by_cases hvalues : values = 0
  · simp only [hvalues, if_true]
    exact result?_inferResult c address .void s
  · simp only [hvalues, if_false]
    obtain ⟨store, stack, emitted⟩ := s
    cases stack with
    | nil =>
        exact result?_inferResult c address .unknown
          ⟨store.diagnose c.current address .stackUnderflow, [], emitted⟩
    | cons top rest =>
        exact result?_inferResult c address (top.typeIn (store.scope c.current))
          ⟨store, rest, emitted⟩

end Replay

section Runs

variable {c : Context} {k n : Nat} {s s' : State} {i : Instruction}

/-- A return is one more observation of the result. -/
theorem result?_of_ret (c : Context) (s : State) (h : i.operation = .ret) :
    (replayInstruction c i s).2.store.result? c.current =
      (s.store.result? c.current).map fun r => (r.infer (returnedTy c i s)).1 := by
  rw [replayInstruction_apply]
  unfold Replay.step returnedTy returnCount?
  simp only [h]
  cases i.operand <;> exact Replay.result?_returnValues c i.address _ _

theorem resultTakes_replayInstruction (hstart : s.store.ResultTakes k n)
    (hret : c.current = k → i.operation = .ret → (returnedTy c i s).footprint = n) :
    (replayInstruction c i s).2.store.ResultTakes k n := by
  intro r hr
  by_cases hcurrent : c.current = k
  · by_cases hop : i.operation = .ret
    · rw [← hcurrent, result?_of_ret c s hop] at hr
      obtain ⟨before, hbefore, rfl⟩ := Option.map_eq_some_iff.1 hr
      exact Variable.footprint_infer (hstart before (hcurrent ▸ hbefore)) (hret hcurrent hop)
    · have houtlines := (Replay.preserves_step c i hop
        { s with emitted := s.emitted ++ comments c [i] }).outlines
      rw [replayInstruction_apply, Store.result?_eq_outlines, houtlines,
        ← Store.result?_eq_outlines] at hr
      exact hstart r hr
  · rw [(continues_replayInstruction c i s).results k (Ne.symm hcurrent)] at hr
    exact hstart r hr

/-- Is `i` replayed in the state `s` when `body` is replayed from `start` on? -/
def ReplaysIn (c : Context) (start : State) (body : List Instruction) (i : Instruction)
    (s : State) : Prop :=
  ∃ before after, body = before ++ i :: after ∧ replay c start before = (none, s)

theorem ReplaysIn.append {start : State} {body : List Instruction}
    (h : ReplaysIn c start body i s) (later : List Instruction) :
    ReplaysIn c start (body ++ later) i s := by
  obtain ⟨before, after, rfl, hbefore⟩ := h
  exact ⟨before, after ++ later, by simp, hbefore⟩

/-- What is replayed is the first instruction, and then the others. -/
theorem forall_replaysIn_cons {start : State} {first : Instruction} {body : List Instruction}
    {P : Instruction → State → Prop}
    (hfault : fault? c start.store.frames first = none) :
    (∀ i s, ReplaysIn c start (first :: body) i s → P i s) ↔
      P first start ∧ ∀ i s, ReplaysIn c (replayInstruction c first start).2 body i s → P i s := by
  constructor
  · refine fun h => ⟨h first start ⟨[], body, rfl, rfl⟩, ?_⟩
    rintro i s ⟨before, after, rfl, hbefore⟩
    exact h i s ⟨first :: before, after, rfl, replay_cons_eq_none_iff.2 ⟨hfault, hbefore⟩⟩
  · rintro ⟨hfirst, hrest⟩ i s ⟨before, after, hsplit, hbefore⟩
    cases before with
    | nil =>
        obtain ⟨rfl, -⟩ := List.cons.inj hsplit
        cases hbefore
        exact hfirst
    | cons j before =>
        obtain ⟨rfl, hbody⟩ := List.cons.inj hsplit
        exact hrest i s ⟨before, after, hbody, (replay_cons_eq_none_iff.1 hbefore).2⟩

theorem resultTakes_replay {start : State} {body : List Instruction}
    (hstart : start.store.ResultTakes k n)
    (hret : ∀ i s, ReplaysIn c start body i s → c.current = k → i.operation = .ret →
      (returnedTy c i s).footprint = n) :
    (replay c start body).2.store.ResultTakes k n := by
  induction body generalizing start with
  | nil => exact hstart
  | cons first body ih =>
      rw [replay_cons]
      cases hfault : fault? c start.store.frames first with
      | some fault => exact hstart
      | none =>
          obtain ⟨hfirst, hrest⟩ := (forall_replaysIn_cons hfault).1 hret
          exact ih (resultTakes_replayInstruction hstart hfirst) hrest

/-- Whenever an instruction is replayed, as much is known as before. -/
theorem ReplaysIn.resultTakes {start : State} {body : List Instruction}
    (h : ReplaysIn c start body i s) (hstart : start.store.ResultTakes k n)
    (hret : ∀ i s, ReplaysIn c start body i s → c.current = k → i.operation = .ret →
      (returnedTy c i s).footprint = n) : s.store.ResultTakes k n := by
  obtain ⟨before, after, rfl, hbefore⟩ := h
  have hend := resultTakes_replay hstart fun j s hj => hret j s (hj.append (i :: after))
  rw [hbefore] at hend
  exact hend

end Runs

section Walks

variable {c : Context} {k n : Nat} {g : Graph} {store : Store} {worklist : List Nat}
  {visits : List Visit} {out : Option Fault × Graph × Store}

theorem Walk.resultTakes (h : Walk c g store worklist visits out)
    (hstart : store.ResultTakes k n)
    (hret : ∀ v ∈ visits, ∀ i s, ReplaysIn c v.before v.block.instructions i s →
      c.current = k → i.operation = .ret → (returnedTy c i s).footprint = n) :
    out.2.2.ResultTakes k n ∧ ∀ v ∈ visits, v.before.store.ResultTakes k n := by
  induction h with
  | done => exact ⟨hstart, by simp⟩
  | skip _ _ ih => exact ih hstart hret
  | @stop g store start b fault s rest hblock hnew hreplay =>
      have hend := resultTakes_replay (show (opening b store).store.ResultTakes k n from hstart)
        (hret _ List.mem_cons_self)
      rw [hreplay] at hend
      refine ⟨hend, fun v hv => ?_⟩
      rw [List.mem_singleton.1 hv]
      exact hstart
  | @visit g store start rest b s visits out hblock hnew hreplay _ ih =>
      have hend := resultTakes_replay (show (opening b store).store.ResultTakes k n from hstart)
        (hret _ List.mem_cons_self)
      rw [hreplay] at hend
      have hleave : (leave c b s g).2.ResultTakes k n := by
        intro r hr
        rw [Store.result?] at hr
        exact hend r ((congrArg (fun frames : Array Frame => frames[k]?.map Frame.result)
          (frames_handOffAll c s.stack b.successors _ s.store)).symm.trans hr)
      obtain ⟨hout, hlater⟩ := ih hleave fun v hv => hret v (List.mem_cons_of_mem _ hv)
      refine ⟨hout, fun v hv => ?_⟩
      rcases List.mem_cons.1 hv with rfl | hv
      · exact hstart
      · exact hlater v hv

end Walks

section Programs

variable {p : Program} {c : Context} {k n : Nat} {i : Instruction} {s : State}

/-- Is `i` replayed in the state `s` when the function with index `c.current` is
decompiled? -/
def Replays (p : Program) (c : Context) (i : Instruction) (s : State) : Prop :=
  ∃ g visits out, p.graphs[c.current]? = some g ∧
    Walk c (openEntry g) p.store [g.entry] visits out ∧
    ∃ v ∈ visits, ReplaysIn c v.before v.block.instructions i s

theorem Replays.keeps (h : Replays p c i s) : p.store.Keeps c.current s.store := by
  obtain ⟨g, visits, out, -, hwalk, v, hv, before, after, -, hbefore⟩ := h
  have hcontinues := continues_replay c v.before before
  rw [hbefore] at hcontinues
  exact (hwalk.keeps.2 v hv).trans hcontinues.toKeeps

/-- Only instructions of the function itself are replayed. -/
theorem Replays.mem (h : Replays p c i s) :
    ∃ g b, p.graphs[c.current]? = some g ∧ b ∈ g.bare.blocks ∧ i ∈ b.instructions := by
  obtain ⟨g, visits, out, hgraph, hwalk, v, hv, before, after, hbody, -⟩ := h
  refine ⟨g, v.block.bare, hgraph, ?_, ?_⟩
  · rw [← bare_openEntry g]
    exact hwalk.bare.2 v hv
  · show i ∈ v.block.instructions
    rw [hbody]
    exact List.mem_append_right _ List.mem_cons_self

theorem Replays.resultTakes (h : Replays p c i s) (hstart : p.store.ResultTakes k n)
    (hret : c.current = k → ∀ i s, Replays p c i s → i.operation = .ret →
      (returnedTy c i s).footprint = n) : s.store.ResultTakes k n := by
  obtain ⟨g, visits, out, hgraph, hwalk, v, hv, hreplays⟩ := h
  have hvisits : ∀ v ∈ visits, ∀ i s, ReplaysIn c v.before v.block.instructions i s →
      c.current = k → i.operation = .ret → (returnedTy c i s).footprint = n :=
    fun v hv i s hi hcurrent => hret hcurrent i s ⟨g, visits, out, hgraph, hwalk, v, hv, hi⟩
  exact hreplays.resultTakes ((hwalk.resultTakes hstart hvisits).2 v hv) (hvisits v hv)

theorem resultTakes_decompileFunction (hstart : p.store.ResultTakes k n)
    (hret : c.current = k → ∀ i s, Replays p c i s → i.operation = .ret →
      (returnedTy c i s).footprint = n) :
    (p.decompileFunction c).2.store.ResultTakes k n := by
  cases hgraph : p.graphs[c.current]? with
  | none =>
      unfold Program.decompileFunction
      simp only [hgraph]
      exact hstart
  | some g =>
      obtain ⟨visits, out, hwalk, hrun⟩ := decompileFunction_eq hgraph
      rw [hrun]
      exact (hwalk.resultTakes hstart fun v hv i s hi hcurrent =>
        hret hcurrent i s ⟨g, visits, out, hgraph, hwalk, v, hv, hi⟩).1

theorem bare_decompileFunction (p : Program) (c : Context) (index : Nat) :
    (p.decompileFunction c).2.graphs[index]?.map Graph.bare =
      p.graphs[index]?.map Graph.bare := by
  cases hgraph : p.graphs[c.current]? with
  | none =>
      unfold Program.decompileFunction
      simp only [hgraph]
  | some g =>
      obtain ⟨visits, out, hwalk, hrun⟩ := decompileFunction_eq hgraph
      by_cases hindex : index = c.current
      · obtain ⟨hlt, -⟩ := Array.getElem?_eq_some_iff.1 hgraph
        rw [hindex, hgraph, hrun, Array.getElem?_setIfInBounds_self_of_lt hlt, Option.map_some,
          Option.map_some, hwalk.bare.1, bare_openEntry]
      · rw [graphs_decompileFunction p c hindex]

/-- The program after functions were decompiled in the given order, whether they met a
fault or not. -/
def Program.after (p : Program) (order : List Context) : Program :=
  order.foldl (fun p c => (p.decompileFunction c).2) p

theorem Program.after_append_singleton (p : Program) (order : List Context) (c : Context) :
    p.after (order ++ [c]) = ((p.after order).decompileFunction c).2 := by
  simp [Program.after]

theorem heads_after (p : Program) (order : List Context) :
    (p.after order).store.heads = p.store.heads := by
  induction order using List.reverseRecOn with
  | nil => rfl
  | append_singleton order c ih =>
      rw [Program.after_append_singleton]
      exact (keeps_decompileFunction _ c).heads.trans ih

theorem bare_after (p : Program) (order : List Context) (index : Nat) :
    (p.after order).graphs[index]?.map Graph.bare = p.graphs[index]?.map Graph.bare := by
  induction order using List.reverseRecOn with
  | nil => rfl
  | append_singleton order c ih =>
      rw [Program.after_append_singleton, bare_decompileFunction, ih]

/-- Does every return of function `k` return a value of `n` slots, as functions are
decompiled in the given order? -/
def ReturnsSlots (k n : Nat) (p : Program) (order : List Context) : Prop :=
  ∀ before c after, order = before ++ c :: after → c.current = k →
    ∀ i s, Replays (p.after before) c i s → i.operation = .ret →
      (returnedTy c i s).footprint = n

theorem ReturnsSlots.of_append {order later : List Context}
    (h : ReturnsSlots k n p (order ++ later)) : ReturnsSlots k n p order := by
  rintro before c after rfl
  exact h before c (after ++ later) (by simp)

theorem resultTakes_after {order : List Context} (hstart : p.store.ResultTakes k n)
    (hret : ReturnsSlots k n p order) : (p.after order).store.ResultTakes k n := by
  induction order using List.reverseRecOn with
  | nil => exact hstart
  | append_singleton order c ih =>
      rw [Program.after_append_singleton]
      exact resultTakes_decompileFunction (ih hret.of_append) (hret order c [] rfl)

/-- A function that is not decompiled returns nothing. -/
theorem ReturnsSlots.of_forall_ne {order : List Context} (h : ∀ c ∈ order, c.current ≠ k) :
    ReturnsSlots k n p order := by
  rintro before c after rfl hcurrent
  exact absurd hcurrent (h c (List.mem_append_right _ List.mem_cons_self))

/-- The visits of decompiling a function, and what comes of it, if the walk takes at most
`fuel` addresses off its worklist. -/
def Program.decompileWithin (fuel : Nat) (p : Program) (c : Context) :
    Option (List Visit × Option Fault × Program) :=
  (p.graphs[c.current]?).bind fun g =>
    (walkWithin c fuel (openEntry g) p.store [g.entry]).map fun (visits, fault, g, store) =>
      (visits, fault, ⟨store, p.graphs.setIfInBounds c.current g⟩)

/-- `Program.after`, with a bound on every walk. -/
def Program.afterWithin (fuel : Nat) (p : Program) : List Context → Option Program
  | [] => some p
  | c :: order => (p.decompileWithin fuel c).bind fun run => run.2.2.afterWithin fuel order

/-- `Program.decompileFunctions`, with a bound on every walk. -/
def Program.decompileFunctionsWithin (fuel : Nat) (p : Program) (unit : ScriptUnit)
    (natives : Native.Database) (annotate : Bool) : List Nat → Option (Option Fault × Program)
  | [] => some (none, p)
  | index :: rest =>
    (p.decompileWithin fuel ⟨unit, natives, annotate, index⟩).bind fun run =>
      match run.2 with
      | (some fault, p) => some (some fault, p)
      | (none, p) => p.decompileFunctionsWithin fuel unit natives annotate rest

/-- Instruction number `index` of the block that starts at `start`, and the state in which
it is replayed. -/
def Program.replayedWithin (fuel : Nat) (p : Program) (c : Context) (start index : Nat) :
    Option (Instruction × State) :=
  (p.decompileWithin fuel c).bind fun run =>
    (run.1.find? (·.start = start)).bind fun v =>
      match v.block.instructions.drop index, replay c v.before (v.block.instructions.take index) with
      | i :: _, (none, s) => some (i, s)
      | _, _ => none

theorem walk_of_decompileWithin {fuel : Nat} {run : List Visit × Option Fault × Program}
    (h : p.decompileWithin fuel c = some run) :
    ∃ g out, p.graphs[c.current]? = some g ∧ Walk c (openEntry g) p.store [g.entry] run.1 out ∧
      p.decompileFunction c = run.2 := by
  obtain ⟨g, hgraph, hwithin⟩ := Option.bind_eq_some_iff.1 h
  obtain ⟨⟨visits, out⟩, hwalk, rfl⟩ := Option.map_eq_some_iff.1 hwithin
  have hwalk := walk_of_walkWithin hwalk
  refine ⟨g, out, hgraph, hwalk, ?_⟩
  unfold Program.decompileFunction
  simp only [hgraph, explore_of_walk hwalk]

theorem after_of_afterWithin {fuel : Nat} {order : List Context} {q : Program}
    (h : p.afterWithin fuel order = some q) : p.after order = q := by
  induction order generalizing p with
  | nil => exact Option.some.inj h
  | cons c order ih =>
      obtain ⟨run, hrun, hrest⟩ := Option.bind_eq_some_iff.1 h
      obtain ⟨-, -, -, -, hdecompile⟩ := walk_of_decompileWithin hrun
      show Program.after (p.decompileFunction c).2 order = q
      rw [hdecompile]
      exact ih hrest

theorem decompileFunctions_of_within {fuel : Nat} {u : ScriptUnit} {natives : Native.Database}
    {annotate : Bool} {order : List Nat} {out : Option Fault × Program}
    (h : p.decompileFunctionsWithin fuel u natives annotate order = some out) :
    p.decompileFunctions u natives annotate order = out := by
  induction order generalizing p with
  | nil => exact Option.some.inj h
  | cons index order ih =>
      obtain ⟨⟨visits, fault, q⟩, hrun, hrest⟩ := Option.bind_eq_some_iff.1 h
      obtain ⟨-, -, -, -, hdecompile⟩ := walk_of_decompileWithin hrun
      rw [Program.decompileFunctions, hdecompile]
      cases fault with
      | some fault => exact Option.some.inj hrest
      | none => exact ih hrest

theorem replays_of_replayedWithin {fuel start index : Nat}
    (h : p.replayedWithin fuel c start index = some (i, s)) : Replays p c i s := by
  obtain ⟨run, hrun, hvisit⟩ := Option.bind_eq_some_iff.1 h
  obtain ⟨v, hv, hfound⟩ := Option.bind_eq_some_iff.1 hvisit
  obtain ⟨g, out, hgraph, hwalk, -⟩ := walk_of_decompileWithin hrun
  refine ⟨g, run.1, out, hgraph, hwalk, v, List.mem_of_find?_eq_some hv, ?_⟩
  split at hfound
  · rename_i rest _ hdrop hreplay
    cases hfound
    exact ⟨_, rest, by rw [← hdrop, List.take_append_drop], hreplay⟩
  · cases hfound

end Programs

end Machine

end ScriptDecompiler
