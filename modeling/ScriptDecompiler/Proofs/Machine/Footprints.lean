import ScriptDecompiler.Proofs.Machine.Confinement
import ScriptDecompiler.Proofs.Machine.Faults
import ScriptDecompiler.Proofs.Machine.Points
import ScriptDecompiler.Proofs.Machine.References
import ScriptDecompiler.Proofs.Machine.Results

/-!
# How many slots types come to take

Types are confined throughout a decompilation: at every point, for the variables of all functions
and for all that stands on a stack or in a statement.

Footprints of the types that come up by themselves are small: a block that an explode spreads is
the largest.  But each implode may multiply.  It stores an array of as many elements as it takes
values, all of the type of the first one, and that may be such an array itself.  As long as no
implode stores an array of more slots than a bound, no type takes more; without that, a few
locals, each of which holds the one before twice, take more slots than any bound allows.
-/

namespace ScriptDecompiler

open ScriptDecompiler.Machine (maxExplodeSlots)

/-- The types that fit a bound are enough for all that a replay makes of types. -/
theorem Ty.closed_fits {bound : Nat} (h : maxExplodeSlots ≤ bound) : Ty.Closed (Ty.Fits bound) where
  void := trivial
  scalar _ := trivial
  vector3 := Ty.fits_vector3 (Nat.le_trans (by decide) h)
  block length hlength :=
    ⟨by simpa [Ty.unknown, Ty.footprint] using Nat.le_trans hlength h, trivial⟩
  pointer_iff _ := Iff.rfl
  element _ _ harray := harray.2
  field _ _ hstruct _ _ hfield := hstruct.2.type? hfield

theorem Ty.admitsArrays_fits (bound : Nat) :
    Ty.AdmitsArrays (Ty.Fits bound) (·.footprint ≤ bound) :=
  fun _ _ helement harray => ⟨harray, helement⟩

/-- Is what stands in a block confined, and does no native call of it push more slots than an
explode may? -/
structure Flow.Block.Confined (P : Ty → Prop) (b : Block) : Prop where
  instructions : ∀ i ∈ b.instructions, i.PushesBlock
  stack : ∀ entry, b.entryStack = some entry → ∀ e ∈ entry, e.Confined P
  statements : ∀ statement ∈ b.statements, statement.Confined P

namespace Machine

open ScriptDecompiler.Bytecode (Instruction opcodeInfo)
open ScriptDecompiler.Flow (Block Graph)

-- The opcode table is too large to be unfolded whenever terms are compared.
attribute [local irreducible] opcodeInfo

/-- What is still to be replayed of the block at hand. -/
def Todo.body : Todo → List Instruction
  | replay _ body _ => body
  | _ => []

/-- Is everything at a point confined? -/
structure Point.Confined (P : Ty → Prop) (x : Point) : Prop where
  state : x.state.Confined P
  blocks : ∀ b ∈ x.graph.blocks, b.Confined P
  body : ∀ i ∈ x.todo.body, i.PushesBlock

/-- The array that a statement stores. -/
def storedArray? : Stmt → Option Expr
  | .assign _ (.arrayLiteral values) => some (.arrayLiteral values)
  | _ => none

/-- If an implode comes next, does the type of the array that it stores satisfy `Q`? -/
def Point.Stores (Q : Ty → Prop) (c : Context) (x : Point) : Prop :=
  ∀ i ∈ x.todo.body.head?, i.operation = .implode → ∀ statement ∈ added c i x.state,
    ∀ array ∈ storedArray? statement, Q (array.typeIn (x.state.store.scope c.current))

instance (Q : Ty → Prop) [DecidablePred Q] (c : Context) (x : Point) :
    Decidable (x.Stores Q c) :=
  inferInstanceAs (Decidable (∀ i ∈ x.todo.body.head?, i.operation = .implode →
    ∀ statement ∈ added c i x.state, ∀ array ∈ storedArray? statement,
      Q (array.typeIn (x.state.store.scope c.current))))

section Steps

variable {P Q : Ty → Prop} {c : Context} {x y : Point}

/-- One instruction. -/
theorem confined_replayInstruction (hP : Ty.Closed P) (hQ : Ty.AdmitsArrays P Q)
    (hnatives : c.natives.All (Native.Signature.Confined P)) {i : Instruction}
    (hblock : i.PushesBlock) {s : State} (hs : s.Confined P)
    (hstored : i.operation = .implode → ∀ statement ∈ added c i s,
      ∀ array ∈ storedArray? statement, Q (array.typeIn (s.store.scope c.current))) :
    (replayInstruction c i s).2.Confined P := by
  have hcomments : State.Confined P { s with emitted := s.emitted ++ comments c [i] } := by
    refine ⟨hs.store, hs.stack, fun statement hstatement => ?_⟩
    rcases Array.mem_append.1 hstatement with hold | hcomment
    · exact hs.emitted statement hold
    · unfold comments at hcomment
      split at hcomment
      · rw [List.mem_toArray, List.map_singleton, List.mem_singleton] at hcomment
        subst hcomment
        exact List.forall_mem_nil _
      · simp at hcomment
  rw [replayInstruction_apply]
  by_cases hop : i.operation = .implode
  · have hstep : Replay.step c i = Replay.implode c i.address := by
      unfold Replay.step
      simp only [hop]
    rw [hstep]
    refine Replay.confined_implode c i.address hP hQ hcomments fun dest values hemitted => ?_
    refine hstored hop (.assign dest (.arrayLiteral values)) ?_ _ rfl
    rw [added_eq c (by rw [hstep, hemitted, Array.toList_push])]
    exact List.mem_append_right _ List.mem_cons_self
  · exact (Replay.confines_step hP c i hnatives hblock hop _ hcomments).1

theorem confined_handOff (stack : List Expr) (target : Nat) (g : Graph) {store : Store}
    (h : store.Confined P) : (handOff c stack target g store).2.Confined P := by
  rcases handOff_store c stack target g store with hs | ⟨_, hs⟩ <;> rw [hs]
  · exact h
  · exact h.diagnose c.current target _

/-- A step keeps everything confined. -/
theorem Point.Confined.step (hP : Ty.Closed P) (hQ : Ty.AdmitsArrays P Q)
    (hnatives : c.natives.All (Native.Signature.Confined P)) (h : x.Confined P)
    (hstored : x.Stores Q c) (hstep : Step c x y) : y.Confined P := by
  cases hstep with
  | skip | stop | finish => exact ⟨h.state, h.blocks, List.forall_mem_nil _⟩
  | @enter g s start rest b hblock hnew =>
      have hb : b.Confined P := h.blocks b (Graph.mem_of_block? hblock).1
      refine ⟨⟨h.state.store, fun e he => ?_, fun _ => nofun⟩, ?_, hb.instructions⟩
      · -- What is on the stack is what was handed on to the block.
        cases hentry : b.entryStack with
        | none => simp [opening, hentry] at he
        | some entry => exact hb.stack entry hentry e (by simpa [opening, hentry] using he)
      · exact Graph.forall_modifyBlock h.blocks fun b hb _ =>
          ⟨(h.blocks b hb).1, (h.blocks b hb).2, (h.blocks b hb).3⟩
  | @replay g s b i body rest hfault =>
      obtain ⟨hi, hbody⟩ := List.forall_mem_cons.1 h.body
      exact ⟨confined_replayInstruction hP hQ hnatives hi h.state (hstored i rfl),
        h.blocks, hbody⟩
  | @handOn g s b target targets rest =>
      refine ⟨⟨confined_handOff s.stack target g h.state.store, h.state.stack, h.state.emitted⟩,
        ?_, List.forall_mem_nil _⟩
      rcases handOff_graph c s.stack target g s.store with hg | ⟨-, hg⟩ <;> dsimp only <;> rw [hg]
      · exact h.blocks
      · refine Graph.forall_modifyBlock h.blocks fun b hb _ =>
          ⟨(h.blocks b hb).1, ?_, (h.blocks b hb).3⟩
        rintro entry ⟨⟩
        exact h.state.stack
  | @keep g kept s b rest hkept =>
      subst hkept
      refine ⟨⟨h.state.store, fun _ => nofun, fun _ => nofun⟩, ?_, List.forall_mem_nil _⟩
      refine Graph.forall_modifyBlock h.blocks fun b hb _ =>
        ⟨(h.blocks b hb).1, (h.blocks b hb).2, fun statement hmem => ?_⟩
      exact h.state.emitted statement (Array.mem_toList_iff.1 hmem)

end Steps

namespace Program

/-- Is everything in a program confined? -/
structure Confined (P : Ty → Prop) (p : Program) : Prop where
  store : p.store.Confined P
  blocks : ∀ (k : Nat) (g : Graph), p.graphs[k]? = some g → ∀ b ∈ g.blocks, b.Confined P

/-- Does the type of every variable satisfy `P`, and that of every value on an entry stack, or
put into a statement, as it is known in its function? -/
structure Types (P : Ty → Prop) (p : Program) : Prop where
  places : ∀ place v, p.store.at? place = some v → P v.ty
  entries : ∀ (k : Nat) (g : Graph), p.graphs[k]? = some g → ∀ b ∈ g.blocks,
    ∀ entry, b.entryStack = some entry → ∀ e ∈ entry, P (e.typeIn (p.store.scope k))
  statements : ∀ (k : Nat) (g : Graph), p.graphs[k]? = some g → ∀ b ∈ g.blocks,
    ∀ statement ∈ b.statements, ∀ e ∈ statement.operands, P (e.typeIn (p.store.scope k))

/-- Do the arrays that implodes store satisfy `Q`, as functions are decompiled in the given
order? -/
def Stores (Q : Ty → Prop) (p : Program) (order : List Context) : Prop :=
  ∀ before c after, order = before ++ c :: after →
    ∀ x, (p.after before).Passes c x → x.Stores Q c

variable {P Q : Ty → Prop} {p : Program} {c : Context} {x : Point}

theorem Stores.of_append {order later : List Context} (h : p.Stores Q (order ++ later)) :
    p.Stores Q order := by
  rintro before c after rfl
  exact h before c (after ++ later) (by simp)

theorem Confined.types (h : p.Confined P) (hP : Ty.Closed P) : p.Types P := by
  have hscope : ∀ k r v, (p.store.scope k).get? r = some v → P v.ty := fun k r v hv =>
    h.store.get? hv
  exact ⟨h.store,
    fun k g hg b hb entry hentry e he =>
      ((h.blocks k g hg b hb).stack entry hentry e he).typeIn hP (hscope k),
    fun k g hg b hb statement hmem e he =>
      ((h.blocks k g hg b hb).statements statement hmem e he).typeIn hP (hscope k)⟩

/-- Checking the arrays that are stored while one function is decompiled. -/
theorem stores_of_allWithin [DecidablePred Q] {fuel : Nat}
    (h : p.allWithin c (fun x => decide (x.Stores Q c)) fuel = true) : p.Stores Q [c] := by
  intro before c' after horder x hx
  obtain ⟨rfl, rfl, rfl⟩ : before = [] ∧ c' = c ∧ after = [] := by
    cases before with
    | nil =>
        obtain ⟨rfl, hafter⟩ := List.cons.inj horder
        exact ⟨rfl, rfl, hafter.symm⟩
    | cons first rest => simp at horder
  exact of_decide_eq_true (check_of_allWithin h hx)

/-- The program at a point of decompiling function `current`. -/
def atPoint (p : Program) (current : Nat) (x : Point) : Program :=
  ⟨x.state.store, p.graphs.setIfInBounds current x.graph⟩

variable (hP : Ty.Closed P) (hQ : Ty.AdmitsArrays P Q)
include hP hQ

/-- Every point of decompiling a function. -/
theorem Confined.passes (h : p.Confined P) (hnatives : c.natives.All (Native.Signature.Confined P))
    (hstored : ∀ x, p.Passes c x → x.Stores Q c) (hx : p.Passes c x) : x.Confined P := by
  obtain ⟨g, hgraph, hsteps⟩ := hx
  induction hsteps with
  | refl =>
      refine ⟨⟨h.store, fun _ => nofun, fun _ => nofun⟩, ?_, List.forall_mem_nil _⟩
      have hblocks := h.blocks c.current g hgraph
      refine Graph.forall_modifyBlock hblocks fun b hb _ => ⟨(hblocks b hb).1, ?_, (hblocks b hb).3⟩
      rintro entry ⟨⟩
      cases hentry : b.entryStack with
      | none => exact List.forall_mem_nil _
      | some entry => exact (hblocks b hb).stack entry hentry
  | tail hsteps hstep ih => exact ih.step hP hQ hnatives (hstored _ ⟨g, hgraph, hsteps⟩) hstep

omit hP hQ in
theorem Confined.atPoint (h : p.Confined P) (hx : x.Confined P) (current : Nat) :
    (p.atPoint current x).Confined P := by
  refine ⟨hx.state.store, fun k g hg => ?_⟩
  rw [Program.atPoint, Array.getElem?_setIfInBounds] at hg
  split at hg
  · split at hg
    · cases hg
      exact hx.blocks
    · cases hg
  · exact h.blocks k g hg

theorem Confined.decompileFunction (h : p.Confined P)
    (hnatives : c.natives.All (Native.Signature.Confined P))
    (hstored : ∀ x, p.Passes c x → x.Stores Q c) : (p.decompileFunction c).2.Confined P := by
  cases hgraph : p.graphs[c.current]? with
  | none =>
      unfold Program.decompileFunction
      simp only [hgraph]
      exact h
  | some g =>
      obtain ⟨last, hlast, hrun⟩ := exists_passes_decompileFunction hgraph
      rw [hrun]
      exact h.atPoint (h.passes hP hQ hnatives hstored hlast) c.current

/-- After functions were decompiled in any order. -/
theorem Confined.after (h : p.Confined P) {order : List Context}
    (hnatives : ∀ c ∈ order, c.natives.All (Native.Signature.Confined P))
    (hstored : p.Stores Q order) : (p.after order).Confined P := by
  induction order using List.reverseRecOn with
  | nil => exact h
  | append_singleton order c ih =>
      rw [after_append_singleton]
      have hbefore := ih (fun c hc => hnatives c (List.mem_append_left _ hc)) hstored.of_append
      exact hbefore.decompileFunction hP hQ
        (hnatives c (List.mem_append_right _ List.mem_cons_self)) (hstored order c [] rfl)

end Program

section Units

variable {u : ScriptUnit} {instructions : List Instruction} {P : Ty → Prop}

/-- A native call pushes three slots at most. -/
theorem pushesBlock_of_mem (hcode : u.instructions = .ok instructions) {i : Instruction}
    (hi : i ∈ instructions) : i.PushesBlock := by
  intro inSlots outSlots index hoperand
  obtain ⟨-, -, hnext, -⟩ := Bytecode.instruction_of_mem hcode hi
  obtain ⟨bytes, read, -, hread, heq, -⟩ := Bytecode.Cursor.next_eq_decoded hnext
  rw [heq] at hoperand
  rw [(Bytecode.Format.read_native_iff hread).1 ⟨inSlots, outSlots, index, hoperand⟩] at hread
  obtain ⟨hadmits, -⟩ := Bytecode.Format.encode_of_read 0 hread (by decide)
  rw [show read.operand = _ from hoperand] at hadmits
  cases hadmits with
  | native hin hout hindex => exact Nat.le_trans (Nat.le_of_lt hout) (by decide)

/-- Before anything is replayed. -/
theorem confined_program (hP : Ty.Closed P) (hcode : u.instructions = .ok instructions) :
    (u.program instructions).Confined P := by
  refine ⟨fun place v hv => ?_, fun k g hg b hb => ?_⟩
  · cases place with
    | global index => cases hv
    | static index =>
        obtain ⟨value, rfl⟩ := eq_of_get?_ofStatics hv
        exact hP.scalar _
    | own k spot =>
        obtain ⟨frame, hframe, hspot⟩ := Option.bind_eq_some_iff.1 hv
        rw [frames_program, List.getElem?_toArray, List.getElem?_map] at hframe
        obtain ⟨built, hbuilt, rfl⟩ := Option.map_eq_some_iff.1 hframe
        obtain ⟨first, rest, arguments, slots, name, hdeclare, -⟩ :=
          Flow.exists_eq_of_mem_buildFunctions (List.mem_of_getElem? hbuilt)
        rw [hdeclare] at hspot
        rcases Frame.eq_of_at?_declare hspot with ⟨_, -, rfl⟩ | ⟨_, -, rfl⟩ | ⟨-, rfl⟩
        · exact hP.unknown
        · exact hP.unknown
        · show P (Flow.resultType (first :: rest))
          unfold Flow.resultType
          dsimp only
          split
          · exact hP.void
          · exact hP.unknown
  · rw [graphs_program] at hg
    obtain ⟨built, hbuilt, rfl⟩ := Option.map_eq_some_iff.1 hg
    have hmem := List.mem_of_getElem? hbuilt
    obtain ⟨body, hpart, hbody⟩ := Flow.built_of_mem_buildFunctions hcode hmem
    refine ⟨fun i hi => ?_, ?_, ?_⟩
    · exact pushesBlock_of_mem hcode
        (hpart.subset ((hbody.toPartitions.isInfix_block hb).subset hi))
    · rw [← (Flow.fresh_of_mem_buildFunctions hmem).untouched hb]
      exact fun _ => nofun
    · rw [← (Flow.fresh_of_mem_buildFunctions hmem).untouched hb]
      exact fun _ => nofun

/-- The types of signatures in a loaded database take three slots at most. -/
theorem confined_of_loaded {bound : Nat} (hbound : 3 ≤ bound) {natives : Native.Database}
    (h : natives.Loaded) : natives.All (Native.Signature.Confined (Ty.Fits bound)) := by
  intro hash signature hfound
  obtain ⟨hparameters, name, hresult⟩ := h.named hash signature hfound
  refine ⟨fun parameter hmem => ?_, hresult ▸ Ty.fits_parse hbound name⟩
  obtain ⟨name, hname⟩ := hparameters parameter hmem
  exact hname ▸ Ty.fits_parse hbound name

/-- No type takes more slots than the arrays that are imploded, or than an explode may spread.  If
no implode stores an array of more than `bound` slots while functions of a unit are decompiled,
in any order and with any databases that were loaded, then no part of any type takes more: not of
the type of a variable or result of any function, nor of what is on an entry stack, in a statement
or on the operand stack, neither afterwards nor at any point before.  With a bound below `2 ^ 64`
words of 64 bits therefore hold all footprints (`Ty.Fits.toNat_stackSize`). -/
theorem fits_of_implodes {bound : Nat} (hbound : maxExplodeSlots ≤ bound)
    (hcode : u.instructions = .ok instructions) {order : List Context}
    (hnatives : ∀ c ∈ order, c.natives.Loaded)
    (himplodes : (u.program instructions).Stores (·.footprint ≤ bound) order) :
    ((u.program instructions).after order).Types (Ty.Fits bound) ∧
      ∀ before c after, order = before ++ c :: after →
        let p := (u.program instructions).after before
        ∀ x, p.Passes c x → (p.atPoint c.current x).Types (Ty.Fits bound) ∧
          (∀ e ∈ x.state.stack, (e.typeIn (x.state.store.scope c.current)).Fits bound) ∧
          ∀ statement ∈ x.state.emitted, ∀ e ∈ statement.operands,
            (e.typeIn (x.state.store.scope c.current)).Fits bound := by
  have hP := Ty.closed_fits hbound
  have hQ := Ty.admitsArrays_fits bound
  have hloaded : ∀ c ∈ order, c.natives.All (Native.Signature.Confined (Ty.Fits bound)) :=
    fun c hc => confined_of_loaded (Nat.le_trans (by decide) hbound) (hnatives c hc)
  have hstart := confined_program hP hcode
  refine ⟨(hstart.after hP hQ hloaded himplodes).types hP, ?_⟩
  rintro before c after rfl p x hx
  have hbefore : p.Confined (Ty.Fits bound) :=
    hstart.after hP hQ (fun c hc => hloaded c (List.mem_append_left _ hc)) himplodes.of_append
  have hpoint := hbefore.passes hP hQ (hloaded c (List.mem_append_right _ List.mem_cons_self))
    (himplodes before c after rfl) hx
  exact ⟨(hbefore.atPoint hpoint c.current).types hP,
    fun e he => (hpoint.state.stack e he).typeIn hP (hpoint.state.scope c.current),
    fun statement hmem e he =>
      (hpoint.state.emitted statement hmem e he).typeIn hP (hpoint.state.scope c.current)⟩

/-- Three floating-point numbers of a vector are stored in one local, and the vector twice in
another one. -/
theorem fits_of_implodes_vectors :
    let code : List UInt8 := [45, 0, 4, 0, 1, 102, 113, 55, 0, 50, 113, 55, 1, 51, 56, 0, 42, 112,
      55, 2, 51, 46, 0, 0]
    let u : ScriptUnit := ⟨"u", code, 24, [], #[], []⟩
    let c : Context := ⟨u, .empty, false, 0⟩
    let instructions : List Instruction := [⟨0, 45, .enter 0 4 "f", 6⟩,
      ⟨6, 113, .impliedInt 3, 1⟩, ⟨7, 55, .imm8 0, 2⟩, ⟨9, 50, .none, 1⟩,
      ⟨10, 113, .impliedInt 3, 1⟩, ⟨11, 55, .imm8 1, 2⟩, ⟨13, 51, .none, 1⟩,
      ⟨14, 56, .imm8 0, 2⟩, ⟨16, 42, .none, 1⟩, ⟨17, 112, .impliedInt 2, 1⟩,
      ⟨18, 55, .imm8 2, 2⟩, ⟨20, 51, .none, 1⟩, ⟨21, 46, .ret 0 0, 3⟩]
    let bound := 2 ^ 64 - 1
    let p := u.program instructions
    maxExplodeSlots ≤ bound ∧ u.instructions = .ok instructions ∧ c.natives.Loaded ∧
      p.Stores (·.footprint ≤ bound) [c] ∧ ∃ v, (p.after [c]).store.get? 0 (.slot 2) = some v ∧
        v.ty = .array .vector3 2 ∧ v.ty.Fits bound ∧ v.ty.footprint < 2 ^ 64 := by
  intro code u c instructions bound p
  have hbound : maxExplodeSlots ≤ bound := by decide
  have hcode : u.instructions = .ok instructions := by decide +kernel
  have hstores : p.allWithin c (fun x => decide (x.Stores (·.footprint ≤ bound) c)) 20 = true := by
    decide +kernel
  have himplodes := Program.stores_of_allWithin hstores
  have hrun : ((p.afterWithin 9 [c]).bind (·.store.get? 0 (.slot 2))).map (·.ty) =
      some (.array .vector3 2) := by decide +kernel
  obtain ⟨v, hv, hty⟩ := Option.map_eq_some_iff.1 hrun
  obtain ⟨q, hq, hv⟩ := Option.bind_eq_some_iff.1 hv
  rw [← after_of_afterWithin hq] at hv
  have hfits := fits_of_implodes hbound hcode
    (List.forall_mem_singleton.2 Native.Database.Loaded.empty) himplodes
  have hv_fits : v.ty.Fits bound := Store.Confined.get? hfits.1.places hv
  have hv_le : v.ty.footprint ≤ bound := hv_fits.footprint_le (by decide)
  exact ⟨hbound, hcode, .empty, himplodes, v, hv, hty, hv_fits, Nat.lt_of_le_pred (by decide) hv_le⟩

/-- Thirty-two times, four copies of a local are stored in the next one.  Nothing is reported, and
the last local takes as many slots as there are addresses. -/
theorem exists_footprint_overflow :
    let code : List UInt8 := [45, 0, 33, 0, 1, 102] ++ (List.range 32).flatMap (fun k =>
      [56, UInt8.ofNat k, 42, 42, 42, 114, 55, UInt8.ofNat (k + 1), 51]) ++ [46, 0, 0]
    let u : ScriptUnit := ⟨"u", code, 297, [], #[], []⟩
    ∃ instructions p v, u.instructions = .ok instructions ∧
      (u.program instructions).after [⟨u, .empty, false, 0⟩] = p ∧
        p.store.diagnostics = #[] ∧ p.store.get? 0 (.slot 32) = some v ∧
          v.ty.footprint = 2 ^ 64 := by
  intro code u
  have hrun : (u.instructions.toOption.bind fun instructions =>
      ((u.program instructions).afterWithin 9 [⟨u, .empty, false, 0⟩]).bind fun p =>
        (p.store.get? 0 (.slot 32)).map fun v => (v.ty.footprint, p.store.diagnostics)) =
      some (2 ^ 64, #[]) := by decide +kernel
  obtain ⟨instructions, hdecoded, hrun⟩ := Option.bind_eq_some_iff.1 hrun
  obtain ⟨p, hp, hrun⟩ := Option.bind_eq_some_iff.1 hrun
  obtain ⟨v, hv, hfound⟩ := Option.map_eq_some_iff.1 hrun
  obtain ⟨hfootprint, hdiagnostics⟩ := Prod.mk.inj hfound
  have hcode : u.instructions = .ok instructions := by
    cases h : u.instructions with
    | error e =>
        rw [h] at hdecoded
        cases hdecoded
    | ok decoded =>
        rw [h] at hdecoded
        cases hdecoded
        rfl
  exact ⟨instructions, p, v, hcode, after_of_afterWithin hp, hdiagnostics, hv, hfootprint⟩

end Units

end Machine

end ScriptDecompiler
