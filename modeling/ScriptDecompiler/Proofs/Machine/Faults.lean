import ScriptDecompiler.Decompile
import ScriptDecompiler.Proofs.Flow.Functions
import ScriptDecompiler.Proofs.Machine.Walk

/-!
# When decompiling stops at a fault

Whether an instruction is at fault depends on the native table and on where
functions start, and replaying changes neither.  So a function is decompiled
without a fault exactly if none of the instructions that control can reach is at
fault, and a unit exactly if this holds for all of its functions; otherwise the
fault is one of the first function that has any.
-/

namespace ScriptDecompiler.Machine

open ScriptDecompiler.Bytecode (Instruction opcodeInfo)
open ScriptDecompiler.Flow (Graph buildFunctions cutBefore cutBefore_cons exists_enter
  fresh_of_mem_buildFunctions)

-- The opcode table is too large to be unfolded whenever terms are compared.
attribute [local irreducible] opcodeInfo

/-- What is wrong with an instruction, given all instructions of the unit: it calls
an address at which none of them is an ENTER, it names a native behind the end of the
table, or it returns more than one value. -/
inductive Bad (u : ScriptUnit) (instructions : List Instruction) (i : Instruction) :
    FaultKind → Prop
  | call {target : Nat} (hoperation : i.operation = .call) (hoperand : i.operand = .call target)
      (hnowhere : ∀ e ∈ instructions, e.isEnter = true → e.address ≠ target) :
      Bad u instructions i (.unknownCallTarget target)
  | native {inSlots outSlots index : Nat} (hoperation : i.operation = .callNative)
      (hoperand : i.operand = .native inSlots outSlots index) (hend : u.natives.size ≤ index) :
      Bad u instructions i (.invalidNativeIndex index u.natives.size)
  | ret {parameters values : Nat} (hoperation : i.operation = .ret)
      (hoperand : i.operand = .ret parameters values) (hmany : 1 < values) :
      Bad u instructions i (.tooManyReturnValues values)

section Fault

/-- Faults depend on the heads of the functions only. -/
theorem fault?_congr (c : Context) {s s' : Store} (h : s'.heads = s.heads) (i : Instruction) :
    fault? c s'.frames i = fault? c s.frames i := by
  unfold fault? faultKind?
  simp only [functionAt?_congr h, name?_congr h]

variable {c : Context} {s s' : State} {body : List Instruction}

theorem fault?_of_replay (h : replay c s body = (none, s')) :
    ∀ i ∈ body, fault? c s.store.frames i = none := by
  induction body generalizing s with
  | nil => simp
  | cons i body ih =>
      obtain ⟨hfault, h⟩ := replay_cons_eq_none_iff.1 h
      intro j hj
      rcases List.mem_cons.1 hj with rfl | hj
      · exact hfault
      · rw [← ih h j hj]
        exact (fault?_congr c (continues_replayInstruction c i s).heads j).symm

theorem exists_fault?_of_replay {fault : Fault} (h : replay c s body = (some fault, s')) :
    ∃ i ∈ body, fault? c s.store.frames i = some fault := by
  induction body generalizing s with
  | nil => cases h
  | cons i body ih =>
      rw [replay_cons] at h
      cases hfault : fault? c s.store.frames i with
      | some found =>
          rw [hfault] at h
          cases h
          exact ⟨i, List.mem_cons_self, hfault⟩
      | none =>
          rw [hfault] at h
          obtain ⟨j, hj, hfound⟩ := ih h
          refine ⟨j, List.mem_cons_of_mem _ hj, ?_⟩
          rw [← hfound]
          exact (fault?_congr c (continues_replayInstruction c i s).heads j).symm

end Fault

namespace Walk

variable {c : Context} {g : Graph} {store : Store} {worklist : List Nat} {visits : List Visit}
  {out : Option Fault × Graph × Store}

/-- Nothing that a walk without a fault replays is at fault. -/
theorem fault?_eq_none (h : Walk c g store worklist visits out) (hout : out.1 = none) :
    ∀ v ∈ visits, ∀ i ∈ v.block.instructions, fault? c store.frames i = none := by
  induction h with
  | done => simp
  | skip _ _ ih => exact ih hout
  | stop => cases hout
  | @visit g store start rest b s visits out hblock hnew hreplay _ ih =>
      intro v hv i hi
      rcases List.mem_cons.1 hv with rfl | hv
      · exact fault?_of_replay hreplay i hi
      · rw [← ih hout v hv i hi]
        exact (fault?_congr c (keeps_leave c hreplay g).heads i).symm

/-- The fault that stops a walk is one of a visited block. -/
theorem exists_fault? (h : Walk c g store worklist visits out) {fault : Fault}
    (hout : out.1 = some fault) :
    ∃ v ∈ visits, ∃ i ∈ v.block.instructions, fault? c store.frames i = some fault := by
  induction h with
  | done => cases hout
  | skip _ _ ih => exact ih hout
  | @stop g store start b found s rest hblock hnew hreplay =>
      cases hout
      exact ⟨⟨b, opening b store, s⟩, List.mem_cons_self, exists_fault?_of_replay hreplay⟩
  | @visit g store start rest b s visits out hblock hnew hreplay _ ih =>
      obtain ⟨v, hv, i, hi, hfault⟩ := ih hout
      refine ⟨v, List.mem_cons_of_mem _ hv, i, hi, ?_⟩
      rw [← hfault]
      exact (fault?_congr c (keeps_leave c hreplay g).heads i).symm

end Walk

/-- Decompiling a fresh function stops at a fault exactly if control can reach one. -/
theorem fault_explore {c : Context} {fresh : Graph} (hfresh : fresh.Fresh) (store : Store) :
    match (explore c (openEntry fresh) store [fresh.entry]).1 with
    | none => ∀ i, fresh.Executes i → fault? c store.frames i = none
    | some fault => ∃ i, fresh.Executes i ∧ fault? c store.frames i = some fault := by
  obtain ⟨visits, hwalk⟩ := walk_explore c (openEntry fresh) store [fresh.entry]
  have hstart := exploring_openEntry hfresh
  generalize explore c (openEntry fresh) store [fresh.entry] = out at hwalk
  cases hout : out.1 with
  | none =>
      rintro i ⟨start, b, hreaches, hblock, hi⟩
      have hexplored := hwalk.exploring hstart hfresh hout
      have hvisited := hexplored.mem_visited_iff.2 hreaches
      rw [List.nil_append, List.mem_map] at hvisited
      obtain ⟨v, hv, rfl⟩ := hvisited
      have hsame := (hwalk.reaches hstart hfresh v hv).2
      rw [hblock, Option.some.injEq] at hsame
      subst hsame
      exact hwalk.fault?_eq_none hout v hv i hi
  | some fault =>
      obtain ⟨v, hv, i, hi, hfault⟩ := hwalk.exists_fault? hout
      obtain ⟨hreaches, hblock⟩ := hwalk.reaches hstart hfresh v hv
      exact ⟨i, ⟨v.start, _, hreaches, hblock, hi⟩, hfault⟩

section Program

variable {p p₀ : Program} {c : Context}

/-- A program in which the functions from `first` on are still to be decompiled, and the
others may have been. -/
structure Pending (p₀ p : Program) (first : Nat) : Prop where
  heads : p.store.heads = p₀.store.heads
  graphs : ∀ index, first ≤ index → p.graphs[index]? = p₀.graphs[index]?

theorem Pending.next {first : Nat} (h : Pending p₀ p first) (hcurrent : c.current = first) :
    Pending p₀ (p.decompileFunction c).2 (first + 1) := by
  refine ⟨(keeps_decompileFunction p c).heads.trans h.heads, fun index hindex => ?_⟩
  rw [graphs_decompileFunction p c (by omega), h.graphs index (by omega)]

/-- The fault that stops the next function, if there is any. -/
theorem Pending.fault {first : Nat} (h : Pending p₀ p first) (hcurrent : c.current = first)
    (hfresh : ∀ g ∈ p₀.graphs, g.Fresh) :
    match (p.decompileFunction c).1 with
    | none => ∀ g, p₀.graphs[first]? = some g → ∀ i, g.Executes i →
        fault? c p₀.store.frames i = none
    | some fault => ∃ g, p₀.graphs[first]? = some g ∧ ∃ i, g.Executes i ∧
        fault? c p₀.store.frames i = some fault := by
  have hgraph := h.graphs first (Nat.le_refl _)
  unfold Program.decompileFunction
  rw [hcurrent, hgraph]
  cases hg : p₀.graphs[first]? with
  | none => exact fun g hnone => by cases hnone
  | some g =>
      have hexplore := fault_explore (c := c) (hfresh g (Array.mem_of_getElem? hg)) p.store
      dsimp only
      generalize explore c (openEntry g) p.store [g.entry] = out at hexplore ⊢
      obtain ⟨fault, out⟩ := out
      cases fault with
      | none =>
          intro g' hg'
          cases hg'
          exact fun i hi => (fault?_congr c h.heads i).symm.trans (hexplore i hi)
      | some fault =>
          obtain ⟨i, hi, hfault⟩ := hexplore
          exact ⟨g, rfl, i, hi, (fault?_congr c h.heads i).symm.trans hfault⟩

/-- Decompiling `count` functions in order from `first` on stops at the first of them in
which control can reach a fault. -/
theorem Pending.run (u : ScriptUnit) (natives : Native.Database) (annotate : Bool)
    (hfresh : ∀ g ∈ p₀.graphs, g.Fresh) (count : Nat) {first : Nat} (h : Pending p₀ p first) :
    match (p.decompileFunctions u natives annotate (List.range' first count)).1 with
    | none => ∀ index, first ≤ index → index < first + count → ∀ g, p₀.graphs[index]? = some g →
        ∀ i, g.Executes i → fault? ⟨u, natives, annotate, index⟩ p₀.store.frames i = none
    | some fault => ∃ index, first ≤ index ∧ index < first + count ∧
        (∀ before, first ≤ before → before < index → ∀ g, p₀.graphs[before]? = some g →
          ∀ i, g.Executes i → fault? ⟨u, natives, annotate, before⟩ p₀.store.frames i = none) ∧
        ∃ g, p₀.graphs[index]? = some g ∧ ∃ i, g.Executes i ∧
          fault? ⟨u, natives, annotate, index⟩ p₀.store.frames i = some fault := by
  induction count generalizing p first with
  | zero => exact fun index hle hlt => by omega
  | succ count ih =>
      have hnext := h.next (c := ⟨u, natives, annotate, first⟩) rfl
      have hfault := h.fault (c := ⟨u, natives, annotate, first⟩) rfl hfresh
      rw [List.range'_succ, Program.decompileFunctions]
      generalize p.decompileFunction ⟨u, natives, annotate, first⟩ = out at hnext hfault ⊢
      obtain ⟨fault, out⟩ := out
      cases fault with
      | some fault => exact ⟨first, Nat.le_refl _, by omega, fun _ hle hlt => by omega, hfault⟩
      | none =>
          have hrest := ih hnext
          dsimp only at hrest hfault ⊢
          generalize (out.decompileFunctions u natives annotate
            (List.range' (first + 1) count)).1 = found at hrest ⊢
          -- The first function has no fault, so whatever holds from the second on holds.
          have hfrom : ∀ limit, (∀ index, first + 1 ≤ index → index < limit → ∀ g,
              p₀.graphs[index]? = some g → ∀ i, g.Executes i →
                fault? ⟨u, natives, annotate, index⟩ p₀.store.frames i = none) →
              ∀ index, first ≤ index → index < limit → ∀ g, p₀.graphs[index]? = some g →
                ∀ i, g.Executes i →
                  fault? ⟨u, natives, annotate, index⟩ p₀.store.frames i = none := by
            intro limit hlater index hle hlt
            rcases Nat.eq_or_lt_of_le hle with rfl | hless
            · exact hfault
            · exact hlater index hless hlt
          cases found with
          | none =>
              refine hfrom _ fun index hle hlt => hrest index hle (by omega)
          | some fault =>
              obtain ⟨index, hle, hlt, hbefore, hfound⟩ := hrest
              exact ⟨index, by omega, by omega, hfrom index hbefore, hfound⟩

end Program

/-- Functions start where the ENTER instructions are. -/
theorem addresses_buildFunctions (instructions : List Instruction) :
    (buildFunctions instructions).1.map (·.frame.address) =
      (instructions.filter (·.isEnter)).map (·.address) := by
  show ((cutBefore Instruction.isEnter instructions).2.filterMap Flow.Function.ofBody?).map _ = _
  induction instructions with
  | nil => rfl
  | cons i instructions ih =>
      rw [cutBefore_cons]
      by_cases henter : i.isEnter = true
      · obtain ⟨arguments, slots, name, hoperand⟩ := exists_enter henter
        rw [if_pos henter, List.filter_cons_of_pos henter, List.map_cons, ← ih]
        simp [Flow.Function.ofBody?, hoperand, Frame.declare]
      · rw [if_neg henter, List.filter_cons_of_neg henter, ← ih]

theorem functionAt?_eq_none_iff {instructions : List Instruction} {address : Nat} :
    functionAt? ((buildFunctions instructions).1.map (·.frame)).toArray address = none ↔
      ∀ e ∈ instructions, e.isEnter = true → e.address ≠ address := by
  have hmem : ∀ start, start ∈ (buildFunctions instructions).1.map (·.frame.address) ↔
      ∃ e ∈ instructions, e.isEnter = true ∧ e.address = start := by
    intro start
    rw [addresses_buildFunctions]
    simp [and_assoc]
  simp only [functionAt?, Array.findIdx?_eq_none_iff, List.mem_toArray, List.forall_mem_map,
    decide_eq_false_iff_not]
  constructor
  · intro hnone e he henter haddress
    obtain ⟨f, hf, hstart⟩ := List.mem_map.1 ((hmem address).2 ⟨e, he, henter, haddress⟩)
    exact hnone f hf hstart
  · intro hnone f hf hstart
    obtain ⟨e, he, henter, haddress⟩ := (hmem address).1 (List.mem_map.2 ⟨f, hf, hstart⟩)
    exact hnone e he henter haddress

/-- The check in front of every instruction finds exactly the bad ones. -/
theorem faultKind?_eq_some_iff {u : ScriptUnit} {instructions : List Instruction}
    {i : Instruction} {kind : FaultKind} :
    faultKind? u ((buildFunctions instructions).1.map (·.frame)).toArray i = some kind ↔
      Bad u instructions i kind := by
  constructor
  · intro h
    unfold faultKind? at h
    split at h
    · rename_i parameters values hoperation hoperand
      split at h
      · cases h
      · cases h
        exact .ret hoperation hoperand (by omega)
    · rename_i target hoperation hoperand
      split at h
      · cases h
      · rename_i hnone
        cases h
        exact .call hoperation hoperand (functionAt?_eq_none_iff.1 hnone)
    · rename_i inSlots outSlots index hoperation hoperand
      split at h
      · cases h
      · cases h
        exact .native hoperation hoperand (by omega)
    · cases h
  · intro h
    unfold faultKind?
    cases h with
    | call hoperation hoperand hnowhere =>
        simp only [hoperation, hoperand, functionAt?_eq_none_iff.2 hnowhere]
    | native hoperation hoperand hend =>
        simp only [hoperation, hoperand, if_neg (Nat.not_lt.2 hend)]
    | ret hoperation hoperand hmany =>
        simp only [hoperation, hoperand, if_neg (Nat.not_le.2 hmany)]

/-- Can control reach a bad instruction in a function of a unit? -/
def Faulty (u : ScriptUnit) (instructions : List Instruction) (f : Flow.Function) : Prop :=
  ∃ i kind, f.graph.Executes i ∧ Bad u instructions i kind

section Run

variable {u : ScriptUnit} {natives : Native.Database} {annotate : Bool}
  {instructions : List Instruction} {index : Nat} {f : Flow.Function}

theorem frames_program (u : ScriptUnit) (instructions : List Instruction) :
    (u.program instructions).store.frames =
      ((buildFunctions instructions).1.map (·.frame)).toArray := rfl

theorem graphs_program (u : ScriptUnit) (instructions : List Instruction) (index : Nat) :
    (u.program instructions).graphs[index]? =
      (buildFunctions instructions).1[index]?.map (·.graph) := by
  show ((buildFunctions instructions).1.map (·.graph)).toArray[index]? = _
  rw [List.getElem?_toArray, List.getElem?_map]

theorem faulty_iff (natives : Native.Database) (annotate : Bool) (index : Nat) :
    Faulty u instructions f ↔ ∃ i, f.graph.Executes i ∧
    fault? ⟨u, natives, annotate, index⟩ (u.program instructions).store.frames i ≠ none := by
  unfold fault?
  rw [frames_program]
  simp only [ne_eq, Option.map_eq_none_iff, Option.ne_none_iff_exists', faultKind?_eq_some_iff]
  constructor
  · rintro ⟨i, kind, hi, hbad⟩
    exact ⟨i, hi, kind, hbad⟩
  · rintro ⟨i, hi, kind, hbad⟩
    exact ⟨i, kind, hi, hbad⟩

theorem not_faulty (hnone : ∀ g, (u.program instructions).graphs[index]? = some g →
      ∀ i, g.Executes i → fault? ⟨u, natives, annotate, index⟩
        (u.program instructions).store.frames i = none)
    (hf : (buildFunctions instructions).1[index]? = some f) : ¬ Faulty u instructions f := by
  intro hfaulty
  obtain ⟨i, hi, hfault⟩ := (faulty_iff natives annotate index).1 hfaulty
  exact hfault (hnone f.graph (by rw [graphs_program, hf]; rfl) i hi)

theorem of_fault?_eq_some {fault : Fault} {i : Instruction}
    (hf : (buildFunctions instructions).1[index]? = some f)
    (h : fault? ⟨u, natives, annotate, index⟩ (u.program instructions).store.frames i =
      some fault) :
    Bad u instructions i fault.kind ∧ fault.function = f.frame.name ∧
      fault.address = i.address ∧ fault.instruction = i.text := by
  obtain ⟨kind, hkind, rfl⟩ := Option.map_eq_some_iff.1 h
  rw [frames_program] at hkind ⊢
  refine ⟨faultKind?_eq_some_iff.1 hkind, ?_, rfl, rfl⟩
  simp [hf]

end Run

/-- If decompiling a unit meets no fault, control can reach no bad instruction; the fault that it
meets is a bad instruction of the first function in which control can reach any. -/
theorem fault_run (u : ScriptUnit) (natives : Native.Database) (annotate : Bool)
    (instructions : List Instruction) :
    match ((u.program instructions).run u natives annotate).1 with
    | none => ∀ f ∈ (buildFunctions instructions).1, ¬ Faulty u instructions f
    | some fault =>
      ∃ (index : Nat) (f : Flow.Function), (buildFunctions instructions).1[index]? = some f ∧
        (∀ before, before < index → ∀ e : Flow.Function,
          (buildFunctions instructions).1[before]? = some e → ¬ Faulty u instructions e) ∧
        ∃ i, f.graph.Executes i ∧ Bad u instructions i fault.kind ∧
          fault.function = f.frame.name ∧ fault.address = i.address ∧
          fault.instruction = i.text := by
  have hfresh : ∀ g ∈ (u.program instructions).graphs, g.Fresh := by
    intro g hg
    obtain ⟨f, hf, rfl⟩ := List.mem_map.1 (List.mem_toArray.1 hg)
    exact fresh_of_mem_buildFunctions hf
  have hrun := Pending.run u natives annotate hfresh (u.program instructions).graphs.size
    (show Pending _ _ 0 from ⟨rfl, fun _ _ => rfl⟩)
  rw [← List.range_eq_range'] at hrun
  have hsize : (u.program instructions).graphs.size = (buildFunctions instructions).1.length := by
    show ((buildFunctions instructions).1.map (·.graph)).toArray.size = _
    simp
  unfold Program.run
  generalize ((u.program instructions).decompileFunctions u natives annotate
    (List.range (u.program instructions).graphs.size)).1 = found at hrun
  cases found with
  | none =>
      intro f hf
      obtain ⟨index, hindex⟩ := List.mem_iff_getElem?.1 hf
      obtain ⟨hlt, -⟩ := List.getElem?_eq_some_iff.1 hindex
      exact not_faulty (hrun index (Nat.zero_le _) (by omega)) hindex
  | some fault =>
      obtain ⟨index, -, -, hbefore, g, hg, i, hi, hfault⟩ := hrun
      rw [graphs_program] at hg
      obtain ⟨f, hf, rfl⟩ := Option.map_eq_some_iff.1 hg
      obtain ⟨hbad, hwhere⟩ := of_fault?_eq_some hf hfault
      exact ⟨index, f, hf, fun before hlt e he =>
        not_faulty (hbefore before (Nat.zero_le _) hlt) he, i, hi, hbad, hwhere⟩

/-- Decompiling a unit fails exactly if control can reach a bad instruction in one of its
functions, and then with a bad instruction of the first function that has any. -/
theorem run_fault_iff (u : ScriptUnit) (natives : Native.Database) (annotate : Bool)
    (instructions : List Instruction) :
    (((u.program instructions).run u natives annotate).1.isSome ↔
        ∃ f ∈ (buildFunctions instructions).1, Faulty u instructions f) ∧
      ∀ fault, ((u.program instructions).run u natives annotate).1 = some fault →
        ∃ (index : Nat) (f : Flow.Function), (buildFunctions instructions).1[index]? = some f ∧
          (∀ before, before < index → ∀ e : Flow.Function,
            (buildFunctions instructions).1[before]? = some e → ¬ Faulty u instructions e) ∧
          ∃ i, f.graph.Executes i ∧ Bad u instructions i fault.kind ∧
            fault.function = f.frame.name ∧ fault.address = i.address ∧
            fault.instruction = i.text := by
  have hrun := fault_run u natives annotate instructions
  generalize ((u.program instructions).run u natives annotate).1 = found at hrun
  cases found with
  | none =>
      refine ⟨⟨fun hsome => by simp at hsome, ?_⟩, fun fault hfault => by cases hfault⟩
      rintro ⟨f, hf, hfaulty⟩
      exact absurd hfaulty (hrun f hf)
  | some fault =>
      refine ⟨⟨fun _ => ?_, fun _ => rfl⟩, ?_⟩
      · obtain ⟨index, f, hf, -, i, hi, hbad, -⟩ := hrun
        exact ⟨f, List.mem_of_getElem? hf, i, fault.kind, hi, hbad⟩
      · rintro _ ⟨⟩
        exact hrun

end ScriptDecompiler.Machine
