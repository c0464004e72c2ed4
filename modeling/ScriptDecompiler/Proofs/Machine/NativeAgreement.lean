import ScriptDecompiler.Proofs.Bytecode.Tiling
import ScriptDecompiler.Proofs.Listing
import ScriptDecompiler.Proofs.Machine.NativeReports
import ScriptDecompiler.Proofs.Machine.Temporaries

/-!
# Listings and statements agree on natives

A listing and a replay look a native up on their own.  Both take it from the table of the unit by
the index in the operand, so the listing says that there is no such native exactly where a replay
would be at fault.  Otherwise both name it after its signature or, if there is none, after its hash;
the signature that is made up where the slots do not agree keeps this name.

Each native call in a visited block was replayed once, so there is one statement that calls the
native, and one report if there is anything to report.
-/

namespace ScriptDecompiler.Machine

open ScriptDecompiler.Bytecode (Instruction opcodeInfo)
open ScriptDecompiler.Flow (Block Graph buildFunctions)
open ScriptDecompiler.Text (hexLiteral)

-- The opcode table is too large to be unfolded whenever terms are compared.
attribute [local irreducible] opcodeInfo

section Faults

variable {u : ScriptUnit} {natives : Native.Database} {instructions : List Instruction}
  {i : Instruction}

/-- The listing marks the native calls that are at fault, and nothing else. -/
theorem note?_eq_bad_iff_bad (hcode : u.instructions = .ok instructions) (hi : i ∈ instructions) :
    Listing.note? u natives i = some "<bad native index>" ↔
      i.operation = .callNative ∧ ∃ kind, Bad u instructions i kind := by
  rw [Listing.note?_eq_bad_iff]
  constructor
  · rintro ⟨inSlots, outSlots, index, hoperand, hend⟩
    have hcall : i.operation = .callNative :=
      (Bytecode.callNative_iff_of_mem hcode hi).2 ⟨inSlots, outSlots, index, hoperand⟩
    exact ⟨hcall, _, .native hcall hoperand hend⟩
  · rintro ⟨hcall, kind, hbad⟩
    cases hbad with
    | native _ hoperand hend => exact ⟨_, _, _, hoperand, hend⟩
    | call hoperation | ret hoperation =>
        rw [hcall] at hoperation
        cases hoperation

/-- A native call that is not at fault finds its native. -/
theorem exists_native_of_fault? {c : Context} {frames : Array Frame}
    {inSlots outSlots index : Nat} (hcall : i.operation = .callNative)
    (hoperand : i.operand = .native inSlots outSlots index) (h : fault? c frames i = none) :
    ∃ raw, c.unit.natives[index]? = some raw := by
  have hkind : faultKind? c.unit frames i = none := Option.map_eq_none_iff.1 h
  unfold faultKind? at hkind
  simp only [hcall, hoperand] at hkind
  split at hkind
  · exact ⟨_, Array.getElem?_eq_getElem ‹_›⟩
  · cases hkind

end Faults

section Statements

variable {c : Context} {s s' : State} {body : List Instruction}

/-- Replaying adds statements behind those that there are. -/
theorem exists_emitted_replay (h : replay c s body = (none, s')) :
    ∃ later, s'.emitted.toList = s.emitted.toList ++ later := by
  induction body generalizing s with
  | nil =>
      cases h
      exact ⟨[], by simp⟩
  | cons i body ih =>
      obtain ⟨later, hlater⟩ := ih (replay_cons_eq_none_iff.1 h).2
      rw [emitted_replayInstruction, List.append_assoc] at hlater
      exact ⟨_, hlater⟩

/-- What an instruction of a block added stands behind what those in front of it added. -/
theorem Recorded.exists_added {b : Block} (h : Recorded c b) {before after : List Instruction}
    {i : Instruction} (hsplit : b.instructions = before ++ i :: after) :
    ∃ start s later, start.emitted = #[] ∧ replay c start before = (none, s) ∧
      fault? c s.store.frames i = none ∧
      b.statements = s.emitted.toList ++ added c i s ++ later := by
  obtain ⟨start, last, hempty, hreplay, hstatements⟩ := h
  rw [hsplit] at hreplay
  obtain ⟨s, hbefore, hrest⟩ := exists_replay_of_append hreplay
  obtain ⟨hfault, hafter⟩ := replay_cons_eq_none_iff.1 hrest
  obtain ⟨later, hlater⟩ := exists_emitted_replay hafter
  rw [emitted_replayInstruction] at hlater
  exact ⟨start, s, later, hempty, hbefore, hfault, hstatements.trans hlater⟩

variable {i : Instruction} {inSlots outSlots index : Nat} {raw : UInt64}

/-- In whatever state it is replayed, a native call adds one statement, which calls the native by
the name that it goes by. -/
theorem exists_added_callNative (c : Context) (s : State) (hcall : i.operation = .callNative)
    (hoperand : i.operand = .native inSlots outSlots index)
    (hraw : c.unit.natives[index]? = some raw) :
    let hash := Native.unmangle raw c.unit.codeLength index
    ∃ statement, added c i s = (comments c [i]).toList ++ [statement] ∧
      statement.callee? = some (c.natives.nameOf hash) := by
  intro hash
  let start : State := { s with emitted := s.emitted ++ comments c [i] }
  let reported : State := (Replay.signatureFor c i.address hash inSlots outSlots start).2
  let used := c.natives.usedAt hash inSlots outSlots
  have hstep : Replay.step c i start =
      Replay.passNative c i.address used.1 used.2 reported := by
    unfold Replay.step
    simp only [hcall, hoperand]
    exact Replay.callNative_apply c i.address inSlots outSlots start hraw
  -- Reporting adds no statement, and whichever signature is used has the name of the native.
  have hreported : reported.emitted = start.emitted := by
    simp only [reported, Replay.signatureFor_apply]
    split <;> rfl
  obtain ⟨statement, hemitted, hcallee⟩ :=
    Replay.exists_emitted_passNative c i.address used.1 used.2 reported
  rw [← hstep, hreported] at hemitted
  have hnew := congrArg Array.toList hemitted
  rw [Array.toList_push] at hnew
  refine ⟨statement, added_eq c hnew, hcallee.trans (congrArg some ?_)⟩
  exact c.natives.name_usedAt hash inSlots outSlots

end Statements

section Units

variable {u : ScriptUnit} {instructions : List Instruction} {i : Instruction}

/-- Control executes instructions of the code only. -/
theorem mem_of_executes (hcode : u.instructions = .ok instructions) {f : Flow.Function}
    (hf : f ∈ (buildFunctions instructions).1) (hi : f.graph.Executes i) : i ∈ instructions := by
  obtain ⟨start, b, -, hblock, hi⟩ := hi
  obtain ⟨body, hpart, hbuilt⟩ := Flow.built_of_mem_buildFunctions hcode hf
  exact hpart.subset ((hbuilt.isInfix_block (Graph.mem_of_block? hblock).1).subset hi)

/-- Decompiling fails if control can reach a marked native call, and it fails at no other one. -/
theorem fails_at_bad_note (natives : Native.Database) (annotate : Bool)
    (hcode : u.instructions = .ok instructions) (hi : i ∈ instructions)
    (hcall : i.operation = .callNative) :
    (Listing.note? u natives i = some "<bad native index>" →
      (∃ f ∈ (buildFunctions instructions).1, f.graph.Executes i) →
        ((u.program instructions).run u natives annotate).1 ≠ none) ∧
    ∀ fault, ((u.program instructions).run u natives annotate).1 = some fault →
      fault.address = i.address → Listing.note? u natives i = some "<bad native index>" := by
  have hrun := fault_run u natives annotate instructions
  rw [note?_eq_bad_iff_bad hcode hi]
  constructor
  · rintro ⟨-, kind, hbad⟩ ⟨f, hf, hexecutes⟩ hnone
    rw [hnone] at hrun
    exact hrun f hf ⟨i, kind, hexecutes, hbad⟩
  · intro fault hfault haddress
    rw [hfault] at hrun
    obtain ⟨index, f, hf, -, j, hj, hbad, -, hsame, -⟩ := hrun
    -- Addresses tell instructions apart, so the bad instruction is `i`.
    have hjmem := mem_of_executes hcode (List.mem_of_getElem? hf) hj
    have hdistinct := (Flow.ascending_of_decodeCode hcode).nodup_addresses
    obtain rfl : j = i :=
      List.inj_on_of_nodup_map hdistinct hjmem hi (hsame.symm.trans haddress)
    exact ⟨hcall, fault.kind, hbad⟩

variable {natives : Native.Database} {annotate : Bool} {p : Program} {index : Nat}
  {f : Flow.Function} {b : Block}

/-- The instructions of a visited block were replayed. -/
theorem mem_replayed (hf : p.function? index = some f) (hb : b ∈ f.graph.blocks)
    (hvisited : b.visited = true) (hi : i ∈ b.instructions) : i ∈ p.replayed index := by
  rw [Program.replayed, graphs_of_function? hf, Option.map_some, Option.getD_some]
  exact List.mem_flatMap.2 ⟨b, List.mem_filter.2 ⟨hb, hvisited⟩, hi⟩

/-- What is reported about a native call of a visited block. -/
theorem nativeReports_at_call (hcode : u.instructions = .ok instructions)
    (hrun : (u.program instructions).run u natives annotate = (none, p))
    (hf : p.function? index = some f) (hi : i ∈ p.replayed index)
    {inSlots outSlots number : Nat} {raw : UInt64} (hcall : i.operation = .callNative)
    (hoperand : i.operand = .native inSlots outSlots number)
    (hraw : u.natives[number]? = some raw) :
    p.store.nativeReports.filter (·.address = some i.address) =
      ((natives.reportAt? (Native.unmangle raw u.codeLength number) inSlots outSlots).map
        (⟨some f.frame.name, some i.address, ·⟩)).toList := by
  have hname : functionName? ⟨u, natives, annotate, index⟩ p.store = some f.frame.name := by
    rw [functionName?, frames_of_function? hf]
    rfl
  rw [nativeReports_at_of_run hcode hrun hi, hname]
  unfold nativeReport?
  simp only [hcall, hoperand, hraw, Option.bind_some]

end Units

end ScriptDecompiler.Machine
