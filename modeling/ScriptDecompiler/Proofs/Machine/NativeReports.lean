import Mathlib.Data.List.Flatten
import Mathlib.Data.List.Nodup
import ScriptDecompiler.Proofs.Machine.Results
import ScriptDecompiler.Proofs.Machine.Statements

/-!
# Reports about natives

A native call reports that its hash has no signature, or that the slots of the signature are not
those of the call site, or nothing.  No other instruction reports anything about natives, and
neither does handing on stacks.

The invariant: the reports about natives are those of the native calls that were replayed so far,
in this order.  When a unit was decompiled without a fault, the instructions that were replayed are
those of the visited blocks.
-/

namespace ScriptDecompiler

namespace Store

variable {s s' : Store}

/-- The reports about signatures of natives. -/
def nativeReports (s : Store) : List Diagnostic :=
  s.diagnostics.toList.filter (·.kind.isNative)

theorem nativeReports_congr (h : s'.diagnostics = s.diagnostics) :
    s'.nativeReports = s.nativeReports := by
  rw [nativeReports, h, nativeReports]

theorem nativeReports_push {d : Diagnostic} (h : s'.diagnostics = s.diagnostics.push d) :
    s'.nativeReports = s.nativeReports ++ if d.kind.isNative then [d] else [] := by
  rw [nativeReports, h, Array.toList_push, List.filter_append, nativeReports]
  cases hkind : d.kind.isNative <;> simp [hkind]

end Store

/-- Is this no report about a native? -/
def Update.isSilent : Update → Bool
  | report _ kind => !kind.isNative
  | _ => true

theorem Update.isSilent_of_isPlain {u : Update} (h : u.isPlain = true) : u.isSilent = true := by
  cases u with
  | observeResult | renameTemp => cases h
  | touch | observe | observeParameter | addTemp => rfl
  | report => exact (Bool.and_eq_true_iff.1 h).2

theorem Update.nativeReports_apply {u : Update} (h : u.isSilent = true) (current : Nat)
    (s : Store) : (u.apply current s).nativeReports = s.nativeReports := by
  rcases u.exists_diagnostics_apply current s with hsame | ⟨d, hpush, hkind⟩
  · exact Store.nativeReports_congr hsame
  · have hnot : d.kind.isNative = false := by
      rcases hkind with hconflict | ⟨address, rfl⟩
      · unfold DiagnosticKind.isConflict at hconflict
        split at hconflict
        · rename_i hd
          rw [hd]
          rfl
        · cases hconflict
      · simpa [isSilent] using h
    rw [Store.nativeReports_push hpush, hnot, if_neg Bool.false_ne_true, List.append_nil]

/-- What there is to report about a call site is about the native. -/
theorem Native.Database.isNative_of_reportAt? {db : Database} {hash : UInt64}
    {inSlots outSlots : Nat} {kind : DiagnosticKind}
    (h : db.reportAt? hash inSlots outSlots = some kind) : kind.isNative = true := by
  unfold reportAt? at h
  split at h
  · split at h
    · cases h
    · cases h
      rfl
  · cases h
    rfl

/-- The function that a statement calls, with or without a temporary for the result. -/
def Stmt.callee? : Stmt → Option String
  | expr (.call name ..) | declare _ (.call name ..) => some name
  | _ => none

/-- The instructions of the visited blocks. -/
def Flow.Graph.replayed (g : Flow.Graph) : List Bytecode.Instruction :=
  (g.blocks.filter (·.visited)).flatMap (·.instructions)

namespace Machine

open ScriptDecompiler.Bytecode (Instruction opcodeInfo)
open ScriptDecompiler.Flow (Block Graph buildFunctions fresh_of_mem_buildFunctions)

-- The opcode table is too large to be unfolded whenever terms are compared.
attribute [local irreducible] opcodeInfo

namespace Replay

variable {adds : Stmt → Prop} {pushes : Prop} (c : Context) (address : Nat)

/-- A part that reports nothing about natives. -/
theorem Makes.nativeReports_eq {α : Type} {x : Replay α}
    (h : Makes (Store.Performs c.current (·.isSilent = true)) adds pushes x) (s : State) :
    (x s).2.store.nativeReports = s.store.nativeReports := by
  have hquiet : Makes (fun s s' => s'.nativeReports = s.nativeReports) adds pushes x := by
    refine h.mono (fun s s' hperforms => ?_) (fun _ hadds => hadds) id
    obtain ⟨u, hu, -, rfl⟩ := hperforms
    exact Update.nativeReports_apply hu c.current s
  exact hquiet.keeps_store (fun _ => rfl) (fun _ _ _ h h' => h'.trans h) s

theorem Makes.silent {α : Type} {x : Replay α} (h : Makes (Plain c) adds pushes x) :
    Makes (Store.Performs c.current (·.isSilent = true)) adds pushes x :=
  h.mono (fun _ _ hplain => hplain.mono fun _ => Update.isSilent_of_isPlain)
    (fun _ hadds => hadds) id

/-- What is left to do for a native call when it is known which signature is used. -/
def passNative (signature : Native.Signature) (rename : Bool) : Replay Unit := do
  let arguments ← popArguments c address signature.parameters
  let taken := signature.parameters.filter (0 < ·.ty.footprint)
  matchParameters c address rename (arguments.zip taken)
  emitCall c signature.name arguments signature.result

/-- Passing arguments to a native reports nothing about it. -/
theorem nativeReports_passNative (signature : Native.Signature) (rename : Bool) (s : State) :
    (passNative c address signature rename s).2.store.nativeReports = s.store.nativeReports := by
  have hmakes : Makes (Store.Performs c.current (·.isSilent = true)) (·.isPlain = true) True
      (passNative c address signature rename) := by
    refine .bind (makes_popArguments c address _).silent fun arguments => ?_
    refine .bind (makes_matchParameters c address (fun _ => Update.isSilent_of_isPlain)
      fun _ _ _ _ => rfl) fun _ => ?_
    exact (makes_emitCall c _ _ _).silent
  exact hmakes.nativeReports_eq c s

/-- A call is one statement, whether it has a result or not. -/
theorem exists_emitted_emitCall (name : String) (arguments : List Expr) (result : Ty) (s : State) :
    ∃ statement, (emitCall c name arguments result s).2.emitted = s.emitted.push statement ∧
      statement.callee? = some name := by
  by_cases hzero : result.footprint = 0
  · rw [emitCall_of_eq_zero c name arguments hzero]
    exact ⟨_, rfl, rfl⟩
  · rw [emitCall_apply c name arguments hzero]
    exact ⟨_, rfl, rfl⟩

/-- A native call adds one statement, which calls the native by the name of the signature. -/
theorem exists_emitted_passNative (signature : Native.Signature) (rename : Bool) (s : State) :
    ∃ statement, (passNative c address signature rename s).2.emitted = s.emitted.push statement ∧
      statement.callee? = some signature.name := by
  have hpops : Makes (Plain c) (fun _ => False) True
      (popArguments c address signature.parameters) := makes_popArguments c address _
  have hmatches : ∀ pairs, Makes (Store.Performs c.current fun _ => True) (fun _ => False) True
      (matchParameters c address rename pairs) := fun _ =>
    makes_matchParameters c address (fun _ _ => trivial) fun _ _ _ _ => trivial
  have hpop := hpops.emitted_eq s
  unfold passNative
  rw [bind_apply, bind_apply]
  generalize popArguments c address signature.parameters s = popped at hpop ⊢
  have hmatch := (hmatches
    (popped.1.zip (signature.parameters.filter (0 < ·.ty.footprint)))).emitted_eq popped.2
  generalize matchParameters c address rename _ popped.2 = matched at hmatch ⊢
  obtain ⟨statement, hemitted, hcallee⟩ :=
    exists_emitted_emitCall c signature.name popped.1 signature.result matched.2
  exact ⟨statement, hemitted.trans (by rw [hmatch, hpop]), hcallee⟩

variable {raw : UInt64} {index : Nat} (inSlots outSlots : Nat) (s : State)

/-- A native call, once it was reported what there is to report about it. -/
theorem callNative_apply (hnative : c.unit.natives[index]? = some raw) :
    let hash := Native.unmangle raw c.unit.codeLength index
    let used := c.natives.usedAt hash inSlots outSlots
    callNative c address inSlots outSlots index s =
      passNative c address used.1 used.2 (signatureFor c address hash inSlots outSlots s).2 := by
  intro hash used
  unfold callNative
  rw [hnative]
  dsimp only
  rw [bind_apply, signatureFor_apply]
  rfl

end Replay

/-- The name of the current function. -/
def functionName? (c : Context) (s : Store) : Option String :=
  s.frames[c.current]?.map (·.name)

/-- What there is to report about the native that an instruction of this function calls. -/
def nativeReport? (c : Context) (function : Option String) (i : Instruction) : Option Diagnostic :=
  match i.operation, i.operand with
  | .callNative, .native inSlots outSlots index =>
    (c.unit.natives[index]?.bind fun raw =>
      c.natives.reportAt? (Native.unmangle raw c.unit.codeLength index) inSlots outSlots).map
        (⟨function, some i.address, ·⟩)
  | _, _ => none

/-- A report bears the address of the call. -/
theorem address_of_nativeReport? {c : Context} {function : Option String} {i : Instruction}
    {d : Diagnostic} (h : nativeReport? c function i = some d) : d.address = some i.address := by
  unfold nativeReport? at h
  split at h
  · obtain ⟨kind, -, rfl⟩ := Option.map_eq_some_iff.1 h
    rfl
  · cases h

section Instructions

variable (c : Context) (i : Instruction) (s : State)

theorem nativeReports_signatureFor (address : Nat) (hash : UInt64) (inSlots outSlots : Nat) :
    (Replay.signatureFor c address hash inSlots outSlots s).2.store.nativeReports =
      s.store.nativeReports ++ ((c.natives.reportAt? hash inSlots outSlots).map
        (⟨functionName? c s.store, some address, ·⟩)).toList := by
  rw [Replay.signatureFor_apply]
  cases hreport : c.natives.reportAt? hash inSlots outSlots with
  | none => simp
  | some kind =>
      have hnative : kind.isNative = true := Native.Database.isNative_of_reportAt? hreport
      have hpush : (s.store.diagnose c.current address kind).nativeReports = _ :=
        Store.nativeReports_push rfl
      rw [if_pos hnative] at hpush
      exact hpush

theorem nativeReports_step : (Replay.step c i s).2.store.nativeReports =
    s.store.nativeReports ++ (nativeReport? c (functionName? c s.store) i).toList := by
  by_cases hnative : i.operation = .callNative
  · unfold Replay.step nativeReport?
    simp only [hnative]
    cases i.operand with
    | native inSlots outSlots index =>
        dsimp only
        cases hraw : c.unit.natives[index]? with
        | none =>
            rw [Replay.callNative, hraw]
            exact (List.append_nil _).symm
        | some raw =>
            rw [Replay.callNative_apply c i.address inSlots outSlots s hraw,
              Replay.nativeReports_passNative, nativeReports_signatureFor]
            rfl
    | _ => exact (List.append_nil _).symm
  · have hmakes : Replay.Makes (Store.Performs c.current (·.isSilent = true)) (Adds i)
        (stores i.operation = false) (Replay.step c i) := by
      refine (Replay.makes_step c i).mono (fun _ _ h => h.mono fun u hu => ?_) (fun _ h => h) id
      cases u with
      | report address kind =>
          have hnot : kind.isNative ≠ true := fun hkind => hnative (hu.2 hkind)
          simpa [Update.isSilent] using hnot
      | touch | observe | observeResult | observeParameter | addTemp | renameTemp => rfl
    have hnone : nativeReport? c (functionName? c s.store) i = none := by
      unfold nativeReport?
      split
      · exact absurd ‹_› hnative
      · rfl
    rw [hmakes.nativeReports_eq, hnone]
    simp

/-- One instruction. -/
theorem nativeReports_replayInstruction : (replayInstruction c i s).2.store.nativeReports =
    s.store.nativeReports ++ (nativeReport? c (functionName? c s.store) i).toList := by
  rw [replayInstruction_apply]
  exact nativeReports_step c i _

end Instructions

section Walks

variable {c : Context} {function : Option String}

/-- Functions keep their names. -/
theorem functionName?_congr {s s' : Store} (h : s'.heads = s.heads) :
    functionName? c s' = functionName? c s :=
  name?_congr h c.current

/-- The rest of a block. -/
theorem nativeReports_replay {s s' : State} {body : List Instruction}
    (hfunction : functionName? c s.store = function) (h : replay c s body = (none, s')) :
    s'.store.nativeReports =
      s.store.nativeReports ++ body.filterMap (nativeReport? c function) := by
  induction body generalizing s with
  | nil =>
      cases h
      simp
  | cons i body ih =>
      obtain ⟨-, h⟩ := replay_cons_eq_none_iff.1 h
      have hname := functionName?_congr (c := c) (continues_replayInstruction c i s).heads
      rw [ih (hname.trans hfunction) h, nativeReports_replayInstruction, hfunction,
        List.append_assoc]
      cases hreport : nativeReport? c function i <;> simp [hreport]

theorem nativeReports_handOffAll (stack : List Expr) (targets : List Nat) (g : Graph)
    (store : Store) :
    (handOffAll c stack targets g store).2.nativeReports = store.nativeReports := by
  refine handOffAll_keeps c (P := fun _ after => after.nativeReports = store.nativeReports)
    (fun target _ g after h => ?_) rfl
  rw [← h]
  rcases handOff_store c stack target g after with hs | ⟨_, hs⟩ <;> rw [hs]
  rw [Store.nativeReports_push rfl]
  simp [DiagnosticKind.isNative]

/-- A walk that meets no fault. -/
theorem Walk.nativeReports {g : Graph} {store : Store} {worklist : List Nat} {visits : List Visit}
    {out : Option Fault × Graph × Store} (h : Walk c g store worklist visits out)
    (hfunction : functionName? c store = function) (hout : out.1 = none) :
    out.2.2.nativeReports = store.nativeReports ++
      (visits.flatMap (·.block.instructions)).filterMap (nativeReport? c function) := by
  induction h with
  | done => simp
  | skip _ _ ih => exact ih hfunction hout
  | stop => cases hout
  | @visit g store start rest b s visits out hblock hnew hreplay _ ih =>
      have hname := functionName?_congr (c := c) (keeps_leave c hreplay g).heads
      have hleave : (leave c b s g).2.nativeReports = s.store.nativeReports :=
        nativeReports_handOffAll s.stack b.successors _ s.store
      rw [ih (hname.trans hfunction) hout, hleave, nativeReports_replay hfunction hreplay]
      simp [opening]

end Walks

/-- What a walk replays are the instructions of the blocks that it leaves visited. -/
theorem Walk.perm_replayed {c : Context} {fresh : Graph} {store : Store} {visits : List Visit}
    {out : Option Fault × Graph × Store} (hfresh : fresh.Fresh)
    (hascending : fresh.blocks.Pairwise (fun a b => a.start < b.start))
    (h : Walk c (openEntry fresh) store [fresh.entry] visits out) (hout : out.1 = none) :
    (visits.flatMap (·.block.instructions)).Perm out.2.1.replayed := by
  have hstart := exploring_openEntry hfresh
  have hexplored := h.exploring hstart hfresh hout
  rw [List.nil_append] at hexplored
  have hreaches := h.reaches hstart hfresh
  generalize out.2.1 = g at hexplored
  have hkeys : g.blocks.Pairwise (fun a b => a.start < b.start) := by
    rw [← hexplored.bare, Graph.bare, List.pairwise_map] at hascending
    exact hascending
  -- Visits and marked blocks are compared by their starts, and the code is looked up behind that.
  let body (start : Nat) : List Instruction := ((fresh.block? start).map (·.instructions)).getD []
  have hvisits : visits.flatMap (·.block.instructions) = (visits.map Visit.start).flatMap body := by
    rw [List.flatMap_map]
    refine List.flatMap_congr fun v hv => ?_
    simp only [body, (hreaches v hv).2]
    rfl
  have hblocks : g.replayed = ((g.blocks.filter (·.visited)).map (·.start)).flatMap body := by
    rw [Graph.replayed, List.flatMap_map]
    refine List.flatMap_congr fun b hb => ?_
    have hfound : g.block? b.start = some b := Flow.find?_start hkeys (List.mem_filter.1 hb).1
    simp only [body, hexplored.block?, hfound]
    rfl
  rw [hvisits, hblocks]
  refine List.Perm.flatMap_right _ ((List.perm_ext_iff_of_nodup hexplored.distinct ?_).2 ?_)
  · exact List.pairwise_map.2 ((hkeys.sublist List.filter_sublist).imp Nat.ne_of_lt)
  · intro start
    constructor
    · intro hmem
      have hvisited := (hexplored.isVisited_iff
        (hfresh.block (hexplored.visited_reaches start hmem))).2 hmem
      simp only [Graph.isVisited, List.any_eq_true, Bool.and_eq_true, decide_eq_true_eq] at hvisited
      obtain ⟨b, hb, rfl, hvisited⟩ := hvisited
      exact List.mem_map_of_mem (List.mem_filter.2 ⟨hb, hvisited⟩)
    · intro hmem
      obtain ⟨b, hb, rfl⟩ := List.mem_map.1 hmem
      exact (hexplored.marked b (List.mem_filter.1 hb).1).1 (List.mem_filter.1 hb).2

/-- The instructions of the visited blocks of function `k`. -/
def Program.replayed (p : Program) (k : Nat) : List Instruction :=
  (p.graphs[k]?.map Graph.replayed).getD []

section Programs

variable {u : ScriptUnit} {natives : Native.Database} {annotate : Bool} {p p' : Program}

/-- What replaying these instructions reports about natives. -/
def reportsOf (c : Context) (s : Store) (replayed : List Instruction) : List Diagnostic :=
  replayed.filterMap (nativeReport? c (functionName? c s))

theorem reportsOf_congr (c : Context) {s s' : Store} (h : s'.heads = s.heads) :
    reportsOf c s' = reportsOf c s := by
  funext replayed
  rw [reportsOf, functionName?_congr h, reportsOf]

theorem nativeReports_decompileFunction {k : Nat}
    (hfresh : ∀ g, p.graphs[k]? = some g →
      g.Fresh ∧ g.blocks.Pairwise (fun a b => a.start < b.start))
    (hrun : p.decompileFunction ⟨u, natives, annotate, k⟩ = (none, p')) :
    p'.store.nativeReports.Perm
      (p.store.nativeReports ++ reportsOf ⟨u, natives, annotate, k⟩ p.store (p'.replayed k)) := by
  cases hgraph : p.graphs[k]? with
  | none =>
      unfold Program.decompileFunction at hrun
      simp only [hgraph] at hrun
      cases hrun
      simp [Program.replayed, hgraph, reportsOf]
  | some g =>
      obtain ⟨visits, ⟨fault, left, store⟩, hwalk, hout⟩ :=
        decompileFunction_eq (c := ⟨u, natives, annotate, k⟩) hgraph
      rw [hrun] at hout
      obtain ⟨hnone : none = fault, rfl⟩ := Prod.mk.inj hout
      subst hnone
      obtain ⟨hlt, -⟩ := Array.getElem?_eq_some_iff.1 hgraph
      have hleft : Program.replayed ⟨store, p.graphs.setIfInBounds k left⟩ k = left.replayed := by
        simp [Program.replayed, hlt]
      obtain ⟨hg, hascending⟩ := hfresh g hgraph
      rw [hleft, show store.nativeReports = _ from hwalk.nativeReports rfl rfl]
      exact ((hwalk.perm_replayed hg hascending rfl).filterMap _).append_left _

/-- Decompiling several functions without a fault. -/
theorem nativeReports_decompileFunctions {order : List Nat} (hdistinct : order.Nodup)
    (hfresh : ∀ k ∈ order, ∀ g, p.graphs[k]? = some g →
      g.Fresh ∧ g.blocks.Pairwise (fun a b => a.start < b.start))
    (hrun : p.decompileFunctions u natives annotate order = (none, p')) :
    p'.store.nativeReports.Perm (p.store.nativeReports ++
      order.flatMap fun k => reportsOf ⟨u, natives, annotate, k⟩ p.store (p'.replayed k)) := by
  induction order generalizing p with
  | nil =>
      cases hrun
      simp
  | cons first rest ih =>
      obtain ⟨hnot, hrest⟩ := List.nodup_cons.1 hdistinct
      have hkept := keeps_decompileFunction p ⟨u, natives, annotate, first⟩
      have hothers : ∀ k, k ≠ first →
          (p.decompileFunction ⟨u, natives, annotate, first⟩).2.graphs[k]? = p.graphs[k]? :=
        fun k hk => graphs_decompileFunction p ⟨u, natives, annotate, first⟩ hk
      rw [Program.decompileFunctions] at hrun
      cases hfirst : p.decompileFunction ⟨u, natives, annotate, first⟩ with
      | mk fault middle =>
          rw [hfirst] at hrun hkept hothers
          cases fault with
          | some fault => cases hrun
          | none =>
              have hmiddle :=
                nativeReports_decompileFunction (hfresh first List.mem_cons_self) hfirst
              have hne : ∀ k ∈ rest, k ≠ first := fun k hk heq => hnot (heq ▸ hk)
              have hlater := ih hrest (fun k hk g hg =>
                hfresh k (List.mem_cons_of_mem _ hk) g ((hothers k (hne k hk)).symm.trans hg)) hrun
              -- What was replayed of the first function stays, and functions keep their names.
              have hreplayed : p'.replayed first = middle.replayed first := by
                have hgraphs := graphs_decompileFunctions u natives annotate middle hnot
                dsimp only at hrun
                rw [hrun] at hgraphs
                rw [Program.replayed, hgraphs, Program.replayed]
              have hheads : middle.store.heads = p.store.heads := hkept.heads
              simp only [reportsOf_congr _ hheads] at hlater
              rw [List.flatMap_cons, ← List.append_assoc, hreplayed]
              exact hlater.trans (hmiddle.append_right _)

end Programs

/-- What is made of one element, if what is made of each bears the key of the element and no two
elements have the same key. -/
theorem filter_filterMap_eq {α β κ : Type} [DecidableEq κ] {f : α → Option β} {key : α → κ}
    {keyOf : β → κ} (hkey : ∀ x y, f x = some y → keyOf y = key x) {l : List α}
    (hdistinct : (l.map key).Nodup) {x : α} (hx : x ∈ l) :
    (l.filterMap f).filter (keyOf · = key x) = (f x).toList := by
  induction l with
  | nil => cases hx
  | cons first rest ih =>
      obtain ⟨hfirst, hrest⟩ := List.nodup_cons.1 hdistinct
      have hsplit : (first :: rest).filterMap f = (f first).toList ++ rest.filterMap f := by
        cases hmade : f first <;> simp [hmade]
      rw [hsplit, List.filter_append]
      rcases List.mem_cons.1 hx with rfl | hx
      · have hnone : (rest.filterMap f).filter (keyOf · = key x) = [] := by
          refine List.filter_eq_nil_iff.2 fun y hy hsame => hfirst ?_
          obtain ⟨other, hother, hmade⟩ := List.mem_filterMap.1 hy
          rw [← of_decide_eq_true hsame, hkey other y hmade]
          exact List.mem_map_of_mem hother
        rw [hnone, List.append_nil]
        refine List.filter_eq_self.2 fun y hy => decide_eq_true ?_
        exact hkey x y (Option.mem_toList.1 hy)
      · have hnone : (f first).toList.filter (keyOf · = key x) = [] := by
          refine List.filter_eq_nil_iff.2 fun y hy hsame => hfirst ?_
          rw [← hkey first y (Option.mem_toList.1 hy), of_decide_eq_true hsame]
          exact List.mem_map_of_mem hx
        rw [hnone, List.nil_append, ih hrest hx]

section Units

variable {u : ScriptUnit} {natives : Native.Database} {annotate : Bool}
  {instructions : List Instruction} {p : Program}

theorem nativeReports_program (u : ScriptUnit) (instructions : List Instruction) :
    (u.program instructions).store.nativeReports = [] := by
  refine List.filter_eq_nil_iff.2 fun d hd => ?_
  have hmem : d ∈ (buildFunctions instructions).2 := by
    simpa [ScriptUnit.program, Program.ofFunctions] using hd
  obtain ⟨i, -, rfl⟩ := List.mem_map.1 hmem
  exact Bool.false_ne_true

/-- Decompiling leaves the graphs as they were built, apart from what it leaves behind. -/
theorem bare_run (hrun : (u.program instructions).run u natives annotate = (none, p)) (k : Nat) :
    p.graphs[k]?.map Graph.bare = (buildFunctions instructions).1[k]?.map (·.graph) := by
  have hkept : p.graphs[k]?.map Graph.bare =
      (u.program instructions).graphs[k]?.map Graph.bare := by
    refine of_decompileFunctions (P := fun q => q.graphs[k]?.map Graph.bare = _)
      (fun q c q' hq hone => ?_) rfl hrun
    have hbare := bare_decompileFunction q c k
    rw [hone] at hbare
    exact hbare.trans hq
  rw [hkept, graphs_program, Option.map_map]
  refine Option.map_congr fun f hf => ?_
  exact (fresh_of_mem_buildFunctions (List.mem_of_getElem? hf)).bare

theorem flatMap_range_getD {α : Type} (ls : List (List α)) :
    (List.range ls.length).flatMap (fun k => ls[k]?.getD []) = ls.flatten := by
  rw [List.flatMap_def]
  congr 1
  refine List.ext_getElem (by simp) fun k hk _ => ?_
  rw [List.length_map, List.length_range] at hk
  simp [hk]

/-- What is replayed of all functions are parts of the code, in order. -/
theorem replayed_sublist (hcode : u.instructions = .ok instructions)
    (hrun : (u.program instructions).run u natives annotate = (none, p)) :
    ((List.range (u.program instructions).graphs.size).flatMap p.replayed).Sublist
      instructions := by
  obtain ⟨before, bodies, hflatten, -, hbodies, -⟩ := Flow.buildFunctions_partition hcode
  have hsize : (u.program instructions).graphs.size = bodies.length := by
    rw [← hbodies.length_eq]
    show ((buildFunctions instructions).1.map (·.graph)).toArray.size = _
    simp
  have hpart : ∀ k, (p.replayed k).Sublist (bodies[k]?.getD []) := by
    intro k
    unfold Program.replayed
    have hbare := bare_run hrun k
    cases hg : p.graphs[k]? with
    | none => exact List.nil_sublist _
    | some g =>
        rw [hg, Option.map_some] at hbare
        obtain ⟨f, hf, hsame⟩ := Option.map_eq_some_iff.1 hbare.symm
        obtain ⟨hlt, rfl⟩ := List.getElem?_eq_some_iff.1 hf
        have hlt' : k < bodies.length := hbodies.length_eq ▸ hlt
        -- All blocks together hold the code of the function, and some of them were visited.
        have hbody : g.blocks.flatMap (·.instructions) = bodies.get ⟨k, hlt'⟩ := by
          rw [← (hbodies.get hlt hlt').partitions.concat, List.get_eq_getElem, hsame, Graph.bare,
            List.flatMap_map]
          rfl
        rw [List.getElem?_eq_getElem hlt', Option.map_some, Option.getD_some, Option.getD_some,
          ← List.get_eq_getElem (i := ⟨k, hlt'⟩), ← hbody]
        exact List.filter_sublist.flatMap _
  rw [hsize, hflatten, ← flatMap_range_getD bodies]
  refine .trans (List.Sublist.flatMap_right _ fun k _ => hpart k) (List.sublist_append_right _ _)

/-- Only functions of the unit are replayed. -/
theorem lt_of_mem_replayed (hrun : (u.program instructions).run u natives annotate = (none, p))
    {k : Nat} {i : Instruction} (hi : i ∈ p.replayed k) :
    k < (u.program instructions).graphs.size := by
  have hbuilt := bare_run hrun k
  by_contra hnot
  have hnone : (u.program instructions).graphs[k]? = none :=
    Array.getElem?_eq_none (Nat.le_of_not_lt hnot)
  rw [graphs_program, Option.map_eq_none_iff] at hnone
  rw [hnone, Option.map_none, Option.map_eq_none_iff] at hbuilt
  rw [Program.replayed, hbuilt] at hi
  cases hi

theorem mem_of_mem_replayed (hcode : u.instructions = .ok instructions)
    (hrun : (u.program instructions).run u natives annotate = (none, p)) {k : Nat}
    {i : Instruction} (hi : i ∈ p.replayed k) : i ∈ instructions :=
  (replayed_sublist hcode hrun).subset
    (List.mem_flatMap.2 ⟨k, List.mem_range.2 (lt_of_mem_replayed hrun hi), hi⟩)

/-- Functions keep their names, addresses and numbers of arguments. -/
theorem heads_run (hrun : (u.program instructions).run u natives annotate = (none, p)) :
    p.store.heads = (u.program instructions).store.heads := by
  refine of_decompileFunctions (P := fun q => q.store.heads = _) (fun q c q' hq hone => ?_) rfl hrun
  have hheads := (keeps_decompileFunction q c).heads
  rw [hone] at hheads
  exact hheads.trans hq

/-- The instructions that were replayed, each with the index of its function. -/
def Program.replayedOf (p : Program) (count : Nat) : List (Nat × Instruction) :=
  (List.range count).flatMap fun k => (p.replayed k).map (k, ·)

theorem perm_nativeReports_run (hcode : u.instructions = .ok instructions)
    (hrun : (u.program instructions).run u natives annotate = (none, p)) :
    p.store.nativeReports.Perm ((p.replayedOf (u.program instructions).graphs.size).filterMap
      fun pair => nativeReport? ⟨u, natives, annotate, pair.1⟩
        (functionName? ⟨u, natives, annotate, pair.1⟩ p.store) pair.2) := by
  have hperm := nativeReports_decompileFunctions List.nodup_range (fun k _ g hg => ?_) hrun
  · simp only [nativeReports_program, List.nil_append,
      ← reportsOf_congr _ (heads_run hrun)] at hperm
    simp only [Program.replayedOf, List.filterMap_flatMap, List.filterMap_map]
    exact hperm
  · rw [graphs_program] at hg
    obtain ⟨f, hf, rfl⟩ := Option.map_eq_some_iff.1 hg
    have hmem := List.mem_of_getElem? hf
    obtain ⟨body, -, hbuilt⟩ := Flow.built_of_mem_buildFunctions hcode hmem
    exact ⟨fresh_of_mem_buildFunctions hmem, hbuilt.ascending⟩

/-- What is reported about natives at the address of an instruction that was replayed: what there
is to report about the native that it calls, once, and nothing else. -/
theorem nativeReports_at_of_run (hcode : u.instructions = .ok instructions)
    (hrun : (u.program instructions).run u natives annotate = (none, p)) {k : Nat}
    {i : Instruction} (hi : i ∈ p.replayed k) :
    p.store.nativeReports.filter (·.address = some i.address) =
      (nativeReport? ⟨u, natives, annotate, k⟩
        (functionName? ⟨u, natives, annotate, k⟩ p.store) i).toList := by
  have haddresses := List.Nodup.map (fun _ _ => Option.some.inj)
    (Flow.ascending_of_decodeCode hcode).nodup_addresses
  rw [List.map_map] at haddresses
  have hdistinct : ((p.replayedOf (u.program instructions).graphs.size).map
      fun pair => some pair.2.address).Nodup := by
    refine haddresses.sublist ?_
    have hparts := (replayed_sublist hcode hrun).map fun i => some i.address
    simp only [Program.replayedOf, List.map_flatMap, List.map_map] at hparts ⊢
    exact hparts
  have hpair : (k, i) ∈ p.replayedOf (u.program instructions).graphs.size :=
    List.mem_flatMap.2
      ⟨k, List.mem_range.2 (lt_of_mem_replayed hrun hi), List.mem_map_of_mem hi⟩
  have hperm := (perm_nativeReports_run hcode hrun).filter (·.address = some i.address)
  rw [filter_filterMap_eq (fun _ _ => address_of_nativeReport?) hdistinct hpair] at hperm
  dsimp only at hperm
  cases hreport : nativeReport? ⟨u, natives, annotate, k⟩
      (functionName? ⟨u, natives, annotate, k⟩ p.store) i with
  | none =>
      rw [hreport] at hperm
      exact hperm.eq_nil
  | some d =>
      rw [hreport] at hperm
      exact List.perm_singleton.1 hperm

end Units

end Machine

end ScriptDecompiler
