import ScriptDecompiler.Proofs.Machine.CallFootprint
import ScriptDecompiler.Proofs.Machine.Courses
import ScriptDecompiler.Proofs.Machine.Provenance

/-!
# The footprint of a native call

A call site of a native says how many slots the call takes and how many it pushes.  The
signature that is used always agrees with that: one that does not is replaced.  Each of its
parameters takes as many slots as its type, the last parameter from the top of the stack; put
next to each other, the slots of all parameters are the topmost ones.  The slots that the result
takes are pushed, all of them parts of one new temporary.

Where the stack is not deep enough, the missing values are the lowest ones; they become
placeholders and are reported.
-/

namespace ScriptDecompiler

/-- How many slots parameters take. -/
def Native.slots (parameters : List Native.Parameter) : Nat :=
  parameters.foldr (fun p slots => p.ty.footprint + slots) 0

namespace Native.Signature

variable (name : String) (inSlots outSlots : Nat)

/-- A signature that is made up from a call site agrees with it. -/
theorem inSlots_synthesize : (synthesize name inSlots outSlots).inSlots = inSlots := by
  have hslots : ∀ indices : List Nat, ((indices.map fun i =>
      (⟨"arg" ++ i.repr, .unknown⟩ : Parameter)).foldr
        (fun p slots => p.ty.footprint + slots) 0) = indices.length := by
    intro indices
    induction indices with
    | nil => rfl
    | cons i rest ih =>
        rw [List.map_cons, List.foldr_cons, ih, List.length_cons]
        exact Nat.add_comm 1 _
  exact (hslots _).trans List.length_range

theorem outSlots_synthesize : (synthesize name inSlots outSlots).outSlots = outSlots := by
  unfold Signature.outSlots synthesize
  dsimp only
  split
  · rfl
  · rfl
  · exact Nat.one_mul _

end Native.Signature

namespace Store

/-- The reports of values that were missing. -/
def underflows (s : Store) : List Diagnostic :=
  s.diagnostics.toList.filter (·.kind = .stackUnderflow)

variable (s : Store) (current address : Nat)

theorem underflows_congr {s s' : Store} (h : s'.diagnostics = s.diagnostics) :
    s'.underflows = s.underflows := by
  unfold underflows
  rw [h]

theorem underflows_diagnose {kind : DiagnosticKind} (h : kind ≠ .stackUnderflow) :
    (s.diagnose current address kind).underflows = s.underflows := by
  simp [underflows, diagnose, h]

theorem exists_underflows_diagnose :
    ∃ report, (s.diagnose current address .stackUnderflow).underflows =
      s.underflows ++ [report] :=
  ⟨_, by simp [underflows, diagnose]; rfl⟩

theorem underflows_inferVariable (r : VarRef) (ty : Ty) :
    (s.inferVariable current address r ty).underflows = s.underflows := by
  have htouch : (s.touch current r).underflows = s.underflows :=
    underflows_congr (s.diagnostics_touch current r)
  unfold inferVariable
  dsimp only
  split
  · exact htouch
  · rename_i v _
    have hset : ((s.touch current r).setVariable current (v.infer ty).1 r).underflows =
        s.underflows := (underflows_congr (diagnostics_setVariable ..)).trans htouch
    split
    · exact (underflows_diagnose _ current address (by simp)).trans hset
    · exact hset

end Store

/-- The topmost values of a stack in push order.  Missing ones are at the bottom. -/
def topSlots (count : Nat) (stack : List Expr) : List Expr :=
  List.replicate (count - stack.length) .underflow ++ (stack.take count).reverse

theorem length_topSlots (count : Nat) (stack : List Expr) :
    (topSlots count stack).length = count := by
  unfold topSlots
  rw [List.length_append, List.length_replicate, List.length_reverse, List.length_take]
  omega

/-- What is below the topmost values, and these. -/
theorem topSlots_add (below count : Nat) (stack : List Expr) :
    topSlots below (stack.drop count) ++ topSlots count stack =
      topSlots (below + count) stack := by
  unfold topSlots
  rw [List.length_drop]
  by_cases hdeep : count ≤ stack.length
  · -- Nothing is missing among the topmost values.
    rw [Nat.sub_eq_zero_of_le hdeep, List.replicate_zero, List.nil_append, List.append_assoc,
      ← List.reverse_append, ← List.take_add, Nat.add_comm count below]
    congr 2
    omega
  · -- There is nothing below them.
    have hempty : stack.drop count = [] := List.drop_eq_nil_of_le (by omega)
    rw [hempty, List.take_nil, List.reverse_nil, List.append_nil, ← List.append_assoc,
      ← List.replicate_add, List.take_of_length_le (by omega : stack.length ≤ count),
      List.take_of_length_le (by omega : stack.length ≤ below + count)]
    congr 2
    omega

/-- An argument: one slot as it is, several put together. -/
def pack : List Expr → Expr
  | [e] => e
  | es => .arrayLiteral es

theorem pack_of_length_ne_one {es : List Expr} (h : es.length ≠ 1) :
    pack es = .arrayLiteral es := by
  unfold pack
  split
  · exact absurd rfl h
  · rfl

namespace Machine.Replay

variable (c : Context) (address : Nat)

/-- Popping values: the topmost ones are gone, and if some are missing, that is reported. -/
theorem popMany_apply (count : Nat) (s : State) :
    popMany c address count s = (topSlots count s.stack,
      { s with
        stack := s.stack.drop count
        store := if s.stack.length < count then s.store.diagnose c.current address .stackUnderflow
          else s.store }) := by
  unfold popMany topSlots
  rw [bind_apply, get_apply, bind_apply]
  dsimp only
  have hlength : (s.stack.take count).length < count ↔ s.stack.length < count := by
    rw [List.length_take]
    omega
  by_cases hdeep : s.stack.length < count
  · rw [if_pos (hlength.2 hdeep), if_pos hdeep, List.length_take,
      Nat.min_eq_right (Nat.le_of_lt hdeep)]
    rfl
  · rw [if_neg (fun h => hdeep (hlength.1 h)), if_neg hdeep,
      Nat.sub_eq_zero_of_le (Nat.le_of_not_lt hdeep)]
    rfl

/-- Popping one value is popping values. -/
theorem popMany_one (s : State) :
    popMany c address 1 s = ([(pop c address s).1], (pop c address s).2) := by
  obtain ⟨store, stack, emitted⟩ := s
  cases stack <;> rfl

/-- What becomes of a state in which arguments of `slots` slots are popped. -/
structure Pops (slots : Nat) (s s' : State) : Prop where
  stack : s'.stack = s.stack.drop slots
  emitted : s'.emitted = s.emitted
  grows : s.store.Grows s'.store
  size : s'.store.frames.size = s.store.frames.size
  reports : ∃ reports, s'.store.underflows = s.store.underflows ++ reports ∧
    (reports = [] ↔ slots ≤ s.stack.length)

namespace Pops

variable {slots more : Nat} {s s' s'' : State}

theorem refl (s : State) : Pops 0 s s :=
  ⟨rfl, rfl, (Store.Develops.refl 0 s.store).grows, rfl, [], by simp, by simp⟩

theorem add (h : Pops slots s s') (h' : Pops more s' s'') : Pops (more + slots) s s'' := by
  obtain ⟨reports, hreports, hnone⟩ := h.reports
  obtain ⟨later, hlater, hlaterNone⟩ := h'.reports
  refine ⟨?_, h'.emitted.trans h.emitted, h.grows.trans h'.grows, h'.size.trans h.size,
    reports ++ later, ?_, ?_⟩
  · rw [h'.stack, h.stack, List.drop_drop, Nat.add_comm]
  · rw [hlater, hreports, List.append_assoc]
  · rw [h.stack, List.length_drop] at hlaterNone
    rw [List.append_eq_nil_iff, hnone, hlaterNone]
    omega

end Pops

theorem pops_popMany (count : Nat) (s : State) : Pops count s (popMany c address count s).2 := by
  rw [popMany_apply]
  by_cases hdeep : s.stack.length < count
  · have hdevelops : s.store.Develops c.current
        (s.store.diagnose c.current address .stackUnderflow) :=
      Update.develops_apply (u := .report address .stackUnderflow) rfl
    obtain ⟨report, hreport⟩ := s.store.exists_underflows_diagnose c.current address
    simp only [if_pos hdeep]
    exact ⟨rfl, rfl, hdevelops.grows, rfl, [report], hreport, by simp; omega⟩
  · simp only [if_neg hdeep]
    exact ⟨rfl, rfl, (Store.Develops.refl 0 s.store).grows, rfl, [], by simp,
      by simp; omega⟩

variable {parameter : Native.Parameter} (rest : List Native.Parameter) (s : State)

/-- A parameter without slots has no argument. -/
theorem popArguments_cons_of_eq_zero (h : parameter.ty.footprint = 0) :
    popArguments c address (parameter :: rest) s = popArguments c address rest s := by
  rw [popArguments, bind_apply, h]
  rfl

/-- The argument for a parameter is made of the values below those for the later ones. -/
theorem popArguments_cons (h : parameter.ty.footprint ≠ 0) :
    popArguments c address (parameter :: rest) s =
      (pack (topSlots parameter.ty.footprint (popArguments c address rest s).2.stack) ::
          (popArguments c address rest s).1,
        (popMany c address parameter.ty.footprint (popArguments c address rest s).2).2) := by
  rw [popArguments, bind_apply]
  generalize popArguments c address rest s = later
  obtain ⟨arguments, s⟩ := later
  dsimp only
  have hvalues : (popMany c address parameter.ty.footprint s).1 =
      topSlots parameter.ty.footprint s.stack := by rw [popMany_apply]
  have hlength := length_topSlots parameter.ty.footprint s.stack
  generalize parameter.ty.footprint = size at h hvalues hlength ⊢
  match size with
  | 0 => exact absurd rfl h
  | 1 =>
      rw [popMany_one] at hvalues ⊢
      rw [← hvalues]
      rfl
  | size + 2 =>
      rw [pack_of_length_ne_one (by omega), ← hvalues]
      rfl

/-- Popping the arguments takes the slots of all parameters, which are the topmost ones. -/
theorem popArguments_eq (parameters : List Native.Parameter) :
    ∃ pieces : List (List Expr),
      (popArguments c address parameters s).1 = pieces.map pack ∧
      pieces.map List.length = (parameters.map (·.ty.footprint)).filter (0 < ·) ∧
      pieces.flatten = topSlots (Native.slots parameters) s.stack ∧
      Pops (Native.slots parameters) s (popArguments c address parameters s).2 := by
  induction parameters with
  | nil => exact ⟨[], rfl, rfl, by simp [Native.slots, topSlots], .refl s⟩
  | cons parameter rest ih =>
      obtain ⟨pieces, harguments, hlengths, hflatten, hpops⟩ := ih
      have hslots : Native.slots (parameter :: rest) =
          parameter.ty.footprint + Native.slots rest := rfl
      rw [hslots, List.map_cons, List.filter_cons]
      by_cases hzero : parameter.ty.footprint = 0
      · rw [popArguments_cons_of_eq_zero c address rest s hzero, hzero, Nat.zero_add]
        exact ⟨pieces, harguments, hlengths, hflatten, hpops⟩
      · rw [popArguments_cons c address rest s hzero,
          if_pos (decide_eq_true (Nat.pos_of_ne_zero hzero))]
        generalize popArguments c address rest s = later at harguments hpops
        refine ⟨topSlots parameter.ty.footprint later.2.stack :: pieces, ?_, ?_, ?_, ?_⟩
        · rw [List.map_cons, harguments]
        · rw [List.map_cons, length_topSlots, hlengths]
        · rw [List.flatten_cons, hflatten, hpops.stack, topSlots_add]
        · exact hpops.add (pops_popMany c address parameter.ty.footprint later.2)

/-- A part of a replay that changes nothing but the store, and reports no missing value, takes
no slots. -/
theorem pops_store {s : State} {store : Store} {current : Nat}
    (hdevelops : s.store.Develops current store)
    (hsize : store.frames.size = s.store.frames.size)
    (hreports : store.underflows = s.store.underflows) : Pops 0 s { s with store := store } :=
  ⟨rfl, rfl, hdevelops.grows, hsize, [], by simpa using hreports, by simp⟩

/-- An update that reports no missing value. -/
theorem pops_update {s : State} {u : Update} (hvalid : u.Valid s.store)
    (hreports : (u.apply c.current s.store).underflows = s.store.underflows) :
    Pops 0 s { s with store := u.apply c.current s.store } :=
  pops_store (Update.develops_apply hvalid)
    (Store.size_frames_of_heads (Update.heads_apply u c.current s.store)) hreports

theorem pops_diagnose {kind : DiagnosticKind} (hconflict : kind.isConflict = false)
    (hkind : kind ≠ .stackUnderflow) : Pops 0 s (diagnose c address kind s).2 :=
  pops_update c (u := .report address kind) hconflict
    (s.store.underflows_diagnose c.current address hkind)

theorem pops_infer (e : Expr) (ty : Ty) : Pops 0 s (infer c address e ty s).2 := by
  rw [infer_eq]
  cases e.observed? ty with
  | none => exact .refl s
  | some seen =>
      exact pops_update c (u := .observe address seen.1 seen.2) trivial
        (s.store.underflows_inferVariable c.current address seen.1 seen.2)

theorem pops_matchParameters (rename : Bool) (pairs : List (Expr × Native.Parameter)) :
    Pops 0 s (matchParameters c address rename pairs s).2 := by
  induction pairs generalizing s with
  | nil => exact .refl s
  | cons pair rest ih =>
      obtain ⟨argument, parameter⟩ := pair
      have hinfer := pops_infer c address s argument parameter.ty
      rw [matchParameters, bind_apply]
      generalize (infer c address argument parameter.ty s).2 = inferred at hinfer ⊢
      split
      · rename_i index
        have hrename : Pops 0 inferred (modifyStore
            (·.modifyFrame c.current (·.renameTemp index parameter.name)) inferred).2 :=
          pops_update c (u := .renameTemp index parameter.name) trivial rfl
        exact (hinfer.add hrename).add (ih _)
      · exact hinfer.add (ih inferred)

/-- The signature that is used agrees with the call site. -/
theorem signatureFor_agrees (hash : UInt64) (inSlots outSlots : Nat) :
    let found := signatureFor c address hash inSlots outSlots s
    found.1.1.inSlots = inSlots ∧ found.1.1.outSlots = outSlots ∧ Pops 0 s found.2 := by
  unfold signatureFor Native.Database.resolve
  cases c.natives.lookup? hash with
  | none =>
      exact ⟨Native.Signature.inSlots_synthesize .., Native.Signature.outSlots_synthesize ..,
        pops_diagnose c address s rfl nofun⟩
  | some signature =>
      dsimp only
      rw [if_neg Bool.false_ne_true]
      by_cases hagrees : signature.inSlots ≠ inSlots ∨ signature.outSlots ≠ outSlots
      · rw [if_pos hagrees]
        exact ⟨Native.Signature.inSlots_synthesize .., Native.Signature.outSlots_synthesize ..,
          pops_diagnose c address s rfl nofun⟩
      · rw [if_neg hagrees]
        obtain ⟨hin, hout⟩ := not_or.1 hagrees
        exact ⟨not_not.1 hin, not_not.1 hout, .refl s⟩

/-- What a call pushes, and what it adds to the statements. -/
theorem emitCall_pushes (name : String) (arguments : List Expr) (result : Ty)
    (hcurrent : c.current < s.store.frames.size) :
    let s' := (emitCall c name arguments result s).2
    let call := Expr.call name arguments result
    let temp := s.store.tempCount c.current
    ∃ pushed, s'.stack = pushed ++ s.stack ∧ pushed.length = result.footprint ∧
      s'.store.underflows = s.store.underflows ∧
      if result.footprint = 0 then s'.emitted = s.emitted.push (.expr call)
      else s'.store.tempCount c.current = temp + 1 ∧
        s'.emitted = s.emitted.push (.declare (.temp temp) call) ∧
        ∀ e ∈ pushed, e.leaves = [.var (.temp temp)] := by
  intro s' call temp
  by_cases hzero : result.footprint = 0
  · have hs' : s' = (emit (.expr call) s).2 :=
      congrArg (fun x => (x s).2) (emitCall_of_eq_zero c name arguments hzero)
    rw [hs']
    refine ⟨[], rfl, hzero.symm, rfl, ?_⟩
    rw [if_pos hzero]
    rfl
  · have hs' := congrArg Prod.snd (emitCall_apply c name arguments hzero s)
    rw [show s' = _ from hs']
    refine ⟨(resultSlots (.temp temp) result).reverse, rfl, ?_, rfl, ?_⟩
    · rw [List.length_reverse, length_resultSlots]
    · rw [if_neg hzero]
      exact ⟨Store.tempCount_addTemp hcurrent result, rfl,
        fun e he => leaves_of_mem_resultSlots (List.mem_reverse.1 he)⟩

/-- A temporary that is new after the arguments were popped was new before. -/
theorem Pops.tempCount_le {slots : Nat} {s s' : State} (h : Pops slots s s') (current : Nat) :
    s.store.tempCount current ≤ s'.store.tempCount current := by
  by_contra hless
  have hseen := h.grows.sees (Store.sees_temp_iff.2 (Nat.lt_of_not_le hless))
  exact Nat.lt_irrefl _ (Store.sees_temp_iff.1 hseen)

variable {s} {raw : UInt64} {index : Nat} (inSlots outSlots : Nat)

/-- A native call adds a call whose arguments are the topmost values of the stack. -/
theorem callNative_eq (hnative : c.unit.natives[index]? = some raw) :
    ∃ (signature : Native.Signature) (rename : Bool) (pieces : List (List Expr)) (passed : State),
      (signatureFor c address (Native.unmangle raw c.unit.codeLength index) inSlots outSlots s).1 =
        (signature, rename) ∧
      signature.inSlots = inSlots ∧ signature.outSlots = outSlots ∧
      pieces.map List.length = (signature.parameters.map (·.ty.footprint)).filter (0 < ·) ∧
      pieces.flatten = topSlots inSlots s.stack ∧ Pops inSlots s passed ∧
      callNative c address inSlots outSlots index s =
        emitCall c signature.name (pieces.map pack) signature.result passed := by
  obtain ⟨hin, hout, hfound⟩ := signatureFor_agrees c address s
    (Native.unmangle raw c.unit.codeLength index) inSlots outSlots
  unfold callNative
  rw [hnative]
  dsimp only
  rw [bind_apply]
  generalize signatureFor c address (Native.unmangle raw c.unit.codeLength index) inSlots outSlots
    s = found at hin hout hfound ⊢
  obtain ⟨⟨signature, rename⟩, found⟩ := found
  obtain ⟨pieces, harguments, hlengths, hflatten, hpops⟩ :=
    popArguments_eq c address found signature.parameters
  have hslots : Native.slots signature.parameters = inSlots := hin
  rw [hslots] at hpops hflatten
  rw [hfound.stack] at hflatten
  dsimp only
  rw [bind_apply, harguments, bind_apply]
  generalize (popArguments c address signature.parameters found).2 = popped at hpops ⊢
  have hmatched := pops_matchParameters c address popped rename
    ((pieces.map pack).zip (signature.parameters.filter (0 < ·.ty.footprint)))
  have hpassed := (hfound.add hpops).add hmatched
  rw [Nat.zero_add] at hpassed
  exact ⟨signature, rename, pieces, _, rfl, hin, hout, hlengths, hflatten, hpassed, rfl⟩

/-- A native call has the footprint that its call site states.

The signature that is used takes and returns the slots of the call site.  Each of its parameters
of which the type takes slots has one argument: as many values as the type takes slots, put
together if they are several.  Next to each other, the values of all arguments are the topmost
ones of the stack in push order.  Below them nothing changes; above that as many values are
pushed as the call site says, and each of them is made of one new temporary, which holds the
result of the call.

Nothing is reported as missing if the stack is deep enough.  Otherwise the missing values are the
lowest ones, they become placeholders, and that is reported. -/
theorem callNative_footprint (hnative : c.unit.natives[index]? = some raw)
    (hcurrent : c.current < s.store.frames.size) :
    let hash := Native.unmangle raw c.unit.codeLength index
    let s' := (callNative c address inSlots outSlots index s).2
    ∃ (signature : Native.Signature) (rename : Bool) (pieces : List (List Expr))
      (pushed : List Expr),
      (signatureFor c address hash inSlots outSlots s).1 = (signature, rename) ∧
      signature.inSlots = inSlots ∧ signature.outSlots = outSlots ∧
      pieces.map List.length = (signature.parameters.map (·.ty.footprint)).filter (0 < ·) ∧
      pieces.flatten = List.replicate (inSlots - s.stack.length) .underflow ++
        (s.stack.take inSlots).reverse ∧
      s'.stack = pushed ++ s.stack.drop inSlots ∧ pushed.length = outSlots ∧
      (let call := Expr.call signature.name (pieces.map pack) signature.result
        if outSlots = 0 then s'.emitted = s.emitted.push (.expr call)
        else ∃ temp, s.store.tempCount c.current ≤ temp ∧
          s'.store.tempCount c.current = temp + 1 ∧
          s'.emitted = s.emitted.push (.declare (.temp temp) call) ∧
          ∀ e ∈ pushed, e.leaves = [.var (.temp temp)]) ∧
      (inSlots ≤ s.stack.length → s'.stack.length = s.stack.length - inSlots + outSlots ∧
        s'.store.underflows = s.store.underflows) ∧
      (s.stack.length < inSlots → s'.stack.length = outSlots ∧
        ∃ report reports, s'.store.underflows = s.store.underflows ++ report :: reports) := by
  intro hash s'
  obtain ⟨signature, rename, pieces, passed, hsignature, hin, hout, hlengths, hflatten, hpops,
    hcall⟩ := callNative_eq (s := s) c address inSlots outSlots hnative
  have hresult : signature.result.footprint = outSlots := hout
  have hpushes := emitCall_pushes c passed signature.name (pieces.map pack) signature.result
    (hpops.size ▸ hcurrent)
  rw [← congrArg Prod.snd hcall, hresult] at hpushes
  obtain ⟨pushed, hstack, hlength, hunderflows, hemitted⟩ := hpushes
  rw [hpops.stack] at hstack
  have hdepth : s'.stack.length = outSlots + (s.stack.length - inSlots) := by
    rw [show s'.stack = _ from hstack, List.length_append, hlength, List.length_drop]
  obtain ⟨reports, hreports, hnone⟩ := hpops.reports
  refine ⟨signature, rename, pieces, pushed, hsignature, hin, hout, hlengths, hflatten, hstack,
    hlength, ?_, fun hdeep => ⟨by omega, ?_⟩, fun hshallow => ⟨by omega, ?_⟩⟩
  · rw [← hpops.emitted]
    dsimp only
    split
    · rename_i hzero
      rwa [if_pos hzero] at hemitted
    · rename_i hzero
      rw [if_neg hzero] at hemitted
      exact ⟨_, hpops.tempCount_le c.current, hemitted⟩
  · rw [show s'.store.underflows = _ from hunderflows, hreports, hnone.2 hdeep, List.append_nil]
  · obtain _ | ⟨report, reports⟩ := reports
    · exact absurd (hnone.1 rfl) (Nat.not_le.2 hshallow)
    · exact ⟨report, reports, (show s'.store.underflows = _ from hunderflows).trans hreports⟩

/-- A native of the database with a parameter of three slots, one of none and one of one slot,
and a result of two. -/
theorem callNative_footprint_vector :
    let signature : Native.Signature := ⟨"PLACE", none,
      [⟨"position", .vector3⟩, ⟨"nothing", .void⟩, ⟨"flag", .int⟩], .array .int 2⟩
    let c : Context := ⟨⟨"u", [], 0, [], #[7], []⟩, Native.Database.empty.insert 7 signature,
      false, 0⟩
    let s : State := ⟨⟨#[Frame.declare 0 "f" 0 2], Globals.ofStatics [], #[]⟩,
      [.int 5, .int 4, .int 3, .int 2, .int 1], #[]⟩
    let s' := (callNative c 8 4 2 0 s).2
    c.unit.natives[0]? = some 7 ∧ c.current < s.store.frames.size ∧
      ∃ (pieces : List (List Expr)) (pushed : List Expr), pieces.map List.length = [3, 1] ∧
        pieces.flatten = [.int 2, .int 3, .int 4, .int 5] ∧
        s'.stack = pushed ++ [.int 1] ∧ pushed.length = 2 ∧
        (∀ e ∈ pushed, e.leaves = [.var (.temp 0)]) ∧
        s'.emitted =
          #[.declare (.temp 0) (.call "PLACE" (pieces.map pack) (.array .int 2))] ∧
        s'.store.underflows = [] := by
  intro signature c s s'
  have hnative : c.unit.natives[0]? = some 7 := rfl
  have hcurrent : c.current < s.store.frames.size := Nat.one_pos
  obtain ⟨found, rename, pieces, pushed, hfound, -, -, hlengths, hflatten, hstack, hlength,
    hemitted, hdeep, -⟩ := callNative_footprint (s := s) c 8 4 2 hnative hcurrent
  obtain ⟨rfl, -⟩ : signature = found ∧ true = rename := by
    have hsignature : (signatureFor c 8 (Native.unmangle 7 0 0) 4 2 s).1 = (signature, true) := by
      decide +kernel
    exact Prod.mk.inj (hsignature.symm.trans hfound)
  obtain ⟨temp, -, htemp, hdeclared, hpushed⟩ := hemitted
  obtain rfl : 0 = temp := by
    have hcount : s'.store.tempCount c.current = 1 := by decide +kernel
    exact Nat.succ.inj (hcount.symm.trans htemp)
  exact ⟨hnative, hcurrent, pieces, pushed, hlengths, hflatten, hstack, hlength, hpushed, hdeclared,
    (hdeep (by decide)).2⟩

end Machine.Replay

end ScriptDecompiler
