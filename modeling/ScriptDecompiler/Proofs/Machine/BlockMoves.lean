import ScriptDecompiler.Proofs.Expr.Dependence
import ScriptDecompiler.Proofs.Expr.Slots
import ScriptDecompiler.Proofs.Machine.Changes
import ScriptDecompiler.Proofs.Machine.Results
import ScriptDecompiler.Proofs.Store.Sight

/-!
# Values moved into a local and back

A block of values is moved as a whole: a length and the address of a local are pushed, and an
implode takes as many values off the stack, as an array that the local holds from then on, or
an explode puts the elements of that array on the stack.

The array has the type of its first value as the type of its elements.  So the values come
back as the elements of the local, one for one, as long as such an element takes at most one
slot.  An element of more slots is spread over several values, and then already the first
value that comes back is a part of an element.
-/

namespace ScriptDecompiler

/-- Nothing becomes known about types by naming a slot. -/
theorem Store.typeIn_touch_slot (s : Store) (current index : Nat) (e : Expr) :
    e.typeIn ((s.touch current (.slot index)).scope current) = e.typeIn (s.scope current) := by
  refine e.typeIn_congr fun r _ => ?_
  simp only [Expr.typeIn, Store.scope]
  rcases s.get?_touch_slot current index r with hsame | ⟨i, -, hnone, hsome⟩
  · rw [hsame]
  · rw [hnone, hsome]
    rfl

namespace Machine

open ScriptDecompiler.Bytecode (Instruction Operation opcodeInfo)

-- The opcode table is too large to be unfolded whenever terms are compared.
attribute [local irreducible] opcodeInfo

namespace Replay

variable (c : Context) (address : Nat) {s : State}

theorem popLength_cons {length : Nat} {rest : List Expr}
    (h : s.stack = .int length :: rest) :
    popLength c address s = (some length, { s with stack := rest }) := by
  unfold popLength
  rw [bind_apply, pop_cons c address h]
  rfl

theorem bound_of_le {length limit : Nat} (h : length ≤ limit) (s : State) :
    bound c address length limit s = (length, s) := by
  unfold bound
  rw [if_pos h]
  rfl

/-- An implode of values that are all there: their destination gets the type of the array. -/
theorem implode_append {dest : Expr} {values rest : List Expr}
    (h : s.stack = dest :: .int values.length :: (values.reverse ++ rest)) :
    implode c address s =
      let ty := Ty.pointer ((Expr.arrayLiteral values).typeIn (s.store.scope c.current))
      ((), ⟨(infer c address dest ty s).2.store, rest,
        s.emitted.push (.assign dest.dereference (.arrayLiteral values))⟩) := by
  have hpop := pop_cons c address h
  have hlength := popLength_cons c address
    (show State.stack { s with stack := _ } = .int values.length :: (values.reverse ++ rest)
      from rfl)
  have hvalues := popMany_append c address
    (show State.stack { s with stack := values.reverse ++ rest } = values.reverse ++ rest from rfl)
  rw [List.length_reverse, List.reverse_reverse] at hvalues
  have hbound := bound_of_le c address
    (show values.length ≤ (values.reverse ++ rest).length by simp)
  have hassign : ∀ ty statement,
      (infer c address dest ty >>= fun _ => emit statement) { s with stack := rest } =
        ((), ⟨(infer c address dest ty s).2.store, rest, s.emitted.push statement⟩) := by
    intro ty statement
    rw [bind_apply, infer_eq, infer_eq]
    rfl
  unfold implode
  simp only [bind_apply, get_apply, hpop, hlength, hbound, hvalues]
  cases values with
  | nil => exact hassign ..
  | cons first more => exact hassign ..

/-- An explode of something about which something is known. -/
theorem explode_cons {source : Expr} {count : Nat} {rest : List Expr}
    (h : s.stack = source :: .int count :: rest) (hcount : count ≤ maxExplodeSlots)
    (hknown : (source.typeIn (s.store.scope c.current)).throughPointer.isUnknown = false) :
    explode c address s =
      let parts := (source.typeIn (s.store.scope c.current)).explode source count
      ((), { s with stack := parts.reverse ++ rest }) := by
  have hpop := pop_cons c address h
  have hlength := popLength_cons c address
    (show State.stack { s with stack := _ } = .int count :: rest from rfl)
  have hbound := bound_of_le c address hcount
  have htype : ∀ stack, typeOf c source { s with stack := stack } =
      (source.typeIn (s.store.scope c.current), { s with stack := stack }) := fun _ => rfl
  unfold explode
  simp only [bind_apply, hpop, hlength, hbound, htype, hknown, Bool.false_eq_true, if_false]
  rfl

end Replay

/-- Is this a length, the address of a local, and an operation on both? -/
def MovesBlock (operation : Operation) (count index : Nat) (body : List Instruction) : Prop :=
  ∃ length address move : Instruction, body = [length, address, move] ∧
    (length.operation = .push ∧ Replay.immediates length.operand = [.int count]) ∧
    (address.operation = .localAddress ∧ address.operand.integer? = some index) ∧
    move.operation = operation

section Moves

variable {c : Context} {s : State} {operation : Operation} {count index : Nat}
  {body : List Instruction}

/-- Up to the last instruction, the length and the address are pushed. -/
theorem MovesBlock.replay_eq (h : MovesBlock operation count index body)
    (hop : operation ∉ [Operation.ret, .call, .callNative]) :
    ∃ move : Instruction, move.operation = operation ∧ ∀ s,
      replay c s body = (none, (Replay.step c move
        ⟨s.store.touch c.current (.slot index),
          .addressOf (.var (.slot index)) :: .int count :: s.stack,
          s.emitted ++ comments c body⟩).2) := by
  obtain ⟨length, address, move, rfl, ⟨hlength, hcount⟩, ⟨haddress, hindex⟩, hmove⟩ := h
  refine ⟨move, hmove, fun s => ?_⟩
  rw [replay_cons_of_not_mem c _ (by simp [hlength]),
    replay_cons_of_not_mem c _ (by simp [haddress]),
    replay_cons_of_not_mem c _ (hmove ▸ hop)]
  simp only [replayInstruction_apply]
  have hpush : ∀ s, Replay.step c length s = ((), { s with stack := .int count :: s.stack }) := by
    intro s
    unfold Replay.step
    simp only [hlength, hcount]
    rfl
  have htake : ∀ s, Replay.step c address s = ((), { s with
      store := s.store.touch c.current (.slot index)
      stack := .addressOf (.var (.slot index)) :: s.stack }) := by
    intro s
    unfold Replay.step
    simp only [haddress, hindex]
    rfl
  rw [hpush, htake]
  have hcomments : comments c [length, address, move] =
      comments c [length] ++ comments c [address] ++ comments c [move] := by
    rw [← comments_append, ← comments_append]
    rfl
  simp only [hcomments, Array.append_assoc]
  rfl

/-- The array that a literal is has a known type. -/
theorem isUnknown_arrayLiteral (scope : Scope) (values : List Expr) :
    ((Expr.arrayLiteral values).typeIn scope).isUnknown = false := by
  cases values <;> simp [Expr.typeIn, Ty.isUnknown, Ty.unknown]

/-- Values are moved into an open local, which is an array of them from then on. -/
theorem replay_implode {values rest : List Expr}
    (h : MovesBlock .implode values.length index body)
    (hcurrent : c.current < s.store.frames.size) (hstack : s.stack = values.reverse ++ rest)
    (hopen : ∀ v, s.store.get? c.current (.slot index) = some v →
      v.ty = .unknown ∧ v.locked = false) :
    ∃ store v, replay c s body = (none, ⟨store, rest, (s.emitted ++ comments c body).push
        (.assign (.var (.slot index)) (.arrayLiteral values))⟩) ∧
      store.diagnostics = s.store.diagnostics ∧
      store.get? c.current (.slot index) = some v ∧
      v.ty = (Expr.arrayLiteral values).typeIn (s.store.scope c.current) := by
  obtain ⟨move, hmove, hreplay⟩ := h.replay_eq (c := c) (by decide)
  obtain ⟨v, hv⟩ := Store.sees_touch hcurrent (.slot index)
  obtain ⟨hty, hlocked⟩ : v.ty = .unknown ∧ v.locked = false := by
    rcases s.store.get?_touch_slot c.current index (.slot index) with hsame | ⟨i, -, -, hnew⟩
    · exact hopen v (hsame ▸ hv)
    · rw [hnew] at hv
      cases hv
      exact ⟨rfl, rfl⟩
  have hstep : ∀ s, Replay.step c move s = Replay.implode c move.address s := by
    intro s
    unfold Replay.step
    simp only [hmove]
  -- The local is what is observed, as the array that the literal is.
  have hobserved : ∀ ty : Ty, ty.isUnknown = false →
      (Expr.addressOf (.var (.slot index))).observed? (.pointer ty) = some (.slot index, ty) := by
    intro ty hknown
    have hpointer : (Ty.pointer ty).isUnknown = false := by simp [Ty.isUnknown, Ty.unknown]
    simp [Expr.observed?, Ty.throughPointer, Ty.pointee?, hknown, hpointer]
  have hknown := isUnknown_arrayLiteral (s.store.scope c.current) values
  rw [hreplay, hstep, hstack, Replay.implode_append c move.address rfl]
  simp only [Store.typeIn_touch_slot, Replay.infer_eq, hobserved _ hknown,
    Store.inferVariable_of_open hv hty hlocked hknown]
  refine ⟨_, _, rfl, ?_, Store.get?_setVariable_self hv _, rfl⟩
  rw [Store.diagnostics_setVariable, Store.diagnostics_touch]

/-- What an array in a local has is put on the stack. -/
theorem replay_explode {v : Variable} (h : MovesBlock .explode count index body)
    (hcount : count ≤ maxExplodeSlots) (hv : s.store.get? c.current (.slot index) = some v)
    (hknown : v.ty.isUnknown = false) :
    replay c s body = (none, ⟨s.store,
      (v.ty.explode (.addressOf (.var (.slot index))) count).reverse ++ s.stack,
      s.emitted ++ comments c body⟩) := by
  obtain ⟨move, hmove, hreplay⟩ := h.replay_eq (c := c) (by decide)
  have hstep : ∀ s, Replay.step c move s = Replay.explode c move.address s := by
    intro s
    unfold Replay.step
    simp only [hmove]
  have htype : (Expr.addressOf (.var (.slot index))).typeIn (s.store.scope c.current) =
      .pointer v.ty := by
    simp only [Expr.typeIn, Store.scope, hv]
  have hthrough : (Ty.pointer v.ty).throughPointer = v.ty := rfl
  rw [hreplay, hstep, Store.touch_eq_self hv,
    Replay.explode_cons c move.address rfl hcount (by rw [htype, hthrough, hknown])]
  simp only [htype, Ty.explode_pointer (Expr.addressOf_ne_arrayLiteral _)]

/-- Values are moved into an open local and back.

The implode takes the values off the stack and assigns them to the local, as an array.  The
explode puts as many values on the stack again, which are the elements of the local, one for one,
if and only if an element takes at most one slot.  Nothing is reported by either.  The slots of an
element are counted exactly, as a word of 64 bits does it below `2 ^ 64`
(`Ty.toNat_stackSize_of_lt`). -/
theorem explode_after_implode {first : Expr} {more rest : List Expr}
    {packing unpacking : List Instruction} {x : Nat}
    (hpacking : MovesBlock .implode (first :: more).length x packing)
    (hunpacking : MovesBlock .explode (first :: more).length x unpacking)
    (hcount : (first :: more).length ≤ maxExplodeSlots)
    (hcurrent : c.current < s.store.frames.size)
    (hstack : s.stack = (first :: more).reverse ++ rest)
    (hopen : ∀ v, s.store.get? c.current (.slot x) = some v → v.ty = .unknown ∧ v.locked = false) :
    let n := (first :: more).length
    let source := Expr.addressOf (.var (.slot x))
    let element := first.typeIn (s.store.scope c.current)
    let parts := (Ty.array element n).explode source n
    let emitted := (s.emitted ++ comments c packing).push
      (.assign (.var (.slot x)) (.arrayLiteral (first :: more)))
    ∃ store, replay c s packing = (none, ⟨store, rest, emitted⟩) ∧
      replay c ⟨store, rest, emitted⟩ unpacking =
        (none, ⟨store, parts.reverse ++ rest, emitted ++ comments c unpacking⟩) ∧
      store.diagnostics = s.store.diagnostics ∧ parts.length = n ∧
      (parts = (List.range n).map source.element ↔ element.footprint ≤ 1) := by
  intro n source element parts emitted
  obtain ⟨store, v, himplode, hdiagnostics, hv, hty⟩ :=
    replay_implode hpacking hcurrent hstack hopen
  have hexplode := replay_explode (s := ⟨store, rest, emitted⟩) hunpacking hcount hv
    (hty ▸ isUnknown_arrayLiteral _ _)
  rw [hty] at hexplode
  exact ⟨store, himplode, hexplode, hdiagnostics, Ty.length_explode ..,
    Ty.explode_array_eq_iff (Expr.addressOf_ne_arrayLiteral _) (Nat.succ_pos _)⟩

/-- Two integers come back as the two elements of a local. -/
theorem explode_after_implode_integers :
    let c : Context := ⟨⟨"u", [], 0, [], #[], []⟩, .empty, false, 0⟩
    let s : State :=
      ⟨⟨#[Frame.declare 0 "f" 0 2], ⟨Table.empty, Table.empty⟩, #[]⟩, [.int 8, .int 7], #[]⟩
    let packing : List Instruction := [⟨0, 112, .impliedInt 2, 1⟩, ⟨1, 55, .imm8 1, 2⟩,
      ⟨3, 51, .none, 1⟩]
    let unpacking : List Instruction := [⟨4, 112, .impliedInt 2, 1⟩, ⟨5, 55, .imm8 1, 2⟩,
      ⟨7, 50, .none, 1⟩]
    let source := Expr.addressOf (.var (.slot 1))
    let emitted := #[.assign (.var (.slot 1)) (.arrayLiteral [.int 7, .int 8])]
    ∃ store, replay c s packing = (none, ⟨store, [], emitted⟩) ∧
      replay c ⟨store, [], emitted⟩ unpacking =
        (none, ⟨store, [source.element 1, source.element 0], emitted⟩) := by
  intro c s packing unpacking source emitted
  have hpacking : MovesBlock .implode [Expr.int 7, .int 8].length 1 packing :=
    ⟨_, _, _, rfl, ⟨by decide +kernel, rfl⟩, ⟨by decide +kernel, rfl⟩, by decide +kernel⟩
  have hunpacking : MovesBlock .explode [Expr.int 7, .int 8].length 1 unpacking :=
    ⟨_, _, _, rfl, ⟨by decide +kernel, rfl⟩, ⟨by decide +kernel, rfl⟩, by decide +kernel⟩
  have hopen : ∀ v, s.store.get? c.current (.slot 1) = some v →
      v.ty = .unknown ∧ v.locked = false := by
    intro v hv
    cases hv
    exact ⟨rfl, rfl⟩
  obtain ⟨store, himplode, hexplode, -, -, helements⟩ :=
    explode_after_implode (c := c) hpacking hunpacking (by decide) (by decide)
      (show s.stack = [Expr.int 7, .int 8].reverse ++ [] from rfl) hopen
  rw [helements.2 (by decide)] at hexplode
  exact ⟨store, himplode, hexplode⟩

/-- A vector in an array comes back as the first of its coordinates. -/
theorem exists_explode_after_implode_ne :
    let code : List UInt8 := [45, 0, 3, 0, 1, 102, 113, 55, 0, 50, 43, 43, 43, 56, 0,
      111, 55, 1, 51, 111, 55, 1, 50, 57, 2, 46, 0, 0]
    let u : ScriptUnit := ⟨"u", code, code.length, [], #[], []⟩
    let c : Context := ⟨u, .empty, false, 0⟩
    let packing : List Instruction := [⟨15, 111, .impliedInt 1, 1⟩, ⟨16, 55, .imm8 1, 2⟩,
      ⟨18, 51, .none, 1⟩]
    let unpacking : List Instruction := [⟨19, 111, .impliedInt 1, 1⟩, ⟨20, 55, .imm8 1, 2⟩,
      ⟨22, 50, .none, 1⟩]
    let source := Expr.addressOf (.var (.slot 1))
    ∃ instructions s s₁ s₂ first v, u.instructions = .ok instructions ∧
      packing ++ unpacking <:+: instructions ∧
      MovesBlock .implode 1 1 packing ∧ MovesBlock .explode 1 1 unpacking ∧
      Replays (u.program instructions) c ⟨15, 111, .impliedInt 1, 1⟩ s ∧ s.stack = [first] ∧
      s.store.get? c.current (.slot 1) = some v ∧ v.ty = .unknown ∧ v.locked = false ∧
      replay c s packing = (none, s₁) ∧ replay c s₁ unpacking = (none, s₂) ∧
      s₂.stack.map (·.typeIn (s₂.store.scope c.current)) = [.float] ∧
      (source.element 0).typeIn (s₂.store.scope c.current) = .vector3 ∧
      s₂.stack ≠ [source.element 0] := by
  intro code u c packing unpacking source
  let instructions : List Instruction := [⟨0, 45, .enter 0 3 "f", 6⟩, ⟨6, 113, .impliedInt 3, 1⟩,
    ⟨7, 55, .imm8 0, 2⟩, ⟨9, 50, .none, 1⟩, ⟨10, 43, .none, 1⟩, ⟨11, 43, .none, 1⟩,
    ⟨12, 43, .none, 1⟩, ⟨13, 56, .imm8 0, 2⟩] ++ packing ++ unpacking ++
    [⟨23, 57, .imm8 2, 2⟩, ⟨25, 46, .ret 0 0, 3⟩]
  have hcode : u.instructions = .ok instructions := by decide +kernel
  have hrun : ((u.program instructions).replayedWithin 9 c 0 8).map (fun (i, s) =>
      let s₂ := (replay c (replay c s packing).2 unpacking).2
      (i, s.stack.length, (s.store.get? c.current (.slot 1)).map fun v => (v.ty, v.locked),
        (s₂.stack ++ [source.element 0]).map (·.typeIn (s₂.store.scope c.current)))) =
      some (⟨15, 111, .impliedInt 1, 1⟩, 1, some (.unknown, false), [.float, .vector3]) := by
    decide +kernel
  obtain ⟨⟨i, s⟩, hreplayed, hfound⟩ := Option.map_eq_some_iff.1 hrun
  simp only [Prod.mk.injEq, List.map_append, List.map_singleton] at hfound
  obtain ⟨rfl, hlength, hslot, htypes⟩ := hfound
  obtain ⟨first, hfirst⟩ := List.length_eq_one_iff.1 hlength
  obtain ⟨v, hv, hopen⟩ := Option.map_eq_some_iff.1 hslot
  obtain ⟨hty, hlocked⟩ := Prod.mk.inj hopen
  have hpacking : MovesBlock .implode 1 1 packing :=
    ⟨_, _, _, rfl, ⟨by decide +kernel, rfl⟩, ⟨by decide +kernel, rfl⟩, by decide +kernel⟩
  have hunpacking : MovesBlock .explode 1 1 unpacking :=
    ⟨_, _, _, rfl, ⟨by decide +kernel, rfl⟩, ⟨by decide +kernel, rfl⟩, by decide +kernel⟩
  obtain ⟨_, -, himplode⟩ := hpacking.replay_eq (c := c) (by decide)
  obtain ⟨_, -, hexplode⟩ := hunpacking.replay_eq (c := c) (by decide)
  obtain ⟨hfloat, helement⟩ := List.append_inj' (show _ ++ _ = [_] ++ [_] from htypes) rfl
  refine ⟨instructions, s, _, _, first, v, hcode,
    ⟨instructions.take 8, instructions.drop 14, rfl⟩, hpacking, hunpacking,
    replays_of_replayedWithin hreplayed, hfirst, hv, hty, hlocked,
    Prod.ext (by rw [himplode]) rfl, Prod.ext (by rw [hexplode]) rfl, hfloat,
    List.singleton_inj.1 helement, fun hsame => ?_⟩
  rw [hsame] at hfloat
  exact absurd (hfloat.symm.trans helement) (by decide)

end Moves

end Machine

end ScriptDecompiler
