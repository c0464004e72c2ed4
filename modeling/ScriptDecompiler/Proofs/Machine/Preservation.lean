import ScriptDecompiler.Proofs.Machine.Changes

/-!
# What a replay leaves alone

Replaying an instruction adds to what is known about variables, but functions
keep their names, addresses and numbers of arguments, and a stack mismatch
between blocks is not reported in the middle of a block.  Only a return changes
what is known about a result, and only about that of the current function.
-/

namespace ScriptDecompiler.Machine

open ScriptDecompiler.Bytecode (Instruction)

namespace Replay

variable (c : Context)

/-- What updates keep that are not a return's. -/
theorem Makes.preserves {admits : Update → Prop} {adds : Stmt → Prop} {pushes : Prop} {α : Type}
    {x : Replay α} (h : Makes (Store.Performs c.current admits) adds pushes x)
    (hordinary : ∀ u, admits u → u.isOrdinary = true) (s : State) :
    s.store.Preserves (x s).2.store :=
  (h.mono (fun _ _ hperforms => hperforms.preserves hordinary) (fun _ hadds => hadds) id).keeps_store
    Store.Preserves.refl (fun _ _ _ => Store.Preserves.trans) s

theorem preserves_passArguments (address callee index : Nat) (arguments : List Expr) (s : State) :
    s.store.Preserves (passArguments c address callee index arguments s).2.store := by
  have hmakes : Makes (Plain c) (fun _ => False) False
      (passArguments c address callee index arguments) :=
    makes_passArguments c address callee index arguments
  exact hmakes.preserves c (fun _ => Update.isOrdinary_of_isPlain) s

/-- Every instruction but a return. -/
theorem preserves_step (i : Instruction) (h : i.operation ≠ .ret) (s : State) :
    s.store.Preserves (step c i s).2.store :=
  (makes_step c i).preserves c (fun _ hadmits => hadmits.isOrdinary h) s

/-- One instruction. -/
theorem continues_step (i : Instruction) (s : State) :
    s.store.Continues c.current (step c i s).2.store :=
  ((makes_step c i).mono (fun _ _ hperforms => hperforms.continues fun _ => Admits.isWithinBlock)
    (fun _ hadds => hadds) id).keeps_store
    (fun s => (Store.Preserves.refl s).continues c.current)
    (fun _ _ _ => Store.Continues.trans) s

end Replay

theorem functionAt?_congr {s s' : Store} (h : s'.heads = s.heads) (address : Nat) :
    functionAt? s'.frames address = functionAt? s.frames address := by
  have hheads : ∀ s : Store, functionAt? s.frames address =
      s.heads.findIdx? (·.address = address) := by
    intro s
    rw [Store.heads, Array.findIdx?_map]
    rfl
  rw [hheads, hheads, h]

theorem name?_congr {s s' : Store} (h : s'.heads = s.heads) (index : Nat) :
    s'.frames[index]?.map (·.name) = s.frames[index]?.map (·.name) := by
  have hheads : ∀ s : Store, s.frames[index]?.map (·.name) = s.heads[index]?.map (·.name) := by
    intro s
    rw [Store.heads, Array.getElem?_map, Option.map_map]
    rfl
  rw [hheads, hheads, h]

theorem continues_replayInstruction (c : Context) (i : Instruction) (s : State) :
    s.store.Continues c.current (replayInstruction c i s).2.store := by
  rw [replayInstruction_apply]
  exact Replay.continues_step c i { s with emitted := s.emitted ++ comments c [i] }

/-- Instructions up to the first one that is at fault. -/
theorem continues_replay (c : Context) (s : State) (body : List Instruction) :
    s.store.Continues c.current (replay c s body).2.store := by
  induction body generalizing s with
  | nil => exact (Store.Preserves.refl s.store).continues c.current
  | cons i body ih =>
      rw [replay_cons]
      split
      · exact (Store.Preserves.refl s.store).continues c.current
      · exact (continues_replayInstruction c i s).trans (ih _)

end ScriptDecompiler.Machine
