import ScriptDecompiler.Proofs.Machine.Points
import ScriptDecompiler.Proofs.Machine.References
import ScriptDecompiler.Proofs.Store.Access

/-!
# Tables of variables

Arguments are numbered from zero, locals go on where the arguments end, and temporaries are
numbered from zero again; statics and globals are kept under their own indexes.  That is so when
the functions of a unit are built, and it stays so while functions are decompiled and variables
are accessed, in any order.

What carries this is that every variable bears the reference of its place.  Whatever is fetched
therefore has the index that was asked for, however far the tables had to grow for it.
-/

namespace ScriptDecompiler

/-- Is every variable of a function stored under its own index? -/
structure Frame.Indexed (f : Frame) : Prop where
  arguments : ∀ (k : Nat) (v : Variable), f.arguments[k]? = some v → v.index = k
  locals : ∀ (k : Nat) (v : Variable), f.locals[k]? = some v → v.index = f.arguments.size + k
  temporaries : ∀ (k : Nat) (v : Variable), f.temporaries[k]? = some v → v.index = k

/-- Is every variable stored under its own index? -/
structure Store.Indexed (s : Store) : Prop where
  frames : ∀ f ∈ s.frames, f.Indexed
  statics : ∀ entry ∈ s.globals.statics.entries, entry.2.index = entry.1
  globals : ∀ entry ∈ s.globals.globals.entries, entry.2.index = entry.1

theorem Variable.Edit.ref?_apply (e : Variable.Edit) (v : Variable) :
    (e.apply v).ref? = v.ref? := by
  unfold ref?
  rw [e.index_apply, e.kind_apply]

namespace Store

variable {s : Store} {current : Nat} {r : VarRef} {v : Variable}

theorem ref?_placeOf (s : Store) (current : Nat) (r : VarRef) :
    (s.placeOf current r).ref? = some r := by
  cases r with
  | temp | static | global => rfl
  | slot index =>
      simp only [placeOf]
      split <;> rfl

namespace Labelled

theorem touch (h : s.Labelled) (current : Nat) (r : VarRef) : (s.touch current r).Labelled :=
  h.develops (s.develops_touch current r)

theorem addTemp (h : s.Labelled) (current : Nat) (ty : Ty) :
    (s.modifyFrame current (·.addTemp ty)).Labelled :=
  h.develops (develops_modifyFrame fun f _ => f.develops_addTemp current ty)

/-- Another variable in the place of the one that a reference denotes. -/
theorem setVariable (h : s.Labelled) (hr : s.Sees current r) (hv : v.ref? = some r) :
    (s.setVariable current v r).Labelled := by
  intro place w hw
  by_cases hplace : place = s.placeOf current r
  · obtain ⟨before, hbefore⟩ := hr
    have hheads := (s.preserves_setVariable current v r).heads
    have hset := get?_setVariable_self hbefore v
    -- The function has as many arguments as before, so the reference still denotes this place.
    rw [← at?_placeOf, placeOf_congr hheads, ← hplace, hw] at hset
    cases hset
    rw [hv, hplace, ref?_placeOf]
  · rw [at?_setVariable_of_ne v hplace] at hw
    exact h place w hw

theorem edit (h : s.Labelled) (current : Nat) (r : VarRef) (e : Variable.Edit) :
    (s.edit current r e).Labelled := by
  have htouch := h.touch current r
  unfold Store.edit fetch
  dsimp only
  split <;> rename_i hfetch
  · rwa [← (Prod.mk.inj hfetch).2]
  · obtain ⟨hv, rfl⟩ := Prod.mk.inj hfetch
    exact htouch.setVariable ⟨_, hv⟩ ((e.ref?_apply _).trans (htouch.ref?_of_get? hv))

theorem indexed (h : s.Labelled) : s.Indexed := by
  refine ⟨fun f hf => ?_, fun entry hentry => ?_, fun entry hentry => ?_⟩
  · obtain ⟨k, hk⟩ := Array.mem_iff_getElem?.1 hf
    have hspot : ∀ spot v, f.at? spot = some v → v.ref? = (Place.own k spot).ref? :=
      fun spot v hv => h (.own k spot) v (by rw [at?, hk]; exact hv)
    refine ⟨fun position v hv => ?_, fun position v hv => ?_, fun position v hv => ?_⟩
    · exact Variable.index_of_ref? (hspot (.argument position) v hv)
    · rw [← f.at?_slot_add] at hv
      exact Variable.index_of_ref? (hspot (.slot _) v hv)
    · exact Variable.index_of_ref? (hspot (.temp position) v hv)
  · exact Variable.index_of_ref? (h (.static entry.1) entry.2 (Table.get?_eq_some_iff.2 hentry))
  · exact Variable.index_of_ref? (h (.global entry.1) entry.2 (Table.get?_eq_some_iff.2 hentry))

end Labelled

end Store

namespace Machine

/-- One thing that can be done to a program: a function is decompiled, a variable that is seen
from function `current` is accessed, or a temporary is added to this function. -/
inductive Action where
  | decompile (c : Context)
  | access (current : Nat) (r : VarRef) (e : Variable.Edit)
  | addTemp (current : Nat) (ty : Ty)

/-- A program after an action.  A function that meets a fault leaves behind what was found. -/
def Program.perform (p : Program) : Action → Program
  | .decompile c => (p.decompileFunction c).2
  | .access current r e => { p with store := p.store.edit current r e }
  | .addTemp current ty => { p with store := p.store.modifyFrame current (·.addTemp ty) }

/-- A program after several actions, one after another. -/
def Program.performAll (p : Program) (actions : List Action) : Program :=
  actions.foldl Program.perform p

/-- The stores of a program, behind any actions and at all points of decompiling a function
after them. -/
inductive Program.Attains (p : Program) : Store → Prop
  | behind (actions : List Action) : p.Attains (p.performAll actions).store
  | amid (actions : List Action) {c : Context} {x : Point}
      (h : (p.performAll actions).Passes c x) : p.Attains x.state.store

section Programs

variable {p : Program} {s : Store}

/-- A decompilation that is computed, and what is done after it. -/
theorem performAll_of_afterWithin {fuel : Nat} {c : Context} {q : Program}
    (h : p.afterWithin fuel [c] = some q) (actions : List Action) :
    p.performAll (.decompile c :: actions) = q.performAll actions :=
  congrArg (Program.performAll · actions) (after_of_afterWithin h)

theorem labelled_perform (h : p.store.Labelled) (action : Action) :
    (p.perform action).store.Labelled := by
  cases action with
  | decompile c => exact labelled_decompileFunction h c
  | access current r e => exact h.edit current r e
  | addTemp current ty => exact h.addTemp current ty

theorem labelled_performAll (h : p.store.Labelled) (actions : List Action) :
    (p.performAll actions).store.Labelled := by
  induction actions generalizing p with
  | nil => exact h
  | cons action actions ih => exact ih (labelled_perform h action)

theorem Program.Attains.labelled (hs : p.Attains s) (h : p.store.Labelled) : s.Labelled := by
  cases hs with
  | behind actions => exact labelled_performAll h actions
  | amid actions hx =>
      refine hx.keeps_store (P := Store.Labelled) ?_ (labelled_performAll h actions)
      exact fun u store _ hvalid hstore => hstore.develops (u.develops_apply hvalid)

/-- The tables of variables stay consistent, whatever is decompiled and accessed: arguments,
locals, temporaries, statics and globals are all stored under their own indexes.

Fetching a variable always gives one with the index that was asked for: the one that was there,
or a new one if there was none.  Everything that was there before stays as it is, where it is,
what has come into being has an index up to the one that was asked for, and the tables are still
consistent.  Looking the variable up afterwards gives the one that was fetched, and sees every
edit of it, while an edit concerns no other variable. -/
theorem tables_consistent {u : ScriptUnit} {instructions : List Bytecode.Instruction}
    (hs : (u.program instructions).Attains s) :
    s.Indexed ∧ ∀ current r, s.Hosts current r →
      ∃ v s', s.fetch current r = (some v, s') ∧ v.index = r.index ∧
        v = (s.get? current r).getD r.newborn ∧ s'.get? current r = some v ∧
        s'.heads = s.heads ∧ s'.Indexed ∧
        (∀ place, Place.Fills r.index (s.at? place) (s'.at? place)) ∧
        ∀ e : Variable.Edit, (s.edit current r e).get? current r = some (e.apply v) ∧
          ∀ place, place ≠ s.placeOf current r →
            (s.edit current r e).at? place = s'.at? place := by
  have hlabelled := hs.labelled (labelled_program u instructions)
  refine ⟨hlabelled.indexed, fun current r hr => ?_⟩
  have htouch := hlabelled.touch current r
  have hlookup := Store.get?_touch hr
  have hindex := Variable.index_of_ref? (htouch.ref?_of_get? hlookup)
  have hheads := (s.preserves_touch current r).heads
  exact ⟨_, _, Store.fetch_eq hr, hindex, rfl, hlookup, hheads, htouch.indexed,
    s.fills_touch current r,
    fun e => ⟨Store.get?_edit hr e, fun place hplace => Store.at?_edit_of_ne e hplace⟩⟩

/-- A function with two arguments and one local stores into slot 5.  Then slot 7 and static 4 are
accessed, neither of which is there, and a temporary is added. -/
theorem tables_consistent_grown :
    let code : List UInt8 := [45, 2, 3, 0, 1, 102, 111, 57, 5, 46, 2, 0]
    let u : ScriptUnit := ⟨"u", code, 12, [7], #[], []⟩
    let instructions : List Bytecode.Instruction := [⟨0, 45, .enter 2 3 "f", 6⟩,
      ⟨6, 111, .impliedInt 1, 1⟩, ⟨7, 57, .imm8 5, 2⟩, ⟨9, 46, .ret 2 0, 3⟩]
    u.instructions = .ok instructions ∧ ∃ s f, (u.program instructions).Attains s ∧
      s.frames[0]? = some f ∧ f.locals.toList.map (·.index) = [2, 3, 4, 5, 6, 7] ∧ s.Indexed ∧
        s.Hosts 0 (.slot 9) ∧ ∃ v s', s.fetch 0 (.slot 9) = (some v, s') ∧ v.index = 9 ∧
          s'.get? 0 (.slot 9) = some v := by
  intro code u instructions
  let c : Context := ⟨u, .empty, false, 0⟩
  let accesses : List Action :=
    [.access 0 (.slot 7) (.observe .float), .access 0 (.static 4) (.rename "count"),
      .addTemp 0 .int]
  have hrun : (((u.program instructions).afterWithin 9 [c]).bind fun p =>
      (p.performAll accesses).store.frames[0]?).map (·.locals.toList.map (·.index)) =
        some [2, 3, 4, 5, 6, 7] := by decide +kernel
  obtain ⟨f, hf, hindexes⟩ := Option.map_eq_some_iff.1 hrun
  obtain ⟨p, hp, hf⟩ := Option.bind_eq_some_iff.1 hf
  have hs : (u.program instructions).Attains (p.performAll accesses).store := by
    rw [← performAll_of_afterWithin hp accesses]
    exact .behind _
  have hhosts : (p.performAll accesses).store.Hosts 0 (.slot 9) :=
    (Array.getElem?_eq_some_iff.1 hf).1
  obtain ⟨hindexed, hfetch⟩ := tables_consistent hs
  obtain ⟨v, s', hv, hindex, -, hlookup, -⟩ := hfetch 0 (.slot 9) hhosts
  exact ⟨by decide +kernel, _, f, hs, hf, hindexes, hindexed, hhosts, v, s', hv, hindex, hlookup⟩

end Programs

end Machine

end ScriptDecompiler
