import ScriptDecompiler.Proofs.Machine.Results
import ScriptDecompiler.Proofs.Store.Courses

/-!
# Runs as courses of updates

Whatever is replayed, in whatever order functions are decompiled, and whether they meet a
fault or not: the store goes through a course of updates, and every state in which an
instruction is replayed is a moment of it.
-/

namespace ScriptDecompiler.Machine

open ScriptDecompiler.Bytecode (Instruction)
open ScriptDecompiler.Flow (Block Graph)

/-- Does the course lead from one store to the other while these functions are replayed, and
are these stores among its moments?  In which order the course passes through the stores of one
decompilation is not said. -/
structure Runs (functions : Nat → Prop) (before : Store) (course : List (Nat × Update))
    (after : Store) (moments : Store → Prop) : Prop where
  leads : before.Course course after
  replayed : ∀ step ∈ course, functions step.1
  passes : ∀ s, moments s → before.Passes course s

namespace Runs

variable {functions functions' : Nat → Prop} {before middle after : Store}
  {front back : List (Nat × Update)} {moments moments' : Store → Prop}

theorem refl (functions : Nat → Prop) (s : Store) : Runs functions s [] s (· = s) :=
  ⟨.nil s, by simp, fun _ h => h ▸ .self s []⟩

theorem mono (h : Runs functions before front after moments)
    (hfunctions : ∀ k, functions k → functions' k) (hmoments : ∀ s, moments' s → moments s) :
    Runs functions' before front after moments' :=
  ⟨h.leads, fun step hstep => hfunctions _ (h.replayed step hstep),
    fun s hs => h.passes s (hmoments s hs)⟩

theorem append (h : Runs functions before front middle moments)
    (h' : Runs functions middle back after moments') :
    Runs functions before (front ++ back) after fun s => moments s ∨ moments' s := by
  refine ⟨h.leads.append h'.leads, fun step hstep => ?_, fun s hs => ?_⟩
  · rcases List.mem_append.1 hstep with hstep | hstep
    · exact h.replayed step hstep
    · exact h'.replayed step hstep
  · rcases hs with hs | hs
    · exact (h.passes s hs).append back
    · exact (h'.passes s hs).behind h.leads

end Runs

section Replays

variable {c : Context}

/-- What a part of a replay does to the store. -/
theorem Replay.Makes.exists_runs {admits : Update → Prop} {adds : Stmt → Prop} {pushes : Prop}
    {α : Type} {x : Replay α} (h : Makes (Store.Performs c.current admits) adds pushes x)
    (s : State) :
    ∃ course, Runs (· = c.current) s.store course (x s).2.store (· = s.store) := by
  have hchanges := h s
  generalize (x s).2 = s' at hchanges
  induction hchanges with
  | refl => exact ⟨[], .refl _ s.store⟩
  | tail _ hchange ih =>
      obtain ⟨course, hcourse⟩ := ih
      cases hchange with
      | pop | push | emit => exact ⟨course, hcourse⟩
      | store hstore =>
          obtain ⟨u, -, hvalid, rfl⟩ := hstore
          have hlast : Runs (· = c.current) _ [(c.current, u)] _ (fun _ => False) :=
            ⟨.single hvalid, by simp, fun _ h => h.elim⟩
          exact ⟨_, (hcourse.append hlast).mono (fun _ => id) fun _ => Or.inl⟩

theorem exists_runs_replayInstruction (c : Context) (i : Instruction) (s : State) :
    ∃ course, Runs (· = c.current) s.store course (replayInstruction c i s).2.store
      (· = s.store) := by
  rw [replayInstruction_apply]
  exact (Replay.makes_step c i).exists_runs
    { s with emitted := s.emitted ++ comments c [i] }

/-- Instructions up to the first one that is at fault. -/
theorem exists_runs_replay (c : Context) (start : State) (body : List Instruction) :
    ∃ course, Runs (· = c.current) start.store course (replay c start body).2.store
      fun store => ∃ i s, ReplaysIn c start body i s ∧ s.store = store := by
  induction body generalizing start with
  | nil =>
      refine ⟨[], (Runs.refl _ start.store).mono (fun _ => id) ?_⟩
      rintro _ ⟨i, s, ⟨before, after, hsplit, -⟩, -⟩
      simp at hsplit
  | cons first body ih =>
      rw [replay_cons]
      cases hfault : fault? c start.store.frames first with
      | some fault =>
          refine ⟨[], (Runs.refl _ start.store).mono (fun _ => id) ?_⟩
          rintro _ ⟨i, s, ⟨before, after, hsplit, hbefore⟩, rfl⟩
          cases before with
          | nil =>
              cases hbefore
              rfl
          | cons j before =>
              obtain ⟨rfl, -⟩ := List.cons.inj hsplit
              cases hfault.symm.trans (replay_cons_eq_none_iff.1 hbefore).1
      | none =>
          obtain ⟨front, hfront⟩ := exists_runs_replayInstruction c first start
          obtain ⟨back, hback⟩ := ih (replayInstruction c first start).2
          refine ⟨front ++ back, (hfront.append hback).mono (fun _ => id) ?_⟩
          have hmoments : ∀ i s, ReplaysIn c start (first :: body) i s →
              s.store = start.store ∨ ∃ i s', ReplaysIn c (replayInstruction c first start).2 body
                i s' ∧ s'.store = s.store :=
            (forall_replaysIn_cons hfault).2 ⟨Or.inl rfl, fun i s hs => Or.inr ⟨i, s, hs, rfl⟩⟩
          rintro _ ⟨i, s, hs, rfl⟩
          exact hmoments i s hs

theorem exists_runs_handOff (c : Context) (stack : List Expr) (target : Nat) (g : Graph)
    (store : Store) :
    ∃ course, Runs (· = c.current) store course (handOff c stack target g store).2
      (· = store) := by
  rcases handOff_store c stack target g store with hs | ⟨expected, hs⟩ <;> rw [hs]
  · exact ⟨[], .refl _ store⟩
  · have hvalid : (Update.report target
        (.entryStackMismatch target expected stack.length)).Valid store := rfl
    exact ⟨_, .single hvalid, by simp, fun _ h => h ▸ .self store _⟩

theorem exists_runs_handOffAll (c : Context) (stack : List Expr) (targets : List Nat) (g : Graph)
    (store : Store) :
    ∃ course, Runs (· = c.current) store course (handOffAll c stack targets g store).2
      (· = store) := by
  induction targets generalizing g store with
  | nil => exact ⟨[], .refl _ store⟩
  | cons target rest ih =>
      obtain ⟨front, hfront⟩ := exists_runs_handOff c stack target g store
      obtain ⟨back, hback⟩ := ih (handOff c stack target g store).1 _
      exact ⟨front ++ back, (hfront.append hback).mono (fun _ => id) fun _ => Or.inl⟩

end Replays

section Walks

variable {c : Context} {g : Graph} {store : Store} {worklist : List Nat}
  {visits visits' : List Visit} {out out' : Option Fault × Graph × Store}

/-- There is only one walk. -/
theorem Walk.unique (h : Walk c g store worklist visits out)
    (h' : Walk c g store worklist visits' out') : visits = visits' := by
  induction h generalizing visits' with
  | done => cases h' with
    | done => rfl
  | skip hvisited _ ih =>
      cases h' with
      | skip _ hrest => exact ih hrest
      | stop _ hblock hnew _ => simp [hvisited _ hblock] at hnew
      | visit hblock hnew _ _ => simp [hvisited _ hblock] at hnew
  | stop _ hblock hnew hreplay =>
      cases h' with
      | skip hvisited _ => simp [hvisited _ hblock] at hnew
      | stop _ hblock' _ hreplay' =>
          cases hblock.symm.trans hblock'
          cases hreplay.symm.trans hreplay'
          rfl
      | visit hblock' _ hreplay' _ =>
          cases hblock.symm.trans hblock'
          cases hreplay.symm.trans hreplay'
  | visit hblock hnew hreplay _ ih =>
      cases h' with
      | skip hvisited _ => simp [hvisited _ hblock] at hnew
      | stop _ hblock' _ hreplay' =>
          cases hblock.symm.trans hblock'
          cases hreplay.symm.trans hreplay'
      | visit hblock' _ hreplay' hrest =>
          cases hblock.symm.trans hblock'
          cases hreplay.symm.trans hreplay'
          rw [ih hrest]

/-- The stores in which instructions are replayed. -/
def replayedIn (c : Context) (visits : List Visit) (store : Store) : Prop :=
  ∃ v ∈ visits, ∃ i s, ReplaysIn c v.before v.block.instructions i s ∧ s.store = store

theorem Walk.exists_runs (h : Walk c g store worklist visits out) :
    ∃ course, Runs (· = c.current) store course out.2.2 (replayedIn c visits) := by
  induction h with
  | done g store =>
      exact ⟨[], (Runs.refl _ store).mono (fun _ => id) (by simp [replayedIn])⟩
  | skip _ _ ih => exact ih
  | @stop g store start b fault s rest hblock hnew hreplay =>
      obtain ⟨course, hcourse⟩ := exists_runs_replay c (opening b store) b.instructions
      rw [hreplay] at hcourse
      refine ⟨course, hcourse.mono (fun _ => id) ?_⟩
      rintro _ ⟨v, hv, i, s', hs', rfl⟩
      rw [List.mem_singleton.1 hv] at hs'
      exact ⟨i, s', hs', rfl⟩
  | @visit g store start rest b s visits out hblock hnew hreplay _ ih =>
      obtain ⟨front, hfront⟩ := exists_runs_replay c (opening b store) b.instructions
      rw [hreplay] at hfront
      obtain ⟨middle, hmiddle⟩ :=
        exists_runs_handOffAll c s.stack b.successors (mark g b.start) s.store
      obtain ⟨back, hback⟩ := ih
      refine ⟨_, ((hfront.append hmiddle).append hback).mono (fun _ => id) ?_⟩
      rintro _ ⟨v, hv, i, s', hs', rfl⟩
      rcases List.mem_cons.1 hv with rfl | hv
      · exact Or.inl (Or.inl ⟨i, s', hs', rfl⟩)
      · exact Or.inr ⟨v, hv, i, s', hs', rfl⟩

end Walks

section Programs

theorem exists_runs_decompileFunction (p : Program) (c : Context) :
    ∃ course, Runs (· = c.current) p.store course (p.decompileFunction c).2.store
      fun store => ∃ i s, Replays p c i s ∧ s.store = store := by
  cases hgraph : p.graphs[c.current]? with
  | none =>
      refine ⟨[], ?_⟩
      unfold Program.decompileFunction
      simp only [hgraph]
      refine (Runs.refl _ p.store).mono (fun _ => id) ?_
      rintro _ ⟨i, s, ⟨g, -, -, hsome, -⟩, -⟩
      rw [hgraph] at hsome
      cases hsome
  | some g =>
      obtain ⟨visits, out, hwalk, hrun⟩ := decompileFunction_eq hgraph
      obtain ⟨course, hcourse⟩ := hwalk.exists_runs
      rw [hrun]
      refine ⟨course, hcourse.mono (fun _ => id) ?_⟩
      rintro _ ⟨i, s, ⟨g', visits', out', hgraph', hwalk', v, hv, hs⟩, rfl⟩
      cases hgraph.symm.trans hgraph'
      exact ⟨v, hwalk.unique hwalk' ▸ hv, i, s, hs, rfl⟩

/-- Functions that are decompiled in any order. -/
theorem exists_runs_after (p : Program) (order : List Context) :
    ∃ course, Runs (fun k => ∃ c ∈ order, k = c.current) p.store course (p.after order).store
      fun store => ∃ before c later i s, order = before ++ c :: later ∧
        Replays (p.after before) c i s ∧ s.store = store := by
  induction order generalizing p with
  | nil =>
      refine ⟨[], (Runs.refl _ p.store).mono (fun _ => id) ?_⟩
      rintro _ ⟨before, c, later, i, s, hsplit, -⟩
      simp at hsplit
  | cons first order ih =>
      obtain ⟨front, hfront⟩ := exists_runs_decompileFunction p first
      obtain ⟨back, hback⟩ := ih (p.decompileFunction first).2
      have hfirst : Runs (fun k => ∃ c ∈ first :: order, k = c.current) _ front _ _ :=
        hfront.mono (fun _ hk => ⟨first, List.mem_cons_self, hk⟩) fun _ => id
      have hrest : Runs (fun k => ∃ c ∈ first :: order, k = c.current) _ back _ _ :=
        hback.mono (fun _ ⟨c, hc, hk⟩ => ⟨c, List.mem_cons_of_mem _ hc, hk⟩) fun _ => id
      refine ⟨front ++ back, (hfirst.append hrest).mono (fun _ => id) ?_⟩
      rintro _ ⟨before, c, later, i, s, hsplit, hs, rfl⟩
      cases before with
      | nil =>
          obtain ⟨rfl, rfl⟩ := List.cons.inj hsplit
          exact Or.inl ⟨i, s, hs, rfl⟩
      | cons c' before =>
          obtain ⟨rfl, htail⟩ := List.cons.inj hsplit
          exact Or.inr ⟨before, c, later, i, s, htail, hs, rfl⟩

/-- Finding that an expression has a type that conflicts with what is settled about the
variable below it. -/
theorem infer_of_conflict? {c : Context} {address : Nat} {e : Expr} {ty seen : Ty} {r : VarRef}
    {v : Variable} {kind : DiagnosticKind} {s : State} (hseen : e.observed? ty = some (r, seen))
    (hv : s.store.get? c.current r = some v) (hconflict : v.conflict? seen = some kind) :
    Replay.infer c address e ty s =
      ((), { s with store := s.store.diagnose c.current address kind }) := by
  have hmet : (Update.observe address r seen).conflict? c.current s.store =
      some (address, kind) := by
    simp [Update.conflict?, hv, hconflict]
  have happly := (Update.apply_of_conflict? hmet).1
  rw [Replay.infer_eq, hseen]
  exact congrArg (fun store => ((), { s with store := store })) happly

/-- Finding that a result has a type that conflicts with what is settled about it. -/
theorem inferResult_of_conflict? {c : Context} {address : Nat} {ty : Ty} {v : Variable}
    {kind : DiagnosticKind} {s : State} (hv : s.store.result? c.current = some v)
    (hconflict : v.conflict? ty = some kind) :
    Replay.inferResult c address ty s =
      ((), { s with store := s.store.diagnose c.current address kind }) := by
  have hmet : (Update.observeResult address ty).conflict? c.current s.store =
      some (address, kind) := by
    simp [Update.conflict?, hv, hconflict]
  have happly := (Update.apply_of_conflict? hmet).1
  rw [Replay.inferResult_eq]
  exact congrArg (fun store => ((), { s with store := store })) happly

/-- What is known about types only grows.  However functions are decompiled, the run is a
course of updates, and every state in which an instruction is replayed is a moment of it.

A variable whose type is settled at one moment is there at every later one, its type is still
settled, and says as much.  Where a replay finds that a variable of its function, or the result,
has a type that conflicts with what is settled, it adds one report about that and does nothing
else; no other update adds such a report.  So the reports about conflicts are those of the
conflicts met. -/
theorem knowledge_only_grows (p : Program) (order : List Context) :
    ∃ course, Runs (fun k => ∃ c ∈ order, k = c.current) p.store course (p.after order).store
        (fun store => ∃ before c later i s, order = before ++ c :: later ∧
          Replays (p.after before) c i s ∧ s.store = store) ∧
      (∀ front middle back earlier later, course = front ++ middle ++ back →
        p.store.Course front earlier → earlier.Course middle later →
          ∀ place v, earlier.at? place = some v → v.locked = true →
            ∃ v', later.at? place = some v' ∧ v'.locked = true ∧ v.ty.Below v'.ty) ∧
      (∀ c address e ty seen r v kind s, e.observed? ty = some (r, seen) →
        s.store.get? c.current r = some v → v.conflict? seen = some kind →
          Replay.infer c address e ty s =
            ((), { s with store := s.store.diagnose c.current address kind })) ∧
      (∀ c address ty v kind s, s.store.result? c.current = some v → v.conflict? ty = some kind →
        Replay.inferResult c address ty s =
          ((), { s with store := s.store.diagnose c.current address kind })) ∧
      (∀ front current u back s, course = front ++ (current, u) :: back →
        p.store.Course front s →
          match u.conflict? current s with
          | some (address, kind) =>
            kind.isConflict = true ∧ u.apply current s = s.diagnose current address kind
          | none => (u.apply current s).conflicts = s.conflicts) ∧
      (p.after order).store.conflicts = p.store.conflicts ++ p.store.conflictsMet course := by
  obtain ⟨course, hcourse⟩ := exists_runs_after p order
  refine ⟨course, hcourse, ?_, fun c address e ty seen r v kind s => infer_of_conflict?,
    fun c address ty v kind s => inferResult_of_conflict?, ?_, hcourse.leads.conflicts⟩
  · rintro front middle back earlier later - - hmiddle place v hv hlocked
    obtain ⟨v', hv', hgrows⟩ := hmiddle.grows place v hv
    exact ⟨v', hv', hgrows hlocked⟩
  · rintro front current u back s rfl hfront
    have hvalid : u.Valid s := by
      obtain ⟨s', hfront', hback⟩ := hcourse.leads.of_append
      rw [hfront.unique hfront']
      cases hback with
      | cons hvalid _ => exact hvalid
    cases hmet : u.conflict? current s with
    | none => exact Update.conflicts_apply hvalid hmet
    | some report => exact (Update.apply_of_conflict? hmet).symm

end Programs

end ScriptDecompiler.Machine
