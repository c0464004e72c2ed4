import ScriptDecompiler.Proofs.Machine.Courses
import ScriptDecompiler.Proofs.Machine.Statements

/-!
# What decompiling one function does to the others

While a function is decompiled, calls look into other functions, and what is known about a
parameter may come from an argument of the call.  Nothing else of another function changes.
Statics and globals are shared, but observations concern their types only; the same holds of
the arguments and locals of the function itself.
-/

namespace ScriptDecompiler

namespace Frame

/-- Is nothing changed but the types of arguments of which nothing was known? -/
structure LeftAlone (f f' : Frame) : Prop where
  address : f'.address = f.address
  name : f'.name = f.name
  locals : f'.locals = f.locals
  temporaries : f'.temporaries = f.temporaries
  result : f'.result = f.result
  arity : f'.arguments.size = f.arguments.size
  arguments : ∀ (position : Nat) (v : Variable), f.arguments[position]? = some v →
    ∃ v', f'.arguments[position]? = some v' ∧ (v' = v ∨ v.Alike v' ∧ v.ty = .unknown)

/-- Are the arguments and locals still there, with the same indexes and names? -/
structure KeepsNames (f f' : Frame) : Prop where
  arity : f'.arguments.size = f.arguments.size
  arguments : ∀ (position : Nat) (v : Variable), f.arguments[position]? = some v →
    ∃ v', f'.arguments[position]? = some v' ∧ v'.index = v.index ∧ v'.identifier = v.identifier
  locals : ∀ (position : Nat) (v : Variable), f.locals[position]? = some v →
    ∃ v', f'.locals[position]? = some v' ∧ v'.index = v.index ∧ v'.identifier = v.identifier

variable {current function : Nat} {f f' : Frame}

theorem at?_slot_add (f : Frame) (position : Nat) :
    f.at? (.slot (f.arguments.size + position)) = f.locals[position]? := by
  simp only [at?, Nat.add_sub_cancel_left]
  exact if_neg (Nat.not_lt.2 (Nat.le_add_right ..))

/-- A function that is not the current one. -/
theorem Develops.leftAlone (h : Develops current function f f') (hfunction : function ≠ current)
    (hhead : f'.head = f.head) : f.LeftAlone f' := by
  obtain ⟨haddress, hname, harity⟩ : f'.address = f.address ∧ f'.name = f.name ∧
      f'.arguments.size = f.arguments.size := by
    simpa [Frame.head] using hhead
  have hsame : ∀ spot, (∀ position, spot ≠ .argument position) → f'.at? spot = f.at? spot := by
    intro spot hspot
    refine (h spot).eq_of_not_isSeenFrom hfunction fun other position heq => ?_
    exact hspot position (Place.own.inj heq).2
  refine ⟨haddress, hname, ?_, ?_, ?_, harity, ?_⟩
  · apply Array.ext_getElem?
    intro position
    have hslot := hsame (.slot (f.arguments.size + position)) (by simp)
    rwa [f.at?_slot_add, ← harity, f'.at?_slot_add] at hslot
  · apply Array.ext_getElem?
    exact fun index => hsame (.temp index) (by simp)
  · have hresult := hsame .result (by simp)
    exact Option.some.inj hresult
  · intro position v hv
    rcases Place.Turns.eq_or_unknown hfunction (h (.argument position)) with hsame | hchanged
    · exact ⟨v, hsame.trans hv, Or.inl rfl⟩
    · obtain ⟨before, v', hbefore, hv', halike, hunknown⟩ := hchanged
      cases hv.symm.trans hbefore
      exact ⟨v', hv', Or.inr ⟨halike, hunknown⟩⟩

/-- Any function. -/
theorem Develops.keepsNames (h : Develops current function f f') (hhead : f'.head = f.head) :
    f.KeepsNames f' := by
  have harity : f'.arguments.size = f.arguments.size := congrArg Head.arguments hhead
  have hnames : ∀ spot v, (∀ index, spot ≠ .temp index) → f.at? spot = some v →
      ∃ v', f'.at? spot = some v' ∧ v'.index = v.index ∧ v'.identifier = v.identifier := by
    intro spot v hspot hv
    have hturns := h spot
    rw [hv] at hturns
    obtain ⟨v', hv', halike⟩ := hturns.alike fun index heq => hspot index (Place.own.inj heq).2
    exact ⟨v', hv', halike.fields.1, halike.fields.2.1⟩
  refine ⟨harity, fun position v hv => hnames (.argument position) v (by simp) hv, ?_⟩
  intro position v hv
  rw [← f.at?_slot_add] at hv
  obtain ⟨v', hv', hsame⟩ := hnames _ v (by simp) hv
  rw [← harity, f'.at?_slot_add] at hv'
  exact ⟨v', hv', hsame⟩

end Frame

namespace Store

theorem exists_frame_of_heads {s s' : Store} (h : s'.heads = s.heads) {k : Nat} {f : Frame}
    (hf : s.frames[k]? = some f) : ∃ f', s'.frames[k]? = some f' ∧ f'.head = f.head := by
  have hhead : s'.heads[k]? = some f.head := by
    rw [h, heads, Array.getElem?_map, hf, Option.map_some]
  rw [heads, Array.getElem?_map] at hhead
  exact Option.map_eq_some_iff.1 hhead

/-- A frame, while one function is replayed. -/
theorem Develops.exists_frame {current : Nat} {s s' : Store} (h : s.Develops current s')
    (hheads : s'.heads = s.heads) {k : Nat} {f : Frame} (hf : s.frames[k]? = some f) :
    ∃ f', s'.frames[k]? = some f' ∧ f'.head = f.head ∧ Frame.Develops current k f f' := by
  obtain ⟨f', hf', hhead⟩ := exists_frame_of_heads hheads hf
  refine ⟨f', hf', hhead, fun spot => ?_⟩
  have hturns := h (.own k spot)
  rwa [at?, at?, hf, hf'] at hturns

end Store

namespace Machine

/-- Decompiling a function, whether it meets a fault or not, leaves the graphs of the other
functions and everything about their variables alone, except that it may find out the type of
an argument of which nothing is known.  It only adds reports.  The statics and globals stay,
with their indexes, names, kinds and initial values, and so do the arguments and locals of the
function itself, with their indexes and names. -/
theorem decompileFunction_isolated (p : Program) (c : Context) :
    ∃ fault p', p.decompileFunction c = (fault, p') ∧
      p'.graphs.size = p.graphs.size ∧ p'.store.frames.size = p.store.frames.size ∧
      (∀ k, k ≠ c.current → p'.graphs[k]? = p.graphs[k]? ∧
        ∀ f, p.store.frames[k]? = some f →
          ∃ f', p'.store.frames[k]? = some f' ∧ f.LeftAlone f') ∧
      (∃ reports, p'.store.diagnostics = p.store.diagnostics ++ reports) ∧
      (∀ index v, p.store.globals.statics.get? index = some v →
        ∃ v', p'.store.globals.statics.get? index = some v' ∧ v'.index = v.index ∧
          v'.identifier = v.identifier ∧ v'.kind = v.kind ∧ v'.initial = v.initial) ∧
      (∀ index v, p.store.globals.globals.get? index = some v →
        ∃ v', p'.store.globals.globals.get? index = some v' ∧ v'.index = v.index ∧
          v'.identifier = v.identifier ∧ v'.kind = v.kind ∧ v'.initial = v.initial) ∧
      ∀ f, p.store.frames[c.current]? = some f →
        ∃ f', p'.store.frames[c.current]? = some f' ∧ f'.address = f.address ∧
          f'.name = f.name ∧ f.KeepsNames f' := by
  obtain ⟨course, hcourse⟩ := exists_runs_decompileFunction p c
  have hdevelops := hcourse.leads.develops hcourse.replayed
  have hheads := hcourse.leads.heads
  have hshared : ∀ place v, (∀ index, place ≠ .own c.current (.temp index)) →
      p.store.at? place = some v → ∃ v', (p.decompileFunction c).2.store.at? place = some v' ∧
        v'.index = v.index ∧ v'.identifier = v.identifier ∧ v'.kind = v.kind ∧
          v'.initial = v.initial := by
    intro place v hplace hv
    have hturns := hdevelops place
    rw [hv] at hturns
    obtain ⟨v', hv', halike⟩ := hturns.alike hplace
    exact ⟨v', hv', halike.fields⟩
  have hsize : (p.decompileFunction c).2.store.frames.size = p.store.frames.size :=
    Store.size_frames_of_heads hheads
  refine ⟨_, _, rfl, size_graphs_decompileFunction p c, hsize,
    fun k hk => ⟨graphs_decompileFunction p c hk, fun f hf => ?_⟩, hcourse.leads.diagnostics,
    fun index v hv => hshared (.static index) v (by simp) hv,
    fun index v hv => hshared (.global index) v (by simp) hv, fun f hf => ?_⟩
  · obtain ⟨f', hf', hhead, hframe⟩ := hdevelops.exists_frame hheads hf
    exact ⟨f', hf', hframe.leftAlone hk hhead⟩
  · obtain ⟨f', hf', hhead, hframe⟩ := hdevelops.exists_frame hheads hf
    exact ⟨f', hf', congrArg Head.address hhead, congrArg Head.name hhead,
      hframe.keepsNames hhead⟩

end Machine

end ScriptDecompiler
