import ScriptDecompiler.Proofs.Machine.Faults
import ScriptDecompiler.Proofs.Machine.Points
import ScriptDecompiler.Proofs.Machine.Results
import ScriptDecompiler.Proofs.Store.Names

/-!
# Names tell variables apart

A temporary that is passed to a native takes the name of the parameter.  If this name is taken, the
index of the temporary is added to it; whether the name with the index is taken is not asked, and a
variable that comes into being later does not ask either.

So two variables of a function have the same name only if a parameter of the database has a name
that imitates others: one that ends in an underscore and a number, or the stem of the names of
slots.  Otherwise names tell the variables of a function apart, at all times.  Arguments and locals
always have their default names.
-/

namespace ScriptDecompiler

namespace Native.Database

/-- Does no parameter have a name that would be taken for that of another variable? -/
def NamesPlainly (db : Database) : Prop :=
  ∀ name, db.Names name → ¬ Imitates name

theorem namesPlainly_empty : empty.NamesPlainly := by
  rintro name ⟨hash, signature, hlookup, -⟩
  cases hlookup

theorem NamesPlainly.insert {db : Database} (h : db.NamesPlainly) (hash : UInt64)
    {signature : Signature}
    (hparameters : ∀ parameter ∈ signature.parameters, ¬ Imitates parameter.name) :
    (db.insert hash signature).NamesPlainly := by
  rintro name ⟨hash', signature', hlookup, parameter, hmem, rfl⟩
  rw [Database.insert, lookup?, Table.get?_insert] at hlookup
  split at hlookup
  · cases hlookup
    exact hparameters parameter hmem
  · exact h parameter.name ⟨hash', signature', hlookup, parameter, hmem, rfl⟩

end Native.Database

namespace Machine

open ScriptDecompiler.Bytecode (Instruction)

section Programs

variable {c : Context} {k : Nat} {sound : Prop}

/-- The only names that temporaries get are those of parameters. -/
theorem names_of_occurs {index : Nat} {name : String} (h : Occurs c (.renameTemp index name)) :
    c.natives.Names name := by
  rcases h with ⟨i, hadmits⟩ | ⟨_, _, hreport, -⟩
  · exact hadmits.2
  · cases hreport

/-- An update while a function is decompiled. -/
theorem wellNamed_of_occurs (hsound : c.current = k → sound → c.natives.NamesPlainly)
    (u : Update) (s : Store) (hu : Occurs c u) (_ : u.Valid s) (h : s.WellNamed k sound) :
    (u.apply c.current s).WellNamed k sound := by
  refine h.apply fun index name hrename hk hholds => ?_
  subst hrename
  exact hsound hk.symm hholds name (names_of_occurs hu)

/-- Before anything is replayed there are no temporaries. -/
theorem wellNamed_program (u : ScriptUnit) (instructions : List Instruction) (k : Nat)
    (sound : Prop) : (u.program instructions).store.WellNamed k sound := by
  intro f hf
  rw [frames_program, List.getElem?_toArray, List.getElem?_map] at hf
  obtain ⟨built, hbuilt, rfl⟩ := Option.map_eq_some_iff.1 hf
  obtain ⟨address, name, arguments, slots, ty, hdeclare⟩ :=
    Flow.exists_declare_of_mem_buildFunctions (List.mem_of_getElem? hbuilt)
  rw [hdeclare]
  exact Frame.wellNamed_declare address name arguments slots _ sound

theorem wellNamed_after (u : ScriptUnit) (instructions : List Instruction) (order : List Context)
    (hsound : ∀ c ∈ order, c.current = k → sound → c.natives.NamesPlainly) :
    ((u.program instructions).after order).store.WellNamed k sound := by
  induction order using List.reverseRecOn with
  | nil => exact wellNamed_program u instructions k sound
  | append_singleton order c ih =>
      rw [Program.after_append_singleton]
      refine decompileFunction_keeps_store (P := (·.WellNamed k sound)) ?_ ?_
      · exact wellNamed_of_occurs (hsound c (by simp))
      · exact ih fun c hc => hsound c (by simp [hc])

/-- Names tell the variables of function `k` apart, at every point while functions of a unit are
decompiled in any order, unless a parameter that the databases know while `k` itself is decompiled
has a name that imitates others.  Whatever the databases know, arguments and locals have their
default names. -/
theorem identifiers_distinct (u : ScriptUnit) (instructions : List Instruction)
    (order : List Context) (k : Nat) :
    let p := (u.program instructions).after order
    let Plainly (contexts : List Context) : Prop :=
      ∀ c ∈ contexts, c.current = k → c.natives.NamesPlainly
    (∀ f, p.store.frames[k]? = some f →
        f.slotNames = defaultNames .slot 0 f.slotNames.length ∧
          (Plainly order → f.identifiers.Nodup)) ∧
      ∀ c x f, p.Passes c x → x.state.store.frames[k]? = some f →
        f.slotNames = defaultNames .slot 0 f.slotNames.length ∧
          (Plainly (order ++ [c]) → f.identifiers.Nodup) := by
  intro p Plainly
  have hafter : ∀ more, p.store.WellNamed k (Plainly (order ++ more)) := fun more =>
    wellNamed_after u instructions order fun c hc hk hplainly =>
      hplainly c (List.mem_append_left more hc) hk
  refine ⟨fun f hf => ?_, fun c x f hx hf => ?_⟩
  · have hnamed := hafter [] f hf
    rw [List.append_nil] at hnamed
    exact ⟨hnamed.slots, hnamed.nodup⟩
  · have hpoint : x.state.store.WellNamed k (Plainly (order ++ [c])) :=
      hx.keeps_store (P := (·.WellNamed k _))
        (wellNamed_of_occurs fun hk hplainly => hplainly c (by simp) hk) (hafter [c])
    exact ⟨(hpoint f hf).slots, (hpoint f hf).nodup⟩

/-- The result of one native is passed to another one. -/
theorem identifiers_distinct_renamed :
    let code : List UInt8 := [45, 1, 3, 0, 1, 102, 44, 1, 0, 0, 44, 4, 0, 1, 46, 1, 0]
    let u : ScriptUnit := ⟨"u", code, 17, [], #[0x800000000000, 0x1000000000000], []⟩
    let natives := (Native.Database.empty.insert 1 ⟨"GET_PED", none, [], .scalar "Ped"⟩).insert 4
      ⟨"DELETE_PED", none, [⟨"ped", .scalar "Ped"⟩], .void⟩
    let instructions : List Instruction := [⟨0, 45, .enter 1 3 "f", 6⟩, ⟨6, 44, .native 0 1 0, 4⟩,
      ⟨10, 44, .native 1 0 1, 4⟩, ⟨14, 46, .ret 1 0, 3⟩]
    u.instructions = .ok instructions ∧ natives.NamesPlainly ∧ ∃ f,
      ((u.program instructions).after [⟨u, natives, false, 0⟩]).store.frames[0]? = some f ∧
        f.identifiers = ["local_0", "local_1", "local_2", "ped"] ∧ f.identifiers.Nodup := by
  intro code u natives instructions
  have hrun : (((u.program instructions).afterWithin 9 [⟨u, natives, false, 0⟩]).bind fun p =>
      p.store.frames[0]?).map Frame.identifiers =
        some ["local_0", "local_1", "local_2", "ped"] := by decide +kernel
  obtain ⟨f, hf, hnames⟩ := Option.map_eq_some_iff.1 hrun
  obtain ⟨p, hp, hf⟩ := Option.bind_eq_some_iff.1 hf
  have hplainly : natives.NamesPlainly :=
    (Native.Database.namesPlainly_empty.insert 1 (by simp)).insert 4
      fun parameter hmem => List.mem_singleton.1 hmem ▸ not_imitates (by decide) (by decide)
  rw [← after_of_afterWithin hp] at hf
  have hdistinct := ((identifiers_distinct u instructions [⟨u, natives, false, 0⟩] 0).1 f hf).2
    fun c hc _ => List.mem_singleton.1 hc ▸ hplainly
  exact ⟨by decide +kernel, hplainly, f, hf, hnames, hdistinct⟩

/-- Two temporaries are passed to a native with parameters `ped` and `ped_0`, and take their names.
Then the first one is passed as `ped` once more.  This name is taken, by itself, so its index is
added to it; now it is `ped_0`, too. -/
theorem exists_identifiers_shared :
    let code : List UInt8 := [45, 0, 0, 0, 1, 102, 44, 1, 0, 0, 42, 44, 1, 0, 0, 44, 8, 0, 1,
      44, 4, 0, 2, 46, 0, 0]
    let u : ScriptUnit :=
      ⟨"u", code, 26, [], #[0x4000000000, 0x8000000000, 0x8000000000], []⟩
    let ped : Ty := .scalar "Ped"
    let natives := ((Native.Database.empty.insert 1 ⟨"GET_PED", none, [], ped⟩).insert 4
      ⟨"IS_PED_NEAR_PED", none, [⟨"ped", ped⟩, ⟨"ped_0", ped⟩], .void⟩).insert 8
      ⟨"DELETE_PED", none, [⟨"ped", ped⟩], .void⟩
    let instructions : List Instruction := [⟨0, 45, .enter 0 0 "f", 6⟩, ⟨6, 44, .native 0 1 0, 4⟩,
      ⟨10, 42, .none, 1⟩, ⟨11, 44, .native 0 1 0, 4⟩, ⟨15, 44, .native 2 0 1, 4⟩,
      ⟨19, 44, .native 1 0 2, 4⟩, ⟨23, 46, .ret 0 0, 3⟩]
    u.instructions = .ok instructions ∧ ∃ f,
      ((u.program instructions).after [⟨u, natives, false, 0⟩]).store.frames[0]? = some f ∧
        f.identifiers = ["ped_0", "ped_0"] ∧ ¬ f.identifiers.Nodup := by
  intro code u ped natives instructions
  have hrun : (((u.program instructions).afterWithin 9 [⟨u, natives, false, 0⟩]).bind fun p =>
      p.store.frames[0]?).map Frame.identifiers = some ["ped_0", "ped_0"] := by decide +kernel
  obtain ⟨f, hf, hnames⟩ := Option.map_eq_some_iff.1 hrun
  obtain ⟨p, hp, hf⟩ := Option.bind_eq_some_iff.1 hf
  rw [after_of_afterWithin hp]
  exact ⟨by decide +kernel, f, hf, hnames, by simp [hnames]⟩

end Programs

end Machine

end ScriptDecompiler
