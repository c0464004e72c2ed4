import Mathlib.Data.List.Nodup
import ScriptDecompiler.Proofs.Machine.Replay
import ScriptDecompiler.Proofs.Expr.Slots

/-!
# The layout of a struct

The slots of a struct are counted in three places: where a field is looked up by its slot, where a
value is exploded into its slots, and where the type of a field is looked up by its name.  If the
fields have different names and each one takes a slot, the three agree: a field is found where it
starts, behind the slots of the fields in front of it, and only there; there its slots begin when
the struct is exploded; and its name has its type (`Ty.struct_readings_agree`).

The lookup by slot computes in words of 64 bits.  So this is about structs of fewer than `2 ^ 64`
slots; in a larger one the starts of the fields wrap around, and the agreement is lost.
-/

namespace ScriptDecompiler

namespace Fields

variable {fields rest : Fields} {name : String} {ty : Ty} {f : String × Ty} {slot : Nat}

/-- The field starts at a slot if those in front of it take that many. -/
def StartsAt (fields : Fields) (f : String × Ty) (slot : Nat) : Prop :=
  ∃ earlier later, fields.toList = earlier ++ f :: later ∧ (ofList earlier).footprint = slot

theorem StartsAt.mem (h : fields.StartsAt f slot) : f ∈ fields.toList := by
  obtain ⟨earlier, later, heq, -⟩ := h
  rw [heq]
  exact List.mem_append_right _ List.mem_cons_self

theorem exists_startsAt (h : f ∈ fields.toList) : ∃ slot, fields.StartsAt f slot := by
  obtain ⟨earlier, later, heq⟩ := List.append_of_mem h
  exact ⟨_, earlier, later, heq, rfl⟩

/-- A field of which there is only one starts at one slot. -/
theorem StartsAt.unique (hdistinct : fields.toList.Nodup) {other : Nat}
    (h : fields.StartsAt f slot) (h' : fields.StartsAt f other) : slot = other := by
  obtain ⟨earlier, later, heq, rfl⟩ := h
  obtain ⟨earlier', later', heq', rfl⟩ := h'
  have hnot : f ∉ earlier ∧ f ∉ later := by
    rw [heq, List.nodup_middle, List.nodup_cons, List.mem_append, not_or] at hdistinct
    exact hdistinct.1
  obtain ⟨rfl, -⟩ := (List.append_cons_inj_of_notMem hnot.1 hnot.2).1 (heq.symm.trans heq')
  rfl

theorem not_startsAt_nil : ¬nil.StartsAt f slot :=
  fun h => List.not_mem_nil h.mem

/-- The first field starts at once, the others behind it. -/
theorem startsAt_cons : (cons name ty rest).StartsAt f slot ↔
    f = (name, ty) ∧ slot = 0 ∨ ∃ k, rest.StartsAt f k ∧ slot = ty.footprint + k := by
  constructor
  · rintro ⟨earlier, later, heq, rfl⟩
    cases earlier with
    | nil => exact Or.inl ⟨(List.cons.inj heq).1.symm, rfl⟩
    | cons first earlier =>
        obtain ⟨hfirst, hrest⟩ := List.cons.inj heq
        cases hfirst
        exact Or.inr ⟨_, ⟨earlier, later, hrest, rfl⟩, rfl⟩
  · rintro (⟨rfl, rfl⟩ | ⟨k, ⟨earlier, later, heq, rfl⟩, rfl⟩)
    · exact ⟨[], rest.toList, rfl, rfl⟩
    · exact ⟨(name, ty) :: earlier, later, congrArg _ heq, rfl⟩

theorem StartsAt.lt_footprint : {fields : Fields} → (∀ f ∈ fields.toList, 0 < f.2.footprint) →
    ∀ {f : String × Ty} {slot : Nat}, fields.StartsAt f slot → slot < fields.footprint
  | nil, _, _, _, h => absurd h not_startsAt_nil
  | cons name ty rest, hsizes, f, slot, h => by
      obtain ⟨hfirst, hrest⟩ := List.forall_mem_cons.1 hsizes
      rw [footprint]
      rcases startsAt_cons.1 h with ⟨-, rfl⟩ | ⟨k, hk, rfl⟩
      · exact Nat.lt_of_lt_of_le hfirst (Nat.le_add_right ..)
      · exact Nat.add_lt_add_left (hk.lt_footprint hrest) _

/-- The same for fields of which the first one starts at `start`. -/
theorem exists_startsAt_cons {start : Nat} :
    (∃ k, (cons name ty rest).StartsAt f k ∧ slot = start + k) ↔
      f = (name, ty) ∧ slot = start ∨ ∃ k, rest.StartsAt f k ∧ slot = start + ty.footprint + k := by
  constructor
  · rintro ⟨k, hk, rfl⟩
    rcases startsAt_cons.1 hk with ⟨hf, rfl⟩ | ⟨j, hj, rfl⟩
    · exact Or.inl ⟨hf, rfl⟩
    · exact Or.inr ⟨j, hj, (Nat.add_assoc ..).symm⟩
  · rintro (⟨hf, rfl⟩ | ⟨j, hj, rfl⟩)
    · exact ⟨0, startsAt_cons.2 (Or.inl ⟨hf, rfl⟩), rfl⟩
    · exact ⟨_, startsAt_cons.2 (Or.inr ⟨j, hj, rfl⟩), Nat.add_assoc ..⟩

/-- A field is found by its slot exactly where it starts, if all slots can be counted in a word. -/
theorem at?_eq_some_iff : {fields : Fields} → (∀ f ∈ fields.toList, 0 < f.2.footprint) →
    ∀ {start : UInt64}, start.toNat + fields.footprint < UInt64.size →
      ∀ {f : String × Ty} {slot : Nat},
        fields.at? start slot = some f ↔ ∃ k, fields.StartsAt f k ∧ slot = start.toNat + k
  | nil, _, _, _, f, slot => by
      refine iff_of_false (by simp [at?]) ?_
      rintro ⟨k, hk, -⟩
      exact not_startsAt_nil hk
  | cons name ty rest, hsizes, start, hfits, f, slot => by
      obtain ⟨hfirst, hrest⟩ := List.forall_mem_cons.1 hsizes
      rw [footprint] at hfits
      have hnext : (start + ty.stackSize).toNat = start.toNat + ty.footprint := by
        rw [UInt64.toNat_add, Ty.toNat_stackSize_of_lt (by omega)]
        exact Nat.mod_eq_of_lt (show start.toNat + ty.footprint < UInt64.size by omega)
      rw [exists_startsAt_cons, at?]
      split
      · rename_i hslot
        have hbehind : ¬∃ k, rest.StartsAt f k ∧ slot = start.toNat + ty.footprint + k := by
          rintro ⟨k, -, hk⟩
          dsimp only at hfirst
          omega
        rw [Option.some.injEq, or_iff_left hbehind, eq_comm]
        exact (and_iff_left hslot.symm).symm
      · rename_i hslot
        rw [or_iff_right fun h => hslot h.2.symm, at?_eq_some_iff hrest (by omega), hnext]

theorem length_slots : (fields : Fields) → ∀ base : Expr,
    (fields.slots base).length = fields.footprint
  | nil, _ => rfl
  | cons name ty rest, base => by
      rw [slots_cons, List.length_append, ty.length_component, rest.length_slots, footprint]

/-- The slots of a field begin where the field starts. -/
theorem getElem?_slots : {fields : Fields} → (∀ f ∈ fields.toList, 0 < f.2.footprint) →
    ∀ {f : String × Ty} {slot : Nat}, fields.StartsAt f slot → ∀ base : Expr,
      (fields.slots base)[slot]? = (f.2.component (.field base f.1)).head?
  | nil, _, _, _, h, _ => absurd h not_startsAt_nil
  | cons name ty rest, hsizes, f, slot, h, base => by
      obtain ⟨hfirst, hrest⟩ := List.forall_mem_cons.1 hsizes
      rw [slots_cons]
      have hlength := ty.length_component (.field base name)
      rcases startsAt_cons.1 h with ⟨rfl, rfl⟩ | ⟨k, hk, rfl⟩
      · rw [List.getElem?_append_left (hlength ▸ hfirst), List.head?_eq_getElem?]
      · rw [List.getElem?_append_right (hlength ▸ Nat.le_add_right ..), hlength,
          Nat.add_sub_cancel_left, getElem?_slots hrest hk]

end Fields

namespace Ty

/-- A component of one slot is taken as it is, any other one is exploded. -/
theorem component_eq (ty : Ty) (node : Expr) :
    ty.component node = if ty.footprint = 1 then [node] else ty.explode node ty.footprint := by
  unfold component
  split
  · rename_i hzero
    rw [if_neg (by omega), hzero]
    exact (List.eq_nil_of_length_eq_zero (ty.length_explode node 0)).symm
  · rename_i hone
    rw [if_pos hone]
  · rename_i hone
    rw [if_neg hone]
    rfl

/-- The first slot of a component is the component, or the first one that it is exploded into. -/
theorem head?_component {ty : Ty} (hpos : 0 < ty.footprint) (node : Expr) :
    ∃ part, (ty.component node).head? = some part ∧ (ty.footprint = 1 → part = node) ∧
      (ty.footprint ≠ 1 → (ty.explode node ty.footprint).head? = some part) := by
  rw [component_eq]
  split
  · rename_i hone
    exact ⟨node, rfl, fun _ => rfl, fun hmany => absurd hone hmany⟩
  · rename_i hmany
    have hlength := ty.length_explode node ty.footprint
    obtain ⟨part, parts, hparts⟩ := List.exists_cons_of_length_pos (hlength.symm ▸ hpos)
    rw [hparts]
    exact ⟨part, rfl, fun hone => absurd hone hmany, fun _ => rfl⟩

/-- In a struct whose slots can be counted in a word, a field is found exactly where it starts. -/
theorem fieldAt?_struct_iff {name : String} {fields : Fields}
    (hsizes : ∀ f ∈ fields.toList, 0 < f.2.footprint) (hfits : fields.footprint < UInt64.size)
    {f : String × Ty} {slot : Nat} :
    (struct name fields).fieldAt? slot = some f ↔ fields.StartsAt f slot := by
  have hstart : (0 : UInt64).toNat + fields.footprint < UInt64.size :=
    (Nat.zero_add fields.footprint).symm ▸ hfits
  rw [fieldAt?, Fields.at?_eq_some_iff hsizes hstart]
  simp only [UInt64.toNat_zero, Nat.zero_add, exists_eq_right']

/-- A struct, and a pointer to one, is exploded into the slots of its fields. -/
theorem explode_struct {name : String} {fields : Fields} {base : Expr} {whole : Ty}
    (hliteral : ∀ elements, base ≠ .arrayLiteral elements)
    (hwhole : whole ∈ [struct name fields, .pointer (.struct name fields)]) :
    whole.explode base fields.footprint = fields.slots base := by
  have hstruct : (struct name fields).explode base fields.footprint = fields.slots base :=
    Expr.spread_of_length_eq hliteral (fields.length_slots base)
  simp only [List.mem_cons, List.not_mem_nil, or_false] at hwhole
  rcases hwhole with rfl | rfl
  · exact hstruct
  · rw [explode_pointer hliteral]
    exact hstruct

end Ty

namespace Machine.Replay

/-- A field that is found by its slot is selected by its name. -/
theorem selectField_eq {c : Context} {s : State} {base : Expr} {slot : Nat} {f : String × Ty}
    (hslot : slot < UInt64.size)
    (h : (base.typeIn (s.store.scope c.current)).fieldAt? slot = some f) :
    selectField c base slot s = (.field base f.1, s) := by
  have htype : typeOf c base s = (base.typeIn (s.store.scope c.current), s) := rfl
  have hword : (UInt64.ofInt slot).toNat = slot := by
    rw [UInt64.size] at hslot
    rw [UInt64.ofInt, UInt64.toNat_ofNat']
    omega
  unfold selectField
  rw [bind_apply, htype]
  dsimp only
  rw [hword, h]
  rfl

end Machine.Replay

namespace Ty

open ScriptDecompiler.Machine (Context State)
open ScriptDecompiler.Machine.Replay (selectField selectField_eq)

/-- The readings of the layout of a struct agree, on the struct and on a pointer to it, if its
slots can be counted in a word.  A field is found at a slot if and only if it starts there.  Then
its name has its type, its slots begin there among those that the value is exploded into, and an
instruction that selects by this slot selects the field.  Every field is found at one slot. -/
theorem struct_readings_agree {name : String} {fields : Fields} {scope : Scope} {base : Expr}
    (hnames : (fields.toList.map (·.1)).Nodup) (hsizes : ∀ f ∈ fields.toList, 0 < f.2.footprint)
    (hfits : fields.footprint < UInt64.size)
    (hbase : base.typeIn scope = .struct name fields ∨
      base.typeIn scope = .pointer (.struct name fields)) :
    let ty := Ty.struct name fields
    (∀ slot < ty.footprint, ∀ f, ∀ whole ∈ [ty, .pointer ty],
      (whole.fieldAt? slot = some f ↔ fields.StartsAt f slot) ∧
      (fields.StartsAt f slot →
        (Expr.field base f.1).typeIn scope = f.2 ∧
        (∃ part, (whole.explode base ty.footprint)[slot]? = some part ∧
          (f.2.footprint = 1 → part = .field base f.1) ∧
          (f.2.footprint ≠ 1 →
            (f.2.explode (.field base f.1) f.2.footprint).head? = some part)) ∧
        ∀ (c : Context) (s : State), s.store.scope c.current = scope →
          selectField c base slot s = (.field base f.1, s))) ∧
      ∀ f ∈ fields.toList, ∃ slot < ty.footprint,
        ∀ other, ty.fieldAt? other = some f ↔ other = slot := by
  intro ty
  have hfound : ∀ slot f, ty.fieldAt? slot = some f ↔ fields.StartsAt f slot :=
    fun _ _ => fieldAt?_struct_iff hsizes hfits
  have hliteral : ∀ elements, base ≠ .arrayLiteral elements := by
    rintro elements rfl
    cases elements <;> rcases hbase with h | h <;> cases h
  have hthrough : (base.typeIn scope).throughPointer = ty := by
    rcases hbase with h | h <;> rw [h] <;> rfl
  refine ⟨fun slot hslot f whole hwhole => ⟨?_, fun hstarts => ⟨?_, ?_, ?_⟩⟩, fun f hf => ?_⟩
  · simp only [List.mem_cons, List.not_mem_nil, or_false] at hwhole
    rcases hwhole with rfl | rfl <;> exact hfound slot f
  · exact Expr.typeIn_field hthrough (Fields.type?_of_mem hnames hstarts.mem)
  · have hslots : whole.explode base ty.footprint = fields.slots base :=
      explode_struct hliteral hwhole
    rw [hslots, Fields.getElem?_slots hsizes hstarts base]
    exact head?_component (hsizes f hstarts.mem) _
  · rintro c s rfl
    refine selectField_eq (Nat.lt_trans hslot hfits) ?_
    rcases hbase with h | h <;> rw [h] <;> exact (hfound slot f).2 hstarts
  · obtain ⟨slot, hstarts⟩ := Fields.exists_startsAt hf
    refine ⟨slot, hstarts.lt_footprint hsizes, fun other => (hfound other f).trans ⟨?_, ?_⟩⟩
    · exact fun h => h.unique (List.Nodup.of_map _ hnames) hstarts
    · rintro rfl
      exact hstarts

/-- Behind a vector the next field of a struct starts at slot 3, also behind a pointer. -/
theorem struct_readings_agree_vector :
    let fields : Fields := .cons "position" .vector3 (.cons "speed" .float .nil)
    let camera : Variable :=
      { Variable.fresh 0 "local_0" .slot with ty := .struct "Camera" fields, locked := true }
    let scope : Scope := ⟨fun _ => some camera⟩
    let base := Expr.addressOf (.var (.slot 0))
    base.typeIn scope = .pointer (.struct "Camera" fields) ∧
      (Ty.pointer (.struct "Camera" fields)).fieldAt? 3 = some ("speed", .float) ∧
      (Expr.field base "speed").typeIn scope = .float ∧
      ((Ty.pointer (.struct "Camera" fields)).explode base 4)[3]? =
        some (.field base "speed") := by
  intro fields camera scope base
  have htype : base.typeIn scope = .pointer (.struct "Camera" fields) := rfl
  have hstarts : fields.StartsAt ("speed", .float) 3 := ⟨[("position", .vector3)], [], rfl, rfl⟩
  have hnames : (fields.toList.map (·.1)).Nodup := by decide
  have hsizes : ∀ f ∈ fields.toList, 0 < f.2.footprint := by decide
  have hreadings := struct_readings_agree hnames hsizes (by decide) (.inr htype)
  obtain ⟨hfound, hagree⟩ := hreadings.1 3 (by decide) ("speed", .float) _
    (List.mem_cons_of_mem _ List.mem_cons_self)
  obtain ⟨hname, ⟨part, hpart, hone, -⟩, -⟩ := hagree hstarts
  cases hone rfl
  exact ⟨htype, hfound.2 hstarts, hname, hpart⟩

/-- A struct of `2 ^ 64 + 2` slots.  Behind its first two fields, of `2 ^ 63` slots each, the
computed starts begin at zero again: the last field is found at slot 1, which is the second slot of
the first field, and the one before it is found nowhere. -/
theorem struct_readings_wrap_around :
    let half : Ty := .array .int 0x8000000000000000
    let fields : Fields := .cons "a" half (.cons "b" half (.cons "c" .int (.cons "d" .int .nil)))
    let large : Variable :=
      { Variable.fresh 0 "local_0" .slot with ty := .struct "S" fields, locked := true }
    let scope : Scope := ⟨fun _ => some large⟩
    let ty := Ty.struct "S" fields
    (fields.toList.map (·.1)).Nodup ∧ (∀ f ∈ fields.toList, 0 < f.2.footprint) ∧
      (Expr.var (.slot 0)).typeIn scope = ty ∧ 1 < ty.footprint ∧ 1 < ty.stackSize.toNat ∧
      ty.fieldAt? 1 = some ("d", .int) ∧ ¬fields.StartsAt ("d", .int) 1 ∧
      ("c", .int) ∈ fields.toList ∧ ∀ slot, ty.fieldAt? slot ≠ some ("c", .int) := by
  intro half fields large scope ty
  have hnames : (fields.toList.map (·.1)).Nodup := by decide
  have hsizes : ∀ f ∈ fields.toList, 0 < f.2.footprint := by decide
  have hstarts : fields.StartsAt ("d", .int) (UInt64.size + 1) :=
    ⟨[("a", half), ("b", half), ("c", .int)], [], rfl, by decide⟩
  refine ⟨hnames, hsizes, rfl, by decide, by decide, by decide, fun h => ?_, by decide, ?_⟩
  · have heq := hstarts.unique (List.Nodup.of_map _ hnames) h
    rw [UInt64.size] at heq
    omega
  · intro slot hfound
    have hreading : ty.fieldAt? slot =
        if (0 : UInt64).toNat = slot then some ("a", half)
        else if (0 + half.stackSize).toNat = slot then some ("b", half)
        else if (0 + half.stackSize + half.stackSize).toNat = slot then some ("c", .int)
        else if (0 + half.stackSize + half.stackSize + 1).toNat = slot then some ("d", .int)
        else none := rfl
    have hwrapped : 0 + half.stackSize + half.stackSize = 0 := by decide
    rw [hreading, hwrapped] at hfound
    split at hfound
    · exact absurd hfound (by decide)
    -- Slot 0 has been dealt with, so the branch of the third field is gone here.
    split at hfound
    · exact absurd hfound (by decide)
    split at hfound
    · exact absurd hfound (by decide)
    · cases hfound

end Ty

end ScriptDecompiler
