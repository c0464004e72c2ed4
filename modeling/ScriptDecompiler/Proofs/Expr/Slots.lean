import Mathlib.Data.List.Basic
import Mathlib.Logic.Relation
import ScriptDecompiler.Expr.Explode

/-!
# The slots of a value

A scalar and a pointer take one slot each.  An array takes the slots of its elements and a
struct those of its fields, in order; the types of all these slots are the leaf types.

A value of several slots is exploded into fields and elements, which have the leaf types of the
value.  The same holds for an array or a struct behind a pointer, because fields and elements
are selected through a pointer as well.  A scalar or a pointer is not reached that way: the
pointer to it is left as it is, or something is selected from it that has no known type.
-/

namespace ScriptDecompiler

open Relation (ReflTransGen TransGen)

/-- One expression is a field or an element of another one. -/
inductive Expr.Selection : Expr → Expr → Prop
  | field (base : Expr) (name : String) : Selection base (.field base name)
  | element (base : Expr) (i : Nat) : Selection base (base.element i)

/-- Is this one of the expressions that an array literal is made of? -/
def Expr.Lists (base e : Expr) : Prop :=
  ∃ elements, base = .arrayLiteral elements ∧ e ∈ elements

namespace Expr

variable (base : Expr) (count : Nat) (parts : List Expr)

theorem length_fit : (base.fit count parts).length = count := by
  simp only [Expr.fit, List.length_append, List.length_map, List.length_range',
    List.length_take]
  omega

theorem length_spread : (base.spread count parts).length = count := by
  unfold Expr.spread
  split
  · split
    · assumption
    · exact length_fit _ count parts
  · exact length_fit _ count parts

theorem element_ne_arrayLiteral (i : Nat) (elements : List Expr) :
    base.element i ≠ .arrayLiteral elements := by
  simp [Expr.element]

theorem field_ne_arrayLiteral (name : String) (elements : List Expr) :
    field base name ≠ .arrayLiteral elements := by
  simp

theorem addressOf_ne_arrayLiteral (elements : List Expr) :
    addressOf base ≠ .arrayLiteral elements := by
  simp

variable {base count parts}

theorem spread_eq_fit (hliteral : ∀ elements, base ≠ .arrayLiteral elements) :
    base.spread count parts = base.fit count parts := by
  unfold Expr.spread
  split
  · exact absurd rfl (hliteral _)
  · rfl

/-- Nothing is dropped or added if the type accounts for all slots. -/
theorem spread_of_length_eq (hliteral : ∀ elements, base ≠ .arrayLiteral elements)
    (h : parts.length = count) : base.spread count parts = parts := by
  rw [spread_eq_fit hliteral]
  simp [Expr.fit, ← h]

theorem not_lists (hliteral : ∀ elements, base ≠ .arrayLiteral elements) (e : Expr) :
    ¬base.Lists e := by
  rintro ⟨elements, heq, -⟩
  exact hliteral elements heq

/-- A part that the type does not account for is an element. -/
theorem mem_spread {e : Expr} (h : e ∈ base.spread count parts) :
    e ∈ parts ∨ Selection base e ∨ base.Lists e := by
  have hfit : ∀ {base : Expr}, e ∈ base.fit count parts → e ∈ parts ∨ Selection base e := by
    intro base h
    rcases List.mem_append.1 h with h | h
    · exact Or.inl (List.mem_of_mem_take h)
    · obtain ⟨i, -, rfl⟩ := List.mem_map.1 h
      exact Or.inr (.element base i)
  unfold Expr.spread at h
  split at h
  · rename_i elements
    split at h
    · exact Or.inr (Or.inr ⟨elements, rfl, h⟩)
    · exact (hfit h).imp_right Or.inl
  · exact (hfit h).imp_right Or.inl

/-- The first part stays the first one. -/
theorem head?_spread_cons (hliteral : ∀ elements, base ≠ .arrayLiteral elements) (first : Expr)
    (hcount : 0 < count) : (base.spread count (first :: parts)).head? = some first := by
  obtain ⟨count, rfl⟩ := Nat.exists_eq_add_one.2 hcount
  rw [spread_eq_fit hliteral, Expr.fit, List.take_succ_cons]
  rfl

theorem Selection.sizeOf_lt {base e : Expr} (h : Selection base e) : sizeOf base < sizeOf e := by
  cases h with
  | field | element =>
      simp only [Expr.element, Expr.field.sizeOf_spec, Expr.index.sizeOf_spec]
      omega

/-- No expression is selected from itself. -/
theorem ne_of_selected {base e : Expr} (h : TransGen Selection base e) : base ≠ e := by
  have hlt : sizeOf base < sizeOf e := by
    induction h with
    | single h => exact h.sizeOf_lt
    | tail _ h ih => exact Nat.lt_trans ih h.sizeOf_lt
  rintro rfl
  exact Nat.lt_irrefl _ hlt

end Expr

/-- A value is spread over as many slots as are asked for. -/
theorem Ty.length_explode (ty : Ty) (base : Expr) (count : Nat) :
    (ty.explode base count).length = count :=
  Expr.length_spread base count _

/-- Does a value of the type take one slot and have no parts? -/
def Ty.isAtom : Ty → Bool
  | .scalar _ | .pointer _ => true
  | _ => false

mutual

/-- The types of the slots of a value, in order. -/
def Ty.leafTypes : Ty → List Ty
  | .void => []
  | .scalar name => [.scalar name]
  | .pointer target => [.pointer target]
  | .array element length => (List.replicate length element.leafTypes).flatten
  | .struct _ fields => fields.leafTypes

/-- The types of the slots of the fields, in order. -/
def Fields.leafTypes : Fields → List Ty
  | .nil => []
  | .cons _ ty rest => ty.leafTypes ++ rest.leafTypes

end

mutual

/-- Do the fields of each struct have distinct names, and is each component that takes one slot
a scalar or a pointer? -/
def Ty.Regular : Ty → Prop
  | .void | .scalar _ | .pointer _ => True
  | .array element _ => element.Regular ∧ (element.footprint = 1 → element.isAtom = true)
  | .struct _ fields => (fields.toList.map (·.1)).Nodup ∧ fields.Regular

/-- The same, of all fields. -/
def Fields.Regular : Fields → Prop
  | .nil => True
  | .cons _ ty rest =>
    ty.Regular ∧ (ty.footprint = 1 → ty.isAtom = true) ∧ rest.Regular

end

mutual

theorem Ty.length_leafTypes : (ty : Ty) → ty.leafTypes.length = ty.footprint
  | .void | .scalar _ | .pointer _ => rfl
  | .array element length => by
      rw [Ty.leafTypes, Ty.footprint, List.length_flatten, List.map_replicate,
        List.sum_replicate_nat, element.length_leafTypes, Nat.mul_comm]
  | .struct _ fields => fields.length_leafTypes

/-- There are as many leaf types as slots. -/
theorem Fields.length_leafTypes : (fields : Fields) → fields.leafTypes.length = fields.footprint
  | .nil => rfl
  | .cons _ ty rest => by
      rw [Fields.leafTypes, Fields.footprint, List.length_append, ty.length_leafTypes,
        rest.length_leafTypes]

end

theorem Ty.footprint_of_isAtom {ty : Ty} (h : ty.isAtom = true) : ty.footprint = 1 := by
  cases ty with
  | scalar | pointer => rfl
  | void | array | struct => cases h

theorem Ty.leafTypes_of_isAtom {ty : Ty} (h : ty.isAtom = true) : ty.leafTypes = [ty] := by
  cases ty with
  | scalar | pointer => rfl
  | void | array | struct => cases h

/-- A type that is not the one of an address is what is found through a pointer as well. -/
theorem Ty.throughPointer_eq_self {ty : Ty} (h : ty.isPointer = false) :
    ty.throughPointer = ty := by
  cases ty with
  | pointer => cases h
  | _ => rfl

theorem Ty.isPointer_eq_false {ty : Ty} (h : ty.isAtom = false) : ty.isPointer = false := by
  cases ty with
  | pointer => cases h
  | _ => rfl

/-- The slots of a component of a value, as they stand among those of the value. -/
def Ty.component (ty : Ty) (node : Expr) : List Expr :=
  match ty.footprint with
  | 0 => []
  | 1 => [node]
  | size => node.spread size (ty.slots node size)

theorem Ty.length_component (ty : Ty) (node : Expr) :
    (ty.component node).length = ty.footprint := by
  unfold Ty.component
  split
  · rename_i hzero
    exact hzero.symm
  · rename_i hone
    exact hone.symm
  · exact Expr.length_spread ..

theorem Ty.slots_array (element : Ty) (length : Nat) (base : Expr) (count : Nat) :
    (Ty.array element length).slots base count =
      (List.range length).flatMap fun i => element.component (base.element i) := rfl

theorem Fields.slots_cons (name : String) (ty : Ty) (rest : Fields) (base : Expr) :
    (Fields.cons name ty rest).slots base =
      ty.component (.field base name) ++ rest.slots base := rfl

/-- The first field with a name is the only one. -/
theorem Fields.type?_of_mem : {fields : Fields} → (fields.toList.map (·.1)).Nodup →
    ∀ {name : String} {ty : Ty}, (name, ty) ∈ fields.toList → fields.type? name = some ty
  | .nil, _, _, _, hmem => absurd hmem List.not_mem_nil
  | .cons first firstTy rest, hnodup, name, ty, hmem => by
      obtain ⟨hfirst, hrest⟩ := List.nodup_cons.1 hnodup
      rw [Fields.type?]
      rcases List.mem_cons.1 hmem with heq | hmem
      · obtain ⟨rfl, rfl⟩ := Prod.mk.inj heq
        exact if_pos rfl
      · have hne : first ≠ name := by
          rintro rfl
          exact hfirst (List.mem_map.2 ⟨_, hmem, rfl⟩)
        rw [if_neg hne]
        exact Fields.type?_of_mem hrest hmem

section Types

variable {scope : Scope} {base : Expr}

theorem Expr.typeIn_element {element : Ty} {length : Nat}
    (h : (base.typeIn scope).throughPointer = .array element length) (i : Nat) :
    (base.element i).typeIn scope = element := by
  simp only [Expr.element, Expr.typeIn, h]

theorem Expr.typeIn_field {struct name : String} {fields : Fields} {ty : Ty}
    (h : (base.typeIn scope).throughPointer = .struct struct fields)
    (hfield : fields.type? name = some ty) :
    (Expr.field base name).typeIn scope = ty := by
  simp only [Expr.typeIn, h, hfield, Option.getD_some]

/-- The types of the slots of a component, given those of the parts of the component. -/
theorem Ty.types_component {ty : Ty} {node : Expr}
    (hliteral : ∀ elements, node ≠ .arrayLiteral elements) (hnode : node.typeIn scope = ty)
    (hone : ty.footprint = 1 → ty.isAtom = true)
    (hparts : ty.isAtom = false → (node.typeIn scope).throughPointer = ty →
      ∀ count, (ty.slots node count).map (·.typeIn scope) = ty.leafTypes) :
    (ty.component node).map (·.typeIn scope) = ty.leafTypes := by
  unfold Ty.component
  split
  · rename_i hzero
    exact (List.eq_nil_of_length_eq_zero (ty.length_leafTypes.trans hzero)).symm
  · rename_i hsize
    rw [Ty.leafTypes_of_isAtom (hone hsize), List.map_singleton, hnode]
  · rename_i size _ hsize
    have hatom : ty.isAtom = false :=
      Bool.eq_false_iff.2 fun hatom => hsize (Ty.footprint_of_isAtom hatom)
    have hthrough : (node.typeIn scope).throughPointer = ty :=
      hnode.symm ▸ Ty.throughPointer_eq_self (Ty.isPointer_eq_false hatom)
    have htypes := hparts hatom hthrough ty.footprint
    have hlength : (ty.slots node ty.footprint).length = ty.footprint := by
      rw [← List.length_map (·.typeIn scope), htypes, ty.length_leafTypes]
    rw [Expr.spread_of_length_eq hliteral hlength, htypes]

mutual

/-- The parts of an array or a struct have its leaf types, also behind a pointer. -/
theorem Ty.types_slots : (ty : Ty) → ty.isAtom = false → ty.Regular →
    ∀ {base : Expr}, (base.typeIn scope).throughPointer = ty →
      ∀ count, (ty.slots base count).map (·.typeIn scope) = ty.leafTypes
  | .void, _, _, _, _, _ => rfl
  | .scalar _, hatom, _, _, _, _ | .pointer _, hatom, _, _, _, _ => by cases hatom
  | .array element length, _, ⟨hregular, hone⟩, base, hbase, count => by
      have helement : ∀ i, (element.component (base.element i)).map (·.typeIn scope) =
          element.leafTypes := fun i =>
        Ty.types_component (base.element_ne_arrayLiteral i) (Expr.typeIn_element hbase i) hone
          fun hatom hthrough => element.types_slots hatom hregular hthrough
      simp only [Ty.slots_array, List.map_flatMap, helement, Ty.leafTypes]
      rw [List.flatMap_def, List.map_const', List.length_range]
  | .struct _ fields, _, ⟨hnodup, hregular⟩, base, hbase, _ =>
      fields.types_slots hregular fun hmem =>
        Expr.typeIn_field hbase (Fields.type?_of_mem hnodup hmem)

/-- The fields of a value have the leaf types of the fields. -/
theorem Fields.types_slots : (fields : Fields) → fields.Regular →
    ∀ {base : Expr}, (∀ {name ty}, (name, ty) ∈ fields.toList →
        (Expr.field base name).typeIn scope = ty) →
      (fields.slots base).map (·.typeIn scope) = fields.leafTypes
  | .nil, _, _, _ => rfl
  | .cons name ty rest, ⟨hregular, hone, hrest⟩, base, hfield => by
      have hfirst : (ty.component (.field base name)).map (·.typeIn scope) = ty.leafTypes :=
        Ty.types_component (base.field_ne_arrayLiteral name) (hfield (List.mem_cons_self ..)) hone
          fun hatom hthrough => ty.types_slots hatom hregular hthrough
      rw [Fields.slots_cons, List.map_append, hfirst, Fields.leafTypes,
        rest.types_slots hrest fun hmem => hfield (List.mem_cons_of_mem _ hmem)]

end

end Types

/-- What a chain of pointers leads to. -/
def Ty.target : Ty → Ty
  | .pointer inner => inner.target
  | ty => ty

theorem Ty.isAtom_of_target_eq_scalar {ty : Ty} {name : String}
    (h : ty.target = .scalar name) : ty.isAtom = true := by
  cases ty with
  | scalar | pointer => rfl
  | void | array | struct => cases h

theorem Ty.mem_component {ty : Ty} {node e : Expr}
    (hnode : ∀ elements, node ≠ .arrayLiteral elements)
    (hparts : ∀ count, e ∈ ty.slots node count →
      e = node ∨ TransGen Expr.Selection node e ∨ node.Lists e)
    (h : e ∈ ty.component node) : ReflTransGen Expr.Selection node e := by
  unfold Ty.component at h
  split at h
  · cases h
  · rw [List.mem_singleton.1 h]
  · rcases Expr.mem_spread h with h | h | h
    · rcases hparts _ h with rfl | h | h
      · exact .refl
      · exact h.to_reflTransGen
      · exact absurd h (Expr.not_lists hnode e)
    · exact .single h
    · exact absurd h (Expr.not_lists hnode e)

mutual

/-- The slots of a value are selected from it, or are elements of the literal that it is.  Only a
scalar, and what leads to one, is taken as it is. -/
theorem Ty.mem_slots : (ty : Ty) → ∀ {base : Expr} {count : Nat} {e : Expr},
    e ∈ ty.slots base count → (e = base ∧ ∃ name, ty.target = .scalar name) ∨
      TransGen Expr.Selection base e ∨ base.Lists e
  | .void, _, _, _, h => absurd h List.not_mem_nil
  | .scalar name, base, count, e, h => by
      rw [Ty.slots] at h
      split at h
      · exact Or.inl ⟨List.mem_singleton.1 h, name, rfl⟩
      · cases h
  | .pointer inner, base, count, e, h => by
      rcases Expr.mem_spread h with h | h
      · exact inner.mem_slots h
      · exact Or.inr (h.imp_left .single)
  | .array element length, base, count, e, h => by
      rw [Ty.slots_array] at h
      obtain ⟨i, -, h⟩ := List.mem_flatMap.1 h
      have hnode := Ty.mem_component (base.element_ne_arrayLiteral i)
        (fun _ h => (element.mem_slots h).imp_left And.left) h
      exact Or.inr (Or.inl (.head' (.element base i) hnode))
  | .struct _ fields, _, _, _, h => Or.inr (Or.inl (fields.selected_of_mem_slots h))

/-- The slots of fields are selected from the value with these fields. -/
theorem Fields.selected_of_mem_slots : (fields : Fields) → ∀ {base e : Expr},
    e ∈ fields.slots base → TransGen Expr.Selection base e
  | .nil, _, _, h => absurd h List.not_mem_nil
  | .cons name ty rest, base, e, h => by
      rw [Fields.slots_cons] at h
      rcases List.mem_append.1 h with h | h
      · have hnode := Ty.mem_component (base.field_ne_arrayLiteral name)
          (fun _ h => (ty.mem_slots h).imp_left And.left) h
        exact .head' (.field base name) hnode
      · exact rest.selected_of_mem_slots h

end

/-- So is what a value is exploded into. -/
theorem Ty.mem_explode {ty : Ty} {base e : Expr} {count : Nat} (h : e ∈ ty.explode base count) :
    (e = base ∧ ∃ name, ty.target = .scalar name) ∨
      TransGen Expr.Selection base e ∨ base.Lists e := by
  rcases Expr.mem_spread h with h | h
  · exact ty.mem_slots h
  · exact Or.inr (h.imp_left .single)

/-- What leads to a scalar is one slot, however many pointers there are on the way. -/
theorem Ty.slots_of_target_eq_scalar {base : Expr}
    (hliteral : ∀ elements, base ≠ .arrayLiteral elements) {name : String} :
    (ty : Ty) → ty.target = .scalar name → ty.slots base 1 = [base]
  | .scalar _, _ => rfl
  | .pointer inner, h => by
      rw [Ty.slots, inner.slots_of_target_eq_scalar hliteral h]
      exact Expr.spread_of_length_eq hliteral rfl

/-- A pointer is exploded as what it points to. -/
theorem Ty.explode_pointer {base : Expr} (hliteral : ∀ elements, base ≠ .arrayLiteral elements)
    (ty : Ty) (count : Nat) : (Ty.pointer ty).explode base count = ty.explode base count :=
  Expr.spread_of_length_eq hliteral (Expr.length_spread base count _)

theorem Ty.selected_of_mem_component {ty : Ty} (hsize : 2 ≤ ty.footprint) {node e : Expr}
    (hnode : ∀ elements, node ≠ .arrayLiteral elements) (h : e ∈ ty.component node) :
    TransGen Expr.Selection node e := by
  have hexplode : e ∈ ty.explode node ty.footprint := by
    unfold Ty.component at h
    split at h
    · cases h
    · omega
    · exact h
  rcases Ty.mem_explode hexplode with ⟨-, name, hscalar⟩ | h | h
  · have hone := Ty.footprint_of_isAtom (Ty.isAtom_of_target_eq_scalar hscalar)
    omega
  · exact h
  · exact absurd h (Expr.not_lists hnode e)

/-- An array is exploded into its elements if and only if these take at most one slot each.
Otherwise already the first part is only a part of the first element. -/
theorem Ty.explode_array_eq_iff {element : Ty} {base : Expr} {length : Nat}
    (hliteral : ∀ elements, base ≠ .arrayLiteral elements) (hlength : 0 < length) :
    (Ty.array element length).explode base length = (List.range length).map base.element ↔
      element.footprint ≤ 1 := by
  rw [Ty.explode, Ty.slots_array]
  constructor
  · intro helements
    by_contra hsize
    rw [Nat.not_le] at hsize
    obtain ⟨more, rfl⟩ := Nat.exists_eq_add_one.2 hlength
    obtain ⟨first, parts, hfirst⟩ : ∃ first parts,
        element.component (base.element 0) = first :: parts :=
      List.exists_cons_of_length_pos (by rw [element.length_component]; omega)
    have hselected : TransGen Expr.Selection (base.element 0) first :=
      Ty.selected_of_mem_component hsize (base.element_ne_arrayLiteral 0)
        (hfirst ▸ List.mem_cons_self ..)
    have hhead := congrArg List.head? helements
    rw [List.range_succ_eq_map, List.flatMap_cons, hfirst, List.cons_append,
      Expr.head?_spread_cons hliteral first hlength, List.map_cons, List.head?_cons] at hhead
    exact Expr.ne_of_selected hselected (Option.some.inj hhead).symm
  · intro hsize
    rcases Nat.le_one_iff_eq_zero_or_eq_one.1 hsize with hzero | hone
    · -- The elements take no slots, and the missing parts are named by index.
      have hcomponent : ∀ i, element.component (base.element i) = [] := fun i =>
        List.eq_nil_of_length_eq_zero ((element.length_component _).trans hzero)
      simp only [hcomponent, List.flatMap_eq_nil_iff.2 fun _ _ => rfl]
      rw [Expr.spread_eq_fit hliteral]
      simp [Expr.fit, List.range_eq_range']
    · have hcomponent : ∀ i, element.component (base.element i) = [base.element i] := by
        intro i
        simp [Ty.component, hone]
      have hparts : ((List.range length).flatMap fun i => element.component (base.element i)) =
          (List.range length).map base.element := by
        simp only [hcomponent, List.map_eq_flatMap]
      rw [hparts]
      exact Expr.spread_of_length_eq hliteral (by rw [List.length_map, List.length_range])

section Explode

variable {scope : Scope} {ty : Ty} {base : Expr}

/-- What is selected from something other than an array or a struct, or a pointer to one, has
an unknown type. -/
theorem Expr.typeIn_of_selected {e : Expr} (h : TransGen Expr.Selection base e)
    (hatom : (base.typeIn scope).throughPointer.isAtom = true) : e.typeIn scope = .unknown := by
  have step : ∀ {a b : Expr}, Expr.Selection a b →
      (a.typeIn scope).throughPointer.isAtom = true → b.typeIn scope = .unknown := by
    intro a b hselection hatom
    cases hselection with
    | field name =>
        rw [Expr.typeIn]
        split
        · rename_i heq
          rw [heq] at hatom
          cases hatom
        · rfl
    | element i =>
        rw [Expr.element, Expr.typeIn]
        split
        · rename_i heq
          rw [heq] at hatom
          cases hatom
        · rfl
  induction h with
  | single h => exact step h hatom
  | tail _ h ih => exact step h (by rw [ih]; rfl)

/-- An array and a struct are exploded into parts of their leaf types. -/
theorem Ty.types_explode_of_not_isAtom (hregular : ty.Regular) (hatom : ty.isAtom = false)
    (hliteral : ∀ elements, base ≠ .arrayLiteral elements)
    (hbase : (base.typeIn scope).throughPointer = ty) :
    (ty.explode base ty.footprint).map (·.typeIn scope) = ty.leafTypes := by
  have htypes := ty.types_slots hatom hregular hbase ty.footprint
  have hlength : (ty.slots base ty.footprint).length = ty.footprint := by
    rw [← List.length_map (·.typeIn scope), htypes, ty.length_leafTypes]
  rw [Ty.explode, Expr.spread_of_length_eq hliteral hlength, htypes]

/-- Only what leads to a scalar is exploded as itself. -/
theorem Ty.mem_explode_iff (hliteral : ∀ elements, base ≠ .arrayLiteral elements) :
    base ∈ ty.explode base ty.footprint ↔ ∃ name, ty.target = .scalar name := by
  constructor
  · intro h
    rcases Ty.mem_explode h with ⟨-, hscalar⟩ | h | h
    · exact hscalar
    · exact absurd rfl (Expr.ne_of_selected h)
    · exact absurd h (Expr.not_lists hliteral base)
  · rintro ⟨name, htarget⟩
    have hone : ty.footprint = 1 := Ty.footprint_of_isAtom (Ty.isAtom_of_target_eq_scalar htarget)
    have hparts : [base].length = 1 := rfl
    rw [Ty.explode, hone, ty.slots_of_target_eq_scalar hliteral htarget,
      Expr.spread_of_length_eq hliteral hparts]
    exact List.mem_singleton.2 rfl

/-- The pointer to a scalar or a pointer is not exploded into what it points to. -/
theorem Ty.types_explode_ne_of_isAtom (hliteral : ∀ elements, base ≠ .arrayLiteral elements)
    (hatom : ty.isAtom = true) (hbase : base.typeIn scope = .pointer ty) :
    (ty.explode base ty.footprint).map (·.typeIn scope) ≠ ty.leafTypes := by
  obtain ⟨e, hparts⟩ := List.length_eq_one_iff.1
    ((ty.length_explode base _).trans (Ty.footprint_of_isAtom hatom))
  rw [hparts, Ty.leafTypes_of_isAtom hatom, List.map_singleton]
  intro htypes
  have htype : e.typeIn scope = ty := List.singleton_inj.1 htypes
  have hne : e ≠ base := by
    rintro rfl
    have hsize := congrArg sizeOf (hbase.symm.trans htype)
    rw [Ty.pointer.sizeOf_spec] at hsize
    omega
  have hselected : TransGen Expr.Selection base e := by
    have hmem : e ∈ ty.explode base ty.footprint := hparts ▸ List.mem_singleton.2 rfl
    rcases Ty.mem_explode hmem with ⟨rfl, -⟩ | h | h
    · exact absurd rfl hne
    · exact h
    · exact absurd h (Expr.not_lists hliteral e)
  -- It has no known type then, and a target of unknown type would be the pointer itself.
  have hunknown : ty = .unknown :=
    htype.symm.trans (Expr.typeIn_of_selected hselected (by rw [hbase]; exact hatom))
  have hbaseMem : base ∈ ty.explode base ty.footprint :=
    (Ty.mem_explode_iff hliteral).2 ⟨"unknown", by rw [hunknown]; rfl⟩
  exact hne (List.mem_singleton.1 (hparts ▸ hbaseMem)).symm

/-- A value, or a pointer to one, is exploded into as many parts as the value has slots.  They
have the leaf types of the value, except where the value behind the pointer is a scalar or a
pointer itself.  The pointer stands for its target exactly if the target leads to a scalar.  Slots
are counted exactly, as a word of 64 bits does it below `2 ^ 64` (`Ty.toNat_stackSize_of_lt`). -/
theorem Ty.explode_types (hregular : ty.Regular)
    (hliteral : ∀ elements, base ≠ .arrayLiteral elements)
    (hbase : base.typeIn scope = .pointer ty ∨ base.typeIn scope = ty ∧ ty.isPointer = false) :
    let parts := (base.typeIn scope).explode base ty.footprint
    parts.length = ty.footprint ∧
      (parts.map (·.typeIn scope) = ty.leafTypes ↔
        ¬(base.typeIn scope = .pointer ty ∧ ty.isAtom = true)) ∧
      (base.typeIn scope = .pointer ty →
        (base ∈ parts ↔ ∃ name, ty.target = .scalar name)) := by
  have hparts : (base.typeIn scope).explode base ty.footprint =
      ty.explode base ty.footprint := by
    rcases hbase with hbase | ⟨hbase, -⟩
    · rw [hbase, Ty.explode_pointer hliteral]
    · rw [hbase]
  simp only [hparts]
  refine ⟨ty.length_explode base _, ⟨?_, ?_⟩, fun _ => Ty.mem_explode_iff hliteral⟩
  · rintro htypes ⟨hpointer, hatom⟩
    exact Ty.types_explode_ne_of_isAtom hliteral hatom hpointer htypes
  · intro hexcept
    by_cases hatom : ty.isAtom = true
    · -- What is left is a scalar that is exploded as itself.
      obtain ⟨hbase, hvalue⟩ := hbase.resolve_left fun h => hexcept ⟨h, hatom⟩
      cases ty with
      | scalar name =>
          have hself : (Ty.scalar name).explode base 1 = [base] :=
            Expr.spread_of_length_eq hliteral rfl
          rw [Ty.footprint, hself, List.map_singleton, hbase]
          rfl
      | pointer => cases hvalue
      | void | array | struct => cases hatom
    · rw [Bool.not_eq_true] at hatom
      refine Ty.types_explode_of_not_isAtom hregular hatom hliteral ?_
      rcases hbase with hbase | ⟨hbase, hvalue⟩
      · rw [hbase]
        rfl
      · rw [hbase, Ty.throughPointer_eq_self hvalue]

/-- Two vectors behind a pointer are six numbers. -/
theorem Ty.explode_types_vectors :
    let vectors : Variable :=
      { Variable.fresh 0 "local_0" .slot with ty := .array .vector3 2, locked := true }
    let scope : Scope := ⟨fun _ => some vectors⟩
    let base := Expr.addressOf (.var (.slot 0))
    ((base.typeIn scope).explode base 6).map (·.typeIn scope) = List.replicate 6 .float := by
  intro vectors scope base
  have hregular : (Ty.array .vector3 2).Regular := by
    simp [Ty.vector3, Ty.float, Ty.Regular, Fields.Regular, Ty.isAtom, Ty.footprint,
      Fields.footprint, Fields.toList]
  have htype : base.typeIn scope = .pointer (.array .vector3 2) := rfl
  have hparts := Ty.explode_types hregular (Expr.addressOf_ne_arrayLiteral _) (Or.inl htype)
  exact hparts.2.1.2 fun h => Bool.false_ne_true h.2

/-- The pointer to an integer is exploded as itself. -/
theorem Ty.exists_pointer_exploded_as_itself :
    ∃ (scope : Scope) (ty : Ty) (base : Expr), ty.Regular ∧ ty.footprint = 1 ∧
      (∀ elements, base ≠ .arrayLiteral elements) ∧ base.typeIn scope = .pointer ty ∧
      (base.typeIn scope).explode base 1 = [base] ∧
      ((base.typeIn scope).explode base 1).map (·.typeIn scope) ≠ ty.leafTypes := by
  let counter : Variable :=
    { Variable.fresh 0 "local_0" .slot with ty := .int, locked := true }
  exact ⟨⟨fun _ => some counter⟩, .int, .addressOf (.var (.slot 0)), trivial, rfl,
    Expr.addressOf_ne_arrayLiteral _, rfl, rfl, by decide⟩

end Explode

end ScriptDecompiler
