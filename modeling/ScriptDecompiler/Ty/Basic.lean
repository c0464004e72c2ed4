/-!
# Value types

A type says how many operand-stack slots a value takes, its *footprint*, and
how it is made up.  The scalar named `unknown` stands for a type about which
nothing is known yet.
-/

namespace ScriptDecompiler

mutual

/-- The type of a value. -/
inductive Ty where
  | void
  | scalar (name : String)
  | pointer (target : Ty)
  | array (element : Ty) (length : Nat)
  | struct (name : String) (fields : Fields)
  deriving DecidableEq, Repr

/-- The fields of a struct, in the order of their slots. -/
inductive Fields where
  | nil
  | cons (name : String) (ty : Ty) (rest : Fields)
  deriving DecidableEq, Repr

end

namespace Fields

/-- The names and types of the fields, in order. -/
def toList : Fields → List (String × Ty)
  | nil => []
  | cons name ty rest => (name, ty) :: rest.toList

/-- Fields with the given names and types. -/
def ofList : List (String × Ty) → Fields
  | [] => nil
  | (name, ty) :: rest => cons name ty (ofList rest)

/-- The type of the first field with the given name. -/
def type? (fields : Fields) (name : String) : Option Ty :=
  match fields with
  | nil => none
  | cons n ty rest => if n = name then some ty else rest.type? name

theorem toList_ofList (fields : List (String × Ty)) : (ofList fields).toList = fields := by
  induction fields with
  | nil => rfl
  | cons field rest ih => simp [ofList, toList, ih]

theorem ofList_toList : (fields : Fields) → ofList fields.toList = fields
  | nil => rfl
  | cons name ty rest => by simp [toList, ofList, ofList_toList rest]

end Fields

namespace Ty

instance : Inhabited Ty := ⟨void⟩

/-- The type about which nothing is known. -/
def unknown : Ty := scalar "unknown"

/-- Integers. -/
def int : Ty := scalar "int"

/-- Floating-point numbers. -/
def float : Ty := scalar "float"

/-- Truth values. -/
def bool : Ty := scalar "bool"

/-- Texts. -/
def string : Ty := scalar "string"

/-- Three floating-point numbers named `x`, `y` and `z`. -/
def vector3 : Ty :=
  struct "Vector3" (.cons "x" float (.cons "y" float (.cons "z" float .nil)))

/-- Is nothing known about the type? -/
def isUnknown (ty : Ty) : Bool :=
  ty = unknown

/-- Does the type have no value? -/
def isVoid : Ty → Bool
  | void => true
  | _ => false

/-- Is it the type of an address? -/
def isPointer : Ty → Bool
  | pointer _ => true
  | _ => false

/-- What a pointer points to. -/
def pointee? : Ty → Option Ty
  | pointer target => some target
  | _ => none

/-- What a pointer points to; any other type is left as it is. -/
def throughPointer (ty : Ty) : Ty :=
  ty.pointee?.getD ty

/-- How a type is written. -/
def text : Ty → String
  | void => "void"
  | scalar name => name
  | pointer target => target.text ++ "*"
  | array element length => element.text ++ "[" ++ length.repr ++ "]"
  | struct name _ => name

end Ty

mutual

/-- How many operand-stack slots a value of a type takes: the exact number, which
everything that moves values goes by.  A word of 64 bits holds it below `2 ^ 64`
(`Ty.toNat_stackSize_of_lt`). -/
def Ty.footprint : Ty → Nat
  | .void => 0
  | .scalar _ | .pointer _ => 1
  | .array element length => element.footprint * length
  | .struct _ fields => fields.footprint

/-- How many slots the fields take together. -/
def Fields.footprint : Fields → Nat
  | .nil => 0
  | .cons _ ty rest => ty.footprint + rest.footprint

end

mutual

/-- The footprint in a word of 64 bits, as starts of fields are computed from it.
Products and sums that do not fit wrap around. -/
def Ty.stackSize : Ty → UInt64
  | .void => 0
  | .scalar _ | .pointer _ => 1
  | .array element length => element.stackSize * UInt64.ofNat length
  | .struct _ fields => fields.stackSize

/-- The slots of the fields together, in a word of 64 bits. -/
def Fields.stackSize : Fields → UInt64
  | .nil => 0
  | .cons _ ty rest => ty.stackSize + rest.stackSize

end

mutual

/-- The word holds the footprint, except for what does not fit. -/
theorem Ty.toNat_stackSize : (ty : Ty) → ty.stackSize.toNat = ty.footprint % UInt64.size
  | .void | .scalar _ | .pointer _ => rfl
  | .array element length => by
      rw [Ty.stackSize, UInt64.toNat_mul, element.toNat_stackSize, UInt64.toNat_ofNat']
      exact (Nat.mul_mod ..).symm
  | .struct _ fields => fields.toNat_stackSize

theorem Fields.toNat_stackSize :
    (fields : Fields) → fields.stackSize.toNat = fields.footprint % UInt64.size
  | .nil => rfl
  | .cons _ ty rest => by
      rw [Fields.stackSize, UInt64.toNat_add, ty.toNat_stackSize, rest.toNat_stackSize]
      exact (Nat.add_mod ..).symm

end

/-- Below `2 ^ 64` the word is the footprint. -/
theorem Ty.toNat_stackSize_of_lt {ty : Ty} (h : ty.footprint < UInt64.size) :
    ty.stackSize.toNat = ty.footprint := by
  rw [ty.toNat_stackSize, Nat.mod_eq_of_lt h]

/-- The field whose first slot is `slot`, if the first field starts at `start`.  Where
the others start is computed in words of 64 bits. -/
def Fields.at? (fields : Fields) (start : UInt64) (slot : Nat) : Option (String × Ty) :=
  match fields with
  | .nil => none
  | .cons name ty rest =>
    if start.toNat = slot then some (name, ty) else rest.at? (start + ty.stackSize) slot

namespace Ty

/-- The field whose first slot is `slot`, in a struct or behind pointers to one. -/
def fieldAt? (ty : Ty) (slot : Nat) : Option (String × Ty) :=
  match ty with
  | pointer target => target.fieldAt? slot
  | struct _ fields => fields.at? 0 slot
  | _ => none

/-- The likely type of a block of `length` slots that is moved as a whole. -/
def guess : (length : Nat) → Ty
  | 0 => void
  | 1 => unknown
  | 3 => vector3
  | length => array unknown length

/-- Combine two observations of one type.  Parts that one side does not know are
taken from the other; `none` means that the two disagree. -/
def merge (a b : Ty) : Option Ty :=
  if a.isUnknown then some b
  else if b.isUnknown then some a
  else match a, b with
    | pointer x, pointer y => (x.merge y).map pointer
    | array x n, array y m => if n = m then (x.merge y).map (array · n) else none
    | a, b => if a = b then some a else none

end Ty

end ScriptDecompiler
