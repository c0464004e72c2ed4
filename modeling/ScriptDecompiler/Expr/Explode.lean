import ScriptDecompiler.Expr.Basic

/-!
# Exploding a value into its slots

A value of several slots is spread over the stack as one expression per slot:
the fields of a struct, the elements of an array, and so on inwards.  Where the
type does not account for the number of slots that is asked for, the rest is
named by index.
-/

namespace ScriptDecompiler

/-- Exactly `count` expressions: surplus ones are dropped, missing ones are the
elements of `base` with the missing positions. -/
def Expr.fit (base : Expr) (count : Nat) (parts : List Expr) : List Expr :=
  let kept := parts.take count
  kept ++ (List.range' kept.length (count - kept.length)).map base.element

/-- Spread `base` over `count` slots, given the slots that its type accounts for.
An array literal of that many elements is taken apart instead. -/
def Expr.spread (base : Expr) (count : Nat) (parts : List Expr) : List Expr :=
  match base with
  | .arrayLiteral elements => if elements.length = count then elements else base.fit count parts
  | _ => base.fit count parts

mutual

/-- The slots of `base` that its type accounts for, if `count` are asked for. -/
def Ty.slots (ty : Ty) (base : Expr) (count : Nat) : List Expr :=
  match ty with
  | .void => []
  | .scalar _ => if count = 1 then [base] else []
  | .pointer target => base.spread count (target.slots base count)
  | .struct _ fields => fields.slots base
  | .array element length =>
    (List.range length).flatMap fun i =>
      match element.footprint with
      | 0 => []
      | 1 => [base.element i]
      | size => (base.element i).spread size (element.slots (base.element i) size)

/-- The slots of the fields of `base`. -/
def Fields.slots (fields : Fields) (base : Expr) : List Expr :=
  match fields with
  | .nil => []
  | .cons name ty rest =>
    (match ty.footprint with
      | 0 => []
      | 1 => [.field base name]
      | size => (Expr.field base name).spread size (ty.slots (.field base name) size)) ++
        rest.slots base

end

/-- The `count` slots of `base`, a value of the given type. -/
def Ty.explode (ty : Ty) (base : Expr) (count : Nat) : List Expr :=
  base.spread count (ty.slots base count)

end ScriptDecompiler
