import ScriptDecompiler.Proofs.Machine.Provenance
import ScriptDecompiler.Proofs.Ty.Order

/-!
# The variable at the root of an expression

Address-of and dereference nodes, one inside another, lead down to what they are about: the
root, if that is a variable.  Passing knowledge down follows them.  A pointer type is unwrapped
at an address-of node, any type is wrapped at a dereference node, and what arrives is observed
of the root.

The type of the expression is computed on the way back up, and there the nodes undo what they
did on the way down.  So once the root says what was observed of it, the expression says what
was passed down.
-/

namespace ScriptDecompiler

namespace Expr

/-- The variable below all address-of and dereference nodes. -/
def root? : Expr → Option VarRef
  | var r => some r
  | addressOf inner | deref inner => inner.root?
  | _ => none

/-- Does every address-of node meet a pointer type, as a type is passed down?  The unknown type
is not passed any further. -/
def Unwraps : Expr → Ty → Prop
  | addressOf inner, ty => ty = .unknown ∨ ∃ target, ty = .pointer target ∧ inner.Unwraps target
  | deref inner, ty => ty = .unknown ∨ inner.Unwraps (.pointer ty)
  | _, _ => True

/-- What is observed through an expression is its root. -/
theorem root?_of_observed? {e : Expr} {ty seen : Ty} {r : VarRef}
    (h : e.observed? ty = some (r, seen)) : e.root? = some r := by
  fun_induction Expr.observed? e ty with
  | case1 => cases h
  | case2 =>
      cases h
      rfl
  | case3 ty _ inner ih => exact ih h
  | case4 ty _ inner ih => exact ih h
  | case5 => cases h

theorem mem_vars_of_root? {e : Expr} {r : VarRef} (h : e.root? = some r) : r ∈ e.vars := by
  fun_induction Expr.root? e with
  | case1 =>
      cases h
      exact List.mem_singleton.2 rfl
  | case2 inner ih => exact ih h
  | case3 inner ih => exact ih h
  | case4 => cases h

/-- If the root says what is observed of it, the expression says what was passed down. -/
theorem le_typeIn_of_observed? {scope : Scope} {e : Expr} {ty : Ty} {r : VarRef}
    (hroot : e.root? = some r) (hunwraps : e.Unwraps ty)
    (hseen : ∀ seen, e.observed? ty = some (r, seen) → seen ≤ (var r).typeIn scope) :
    ty ≤ e.typeIn scope := by
  fun_induction Expr.observed? e ty with
  | case1 e ty hunknown =>
      rw [Ty.eq_unknown_of_isUnknown hunknown]
      exact bot_le
  | case2 ty hknown r' =>
      cases hroot
      exact hseen ty rfl
  | case3 ty hknown inner ih =>
      rcases hunwraps with rfl | ⟨target, rfl, hinner⟩
      · exact absurd rfl hknown
      · exact Ty.Below.pointer (ih hroot hinner hseen)
  | case4 ty hknown inner ih =>
      rcases hunwraps with rfl | hinner
      · exact absurd rfl hknown
      · obtain ⟨target, htarget, hle⟩ := Ty.pointer_le_iff.1 (ih hroot hinner hseen)
        rw [typeIn, htarget]
        exact hle
  | case5 e ty hknown hvar haddress hderef =>
      cases e with
      | var r => exact absurd rfl (hvar r)
      | addressOf inner => exact absurd rfl (haddress inner)
      | deref inner => exact absurd rfl (hderef inner)
      | _ => cases hroot

end Expr

/-- What is observed without a conflict is known afterwards. -/
theorem Variable.le_ty_infer {v : Variable} {ty : Ty} (h : v.conflict? ty = none) :
    ty ≤ (v.infer ty).1.ty := by
  unfold conflict? at h
  unfold infer at h ⊢
  by_cases hunknown : ty.isUnknown = true
  · rw [Ty.eq_unknown_of_isUnknown hunknown]
    exact bot_le
  · rw [if_neg hunknown] at h ⊢
    cases hlocked : v.locked with
    | false =>
        simp only [Bool.not_false, if_true]
        split
        · rename_i hsame
          exact le_of_eq hsame.symm
        · exact le_refl ty
    | true =>
        simp only [hlocked, Bool.not_true, Bool.false_eq_true, if_false] at h ⊢
        cases hmerge : v.ty.merge ty with
        | none => simp [hmerge] at h
        | some merged =>
            have hle : ty ≤ merged := (Ty.below_of_merge hmerge).2
            dsimp only
            split
            · rename_i hsame
              exact hsame ▸ hle
            · exact hle

namespace Store

variable {s : Store} {current : Nat} {r : VarRef} {v : Variable}

theorem at?_diagnose (s : Store) (current address : Nat) (kind : DiagnosticKind) (place : Place) :
    (s.diagnose current address kind).at? place = s.at? place := by
  cases place <;> rfl

/-- Observing a variable that is there, without a conflict. -/
theorem inferVariable_of_conflict?_eq_none (h : s.get? current r = some v) {ty : Ty}
    (hconflict : v.conflict? ty = none) (address : Nat) :
    s.inferVariable current address r ty = s.setVariable current (v.infer ty).1 r := by
  unfold Variable.conflict? at hconflict
  unfold inferVariable
  simp only [touch_eq_self h, h]
  split
  · rename_i houtcome
    simp [houtcome] at hconflict
  · rfl

end Store

namespace Machine

/-- Passing down the type of an expression concerns its root alone.  Of the root the type and the
lock may change, and if that conflicts with what is settled about it, it is reported; without a
root nothing happens at all.  If every address-of node meets a pointer type and no conflict is
reported, then the expression says what was passed down. -/
theorem infer_reaches_root (c : Context) (address : Nat) (e : Expr) (ty : Ty) (s : State)
    (hvars : ∀ r ∈ e.vars, s.store.Sees c.current r) :
    let s' := (Replay.infer c address e ty s).2
    s'.stack = s.stack ∧ s'.emitted = s.emitted ∧ s'.store.heads = s.store.heads ∧
      (e.root? = none → s' = s) ∧
      ∀ r, e.root? = some r →
        (∀ place, place ≠ s.store.placeOf c.current r →
          s'.store.at? place = s.store.at? place) ∧
        ∃ v v', s.store.get? c.current r = some v ∧ s'.store.get? c.current r = some v' ∧
          v.Alike v' ∧
          (s'.store.diagnostics = s.store.diagnostics ∨
            ∃ existing found, s'.store.diagnostics = s.store.diagnostics.push
              ⟨s.store.frames[c.current]?.map (·.name), some address,
                .typeConflict v.identifier existing found⟩) ∧
          (e.Unwraps ty → s'.store.diagnostics = s.store.diagnostics →
            ty ≤ e.typeIn (s'.store.scope c.current)) := by
  intro s'
  have heq : s' = { s with store := Replay.observed c address e ty s.store } :=
    congrArg Prod.snd (Replay.infer_eq c address s e ty)
  clear_value s'
  subst heq
  unfold Replay.observed
  cases hobserved : e.observed? ty with
  | none =>
      refine ⟨rfl, rfl, rfl, fun _ => rfl, fun r hroot => ⟨fun _ _ => rfl, ?_⟩⟩
      obtain ⟨v, hv⟩ := hvars r (Expr.mem_vars_of_root? hroot)
      refine ⟨v, v, hv, hv, .refl v, Or.inl rfl, fun hunwraps _ => ?_⟩
      exact Expr.le_typeIn_of_observed? hroot hunwraps fun seen hseen => by
        rw [hobserved] at hseen
        cases hseen
  | some found =>
      obtain ⟨r, seen⟩ := found
      have hroot := Expr.root?_of_observed? hobserved
      obtain ⟨v, hv⟩ := hvars r (Expr.mem_vars_of_root? hroot)
      have hheads := Update.heads_apply (.observe address r seen) c.current s.store
      refine ⟨rfl, rfl, hheads, fun hnone => ?_, fun r' hroot' => ?_⟩
      · rw [hnone] at hroot
        cases hroot
      · cases hroot.symm.trans hroot'
        dsimp only
        cases hconflict : v.conflict? seen with
        | none =>
            rw [Store.inferVariable_of_conflict?_eq_none hv hconflict]
            have hnow := Store.get?_setVariable_self hv (v.infer seen).1
            refine ⟨fun place hplace => Store.at?_setVariable_of_ne _ hplace, v, _, hv, hnow,
              v.alike_infer seen, Or.inl (by simp), fun hunwraps _ => ?_⟩
            refine Expr.le_typeIn_of_observed? hroot hunwraps fun other hother => ?_
            cases hobserved.symm.trans hother
            simp only [Expr.typeIn, Store.scope, hnow]
            exact Variable.le_ty_infer hconflict
        | some kind =>
            -- A conflict is reported, and leaves everything as it is.
            have hmet : (Update.observe address r seen).conflict? c.current s.store =
                some (address, kind) := by
              simp [Update.conflict?, hv, hconflict]
            have hreport : s.store.inferVariable c.current address r seen =
                s.store.diagnose c.current address kind := (Update.apply_of_conflict? hmet).1
            obtain ⟨-, -, -, rfl⟩ := Variable.conflict?_eq_some hconflict
            rw [hreport]
            refine ⟨fun place _ => s.store.at?_diagnose c.current address _ place, v, v, hv, ?_,
              .refl v, Or.inr ⟨_, _, rfl⟩, fun _ hsilent => ?_⟩
            · rw [← Store.at?_placeOf] at hv ⊢
              exact hv
            · have hsize := congrArg Array.size hsilent
              simp [Store.diagnose] at hsize

/-- A variable is known to be a pointer to pointers, and what it points to is found to have an
address that points to a pointer to an integer. -/
theorem infer_reaches_root_nested :
    let c : Context := ⟨⟨"u", [], 0, [], #[], []⟩, .empty, false, 0⟩
    let known : Variable :=
      { Frame.freshSlot .slot 0 with ty := .pointer (.pointer .unknown), locked := true }
    let s : State := ⟨⟨#[(Frame.declare 0 "f" 0 2).setSlot 0 known], .ofStatics [], #[]⟩, [], #[]⟩
    let e : Expr := .addressOf (.deref (.var (.slot 0)))
    let ty : Ty := .pointer (.pointer .int)
    let s' := (Replay.infer c 7 e ty s).2
    (∀ r ∈ e.vars, s.store.Sees c.current r) ∧ e.root? = some (.slot 0) ∧ e.Unwraps ty ∧
      s'.store.get? c.current (.slot 0) = some { known with ty := .pointer (.pointer .int) } ∧
      s'.store.diagnostics = #[] ∧ s'.store.at? (.own 0 (.slot 1)) =
        s.store.at? (.own 0 (.slot 1)) ∧
      ty ≤ e.typeIn (s'.store.scope c.current) := by
  intro c known s e ty s'
  have hvars : ∀ r ∈ e.vars, s.store.Sees c.current r := by
    intro r hr
    rw [show e.vars = [.slot 0] from rfl, List.mem_singleton] at hr
    exact ⟨known, by rw [hr]; rfl⟩
  have hunwraps : e.Unwraps ty := Or.inr ⟨_, rfl, Or.inr trivial⟩
  have hsilent : s'.store.diagnostics = #[] := by decide +kernel
  obtain ⟨-, -, -, -, hroot⟩ := infer_reaches_root c 7 e ty s hvars
  obtain ⟨hframe, v, v', -, -, -, -, hle⟩ := hroot (.slot 0) rfl
  exact ⟨hvars, rfl, hunwraps, by decide +kernel, hsilent, hframe _ (by decide +kernel),
    hle hunwraps hsilent⟩

end Machine

end ScriptDecompiler
