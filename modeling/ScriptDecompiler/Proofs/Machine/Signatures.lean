import ScriptDecompiler.Proofs.Machine.Replay

/-!
# The signature at a call site

A native goes by the name of its signature, or by one that is made from its hash.  Which
signature is used where it is called depends on the database and on how many slots the call site
takes and pushes, and so does what there is to report about it: a hash that has no signature, or
a signature whose slots are not those of the call site.  In both cases a signature is made up, and
the names of its parameters say nothing.
-/

namespace ScriptDecompiler

namespace Native.Database

variable (db : Database) (hash : UInt64) (inSlots outSlots : Nat)

/-- The name that a native goes by. -/
def nameOf : String :=
  match db.lookup? hash with
  | some signature => signature.name
  | none => unknownName hash

/-- Does a signature of the database have a parameter of this name? -/
def Names (name : String) : Prop :=
  ∃ hash signature, db.lookup? hash = some signature ∧
    ∃ parameter ∈ signature.parameters, parameter.name = name

/-- The signature that is used at a call site, and whether it is the one of the database. -/
def usedAt : Signature × Bool :=
  match db.lookup? hash with
  | some signature =>
    if signature.inSlots = inSlots ∧ signature.outSlots = outSlots then (signature, true)
    else (.synthesize signature.name inSlots outSlots, false)
  | none => (.synthesize (unknownName hash) inSlots outSlots, false)

/-- What there is to report about a call site. -/
def reportAt? : Option DiagnosticKind :=
  match db.lookup? hash with
  | some signature =>
    if signature.inSlots = inSlots ∧ signature.outSlots = outSlots then none
    else some (.nativeArityMismatch signature.name signature.inSlots signature.outSlots
      inSlots outSlots)
  | none => some (.synthesizedNative hash (unknownName hash))

/-- Whichever signature is used, the native goes by the same name. -/
theorem name_usedAt : (db.usedAt hash inSlots outSlots).1.name = db.nameOf hash := by
  unfold usedAt nameOf
  cases db.lookup? hash with
  | none => rfl
  | some signature =>
      dsimp only
      split <;> rfl

theorem names_usedAt (h : (db.usedAt hash inSlots outSlots).2 = true) :
    ∀ parameter ∈ (db.usedAt hash inSlots outSlots).1.parameters, db.Names parameter.name := by
  unfold usedAt at h ⊢
  cases hlookup : db.lookup? hash with
  | none => simp [hlookup] at h
  | some signature =>
      rw [hlookup] at h
      dsimp only at h ⊢
      split at h
      · rw [if_pos ‹_›]
        exact fun parameter hmem => ⟨hash, signature, hlookup, parameter, hmem, rfl⟩
      · cases h

end Native.Database

namespace Machine.Replay

variable (c : Context) (address : Nat) (hash : UInt64) (inSlots outSlots : Nat) (s : State)

theorem signatureFor_apply :
    signatureFor c address hash inSlots outSlots s =
      (c.natives.usedAt hash inSlots outSlots,
        match c.natives.reportAt? hash inSlots outSlots with
        | some kind => { s with store := s.store.diagnose c.current address kind }
        | none => s) := by
  unfold signatureFor Native.Database.resolve Native.Database.usedAt Native.Database.reportAt?
  cases c.natives.lookup? hash with
  | none => rfl
  | some signature =>
      dsimp only
      rw [if_neg Bool.false_ne_true]
      by_cases hagrees : signature.inSlots = inSlots ∧ signature.outSlots = outSlots
      · have hnot : ¬ (signature.inSlots ≠ inSlots ∨ signature.outSlots ≠ outSlots) := by
          rintro (hin | hout)
          · exact hin hagrees.1
          · exact hout hagrees.2
        rw [if_neg hnot, if_pos hagrees, if_pos hagrees]
        rfl
      · rw [if_pos (Decidable.not_and_iff_not_or_not.1 hagrees), if_neg hagrees, if_neg hagrees]
        rfl

/-- With `rename`, the names of the parameters are ones that the database knows. -/
theorem names_signatureFor (h : (signatureFor c address hash inSlots outSlots s).1.2 = true) :
    ∀ parameter ∈ (signatureFor c address hash inSlots outSlots s).1.1.parameters,
      c.natives.Names parameter.name := by
  rw [signatureFor_apply] at h ⊢
  exact c.natives.names_usedAt hash inSlots outSlots h

end Machine.Replay

end ScriptDecompiler
