import Mathlib.Data.List.Flatten
import Mathlib.Data.List.Nodup
import ScriptDecompiler.Proofs.Machine.References
import ScriptDecompiler.Proofs.Render.Pieces

/-!
# What is named is declared

A function names its arguments and locals, its temporaries, and statics and globals.  In the
text of a decompiled unit no variable is declared twice: arguments and locals differ in their
slots, and each temporary is introduced by one statement.  Every variable that a statement
mentions can be seen, and so it is declared.  A local that no statement mentions is not, and
the call of a temporary that no statement mentions is printed without it.
-/

namespace ScriptDecompiler

open ScriptDecompiler.Flow (Block Function)

/-- Is the variable shared by all functions? -/
def VarRef.isShared : VarRef → Bool
  | slot _ | temp _ => false
  | static _ | global _ => true

/-- The function to which the variable belongs that function `index` names; none if it is
shared. -/
def VarRef.owner (index : Nat) (r : VarRef) : Option Nat :=
  if r.isShared then none else some index

/-- What tells a variable of `function`, or of the unit, from others: the function to which it
belongs, and how it is named there. -/
def Variable.subject (function : Option Nat) (v : Variable) : Option (Option Nat × VarRef) :=
  v.ref?.map fun r => (function.bind (VarRef.owner · r), r)

theorem Variable.ref?_eq_of_subject_eq {function function' : Option Nat} {v v' : Variable}
    (h : v.subject function = v'.subject function') : v.ref? = v'.ref? := by
  have hnames := congrArg (Option.map Prod.snd) h
  simpa [subject, Function.comp_def] using hnames

theorem Variable.subject_own {v : Variable} {r : VarRef} (hr : v.ref? = some r)
    (hown : r.isShared = false) (index : Nat) : v.subject (some index) = some (some index, r) := by
  simp [subject, hr, VarRef.owner, hown]

/-- A variable that a piece of text declares, in a function or at file scope. -/
structure Declaration where
  function : Option Nat
  text : String
  declared : Variable

/-- The variable that is declared. -/
def Declaration.subject (d : Declaration) : Option (Option Nat × VarRef) :=
  d.declared.subject d.function

/-- The declaration of a variable that is not shared is one of its function. -/
theorem Declaration.eq_of_subject_eq {d : Declaration} {index : Nat} {r : VarRef}
    (h : d.subject = some (some index, r)) (hown : r.isShared = false) :
    d.function = some index ∧ d.declared.ref? = some r := by
  obtain ⟨r', hr, hsame⟩ := Option.map_eq_some_iff.1 h
  obtain ⟨howner, rfl⟩ := Prod.mk.inj hsame
  obtain ⟨k, hk, hindex⟩ := Option.bind_eq_some_iff.1 howner
  rw [VarRef.owner, hown] at hindex
  exact ⟨hk.trans hindex, hr⟩

/-- The declarations of a text. -/
def declarations (pieces : List (Option Nat × Piece)) : List Declaration :=
  pieces.flatMap fun (function, piece) => piece.declares.map (⟨function, piece.text, ·⟩)

theorem mem_declarations {pieces : List (Option Nat × Piece)} {d : Declaration} :
    d ∈ declarations pieces ↔
      ∃ piece, (d.function, piece) ∈ pieces ∧ d.text = piece.text ∧
        d.declared ∈ piece.declares := by
  constructor
  · intro h
    obtain ⟨⟨function, piece⟩, hpiece, hd⟩ := List.mem_flatMap.1 h
    obtain ⟨v, hv, rfl⟩ := List.mem_map.1 hd
    exact ⟨piece, hpiece, rfl, hv⟩
  · rintro ⟨piece, hpiece, htext, hv⟩
    refine List.mem_flatMap.2 ⟨_, hpiece, List.mem_map.2 ⟨d.declared, hv, ?_⟩⟩
    rw [← htext]

theorem declarations_append (pieces later : List (Option Nat × Piece)) :
    declarations (pieces ++ later) = declarations pieces ++ declarations later :=
  List.flatMap_append

theorem map_subject_declarations (function : Option Nat) (pieces : List Piece) :
    (declarations (pieces.map (function, ·))).map Declaration.subject =
      (pieces.flatMap (·.declares)).map (Variable.subject function) := by
  simp only [declarations, List.flatMap_map, List.map_flatMap, List.map_map]
  rfl

/-- Variables with different references are different variables. -/
theorem nodup_map_subject {vs : List Variable} (h : (vs.map Variable.ref?).Nodup)
    (function : Option Nat) : (vs.map (Variable.subject function)).Nodup :=
  List.pairwise_map.2 ((List.pairwise_map.1 h).imp fun hne hsame =>
    hne (Variable.ref?_eq_of_subject_eq hsame))

/-- A declaration whose subject differs from that of all others is the only one of it. -/
theorem filter_eq_singleton {α κ : Type} [DecidableEq κ] {key : α → κ} {l : List α} {x : α}
    (hdistinct : (l.map key).Nodup) (hx : x ∈ l) : l.filter (key · = key x) = [x] := by
  induction l with
  | nil => cases hx
  | cons first rest ih =>
      obtain ⟨hfirst, hrest⟩ := List.nodup_cons.1 hdistinct
      rcases List.mem_cons.1 hx with rfl | hx
      · have hnone : rest.filter (key · = key x) = [] :=
          List.filter_eq_nil_iff.2 fun y hy hsame =>
            hfirst (List.mem_map.2 ⟨y, hy, of_decide_eq_true hsame⟩)
        simp [hnone]
      · have hne : key first ≠ key x := fun heq => hfirst (List.mem_map.2 ⟨x, hx, heq.symm⟩)
        simp [hne, ih hrest hx]

section Units

variable {functions : List Function} {globals : Globals} {optimize : Bool}

theorem mem_unitPieces_iff {index : Nat} {piece : Piece} :
    (some index, piece) ∈ unitPieces functions globals optimize ↔
      ∃ f, functions[index]? = some f ∧ piece ∈ f.pieces globals optimize := by
  unfold unitPieces
  simp only [List.mem_append, List.mem_map, List.mem_flatMap, List.mem_cons, Prod.mk.injEq,
    Prod.exists, List.mem_zipIdx_iff_getElem?]
  constructor
  · rintro (⟨_, -, hnone, -⟩ | ⟨f, k, hf, ⟨hnone, -⟩ | ⟨_, hpiece, hk, rfl⟩⟩)
    · cases hnone
    · cases hnone
    · exact ⟨f, Option.some.inj hk ▸ hf, hpiece⟩
  · rintro ⟨f, hf, hpiece⟩
    exact Or.inr ⟨f, index, hf, Or.inr ⟨piece, hpiece, rfl, rfl⟩⟩

/-- The declarations that belong to a function. -/
theorem Flow.Function.declared_mem {index : Nat} {f : Function} (hf : functions[index]? = some f)
    {d : Declaration} (hd : d ∈ declarations (unitPieces functions globals optimize))
    (hfunction : d.function = some index) :
    d.declared ∈ f.frame.arguments.toList ++ f.usedLocals ++ f.introduced globals := by
  obtain ⟨piece, hpiece, -, hdeclares⟩ := mem_declarations.1 hd
  rw [hfunction] at hpiece
  obtain ⟨g, hg, hpiece⟩ := mem_unitPieces_iff.1 hpiece
  cases hf.symm.trans hg
  rw [← f.flatMap_pieces globals optimize]
  exact List.mem_flatMap.2 ⟨piece, hpiece, hdeclares⟩

/-- A call whose result is not mentioned is printed without a declaration. -/
theorem Flow.Function.bare_mem {index : Nat} {f : Function} (hf : functions[index]? = some f)
    {b : Block} (hb : b ∈ f.graph.blocks) (hvisited : b.visited = true) {r : VarRef} {value : Expr}
    (hs : .declare r value ∈ b.statements) (hr : r ∉ f.usedVars) :
    (some index, ⟨Line.indented (value.render (f.scope globals) ++ ";"), []⟩) ∈
      unitPieces functions globals optimize := by
  have hunused : f.usedVars.contains r = false := by simpa using hr
  have hlines : ∀ next, (Stmt.declare r value).lines (f.scope globals) f.usedVars.contains next =
      [.text (value.render (f.scope globals) ++ ";")] :=
    fun next => by simp only [Stmt.lines, hunused, Bool.false_eq_true, if_false]
  have hline := f.mem_markedLines globals optimize hb hvisited hs hlines
  rw [Stmt.introduced, hunused, if_neg Bool.false_ne_true] at hline
  refine mem_unitPieces_iff.2 ⟨f, hf, ?_⟩
  exact List.mem_append_left _ (List.mem_append_right _ (List.mem_map_of_mem hline))

/-- Do the variables that a function declares belong to it, and bear different references? -/
structure Flow.Function.DeclaresOwn (f : Function) (globals : Globals) : Prop where
  distinct : ((f.frame.arguments.toList ++ f.usedLocals ++ f.introduced globals).map
    Variable.ref?).Nodup
  own : ∀ v ∈ f.frame.arguments.toList ++ f.usedLocals ++ f.introduced globals,
    ∃ r, v.ref? = some r ∧ r.isShared = false

/-- No variable is declared twice. -/
theorem nodup_subjects
    (hshared : ((globals.statics.values ++ globals.globals.values).map Variable.ref?).Nodup)
    (hown : ∀ f ∈ functions, f.DeclaresOwn globals) :
    ((declarations (unitPieces functions globals optimize)).map Declaration.subject).Nodup := by
  have hbody : ∀ (f : Function) (k : Nat), (declarations
      ((none, ⟨if k = 0 ∧ globals.declarations = [] then "" else "\n", []⟩) ::
        (f.pieces globals optimize).map (some k, ·))).map Declaration.subject =
      (f.frame.arguments.toList ++ f.usedLocals ++ f.introduced globals).map
        (Variable.subject (some k)) := by
    intro f k
    rw [← f.flatMap_pieces globals optimize, ← map_subject_declarations]
    rfl
  have hunit : (declarations (unitPieces functions globals optimize)).map Declaration.subject =
      (globals.statics.values ++ globals.globals.values).map (Variable.subject none) ++
        functions.zipIdx.flatMap fun entry => (entry.1.frame.arguments.toList ++
          entry.1.usedLocals ++ entry.1.introduced globals).map
            (Variable.subject (some entry.2)) := by
    rw [unitPieces, declarations_append, List.map_append, map_subject_declarations,
      globals.flatMap_pieces]
    simp only [← hbody, declarations, List.flatMap_assoc, List.map_flatMap]
  have hmem : ∀ entry ∈ functions.zipIdx, ∀ subject ∈ (entry.1.frame.arguments.toList ++
      entry.1.usedLocals ++ entry.1.introduced globals).map (Variable.subject (some entry.2)),
        ∃ r, subject = some (some entry.2, r) := by
    intro entry hentry subject hsubject
    obtain ⟨v, hv, rfl⟩ := List.mem_map.1 hsubject
    obtain ⟨r, hr, hr'⟩ := (hown entry.1 (List.fst_mem_of_mem_zipIdx hentry)).own v hv
    exact ⟨r, Variable.subject_own hr hr' entry.2⟩
  rw [hunit, List.nodup_append]
  refine ⟨nodup_map_subject hshared none,
    List.pairwise_flatMap.2 ⟨fun entry hentry => ?_, ?_⟩, ?_⟩
  · exact nodup_map_subject (hown entry.1 (List.fst_mem_of_mem_zipIdx hentry)).distinct _
  · -- The functions of two subjects differ.
    have hindexes : functions.zipIdx.Pairwise fun a b => a.2 ≠ b.2 := by
      rw [← List.pairwise_map (f := Prod.snd), List.zipIdx_map_snd]
      exact List.nodup_range'
    refine hindexes.imp_of_mem fun {a b} ha hb hne x hx y hy hsame => hne ?_
    obtain ⟨r, rfl⟩ := hmem a ha x hx
    obtain ⟨r', rfl⟩ := hmem b hb y hy
    simpa using congrArg (Option.map Prod.fst) hsame
  · rintro x hx y hy rfl
    obtain ⟨v, -, rfl⟩ := List.mem_map.1 hx
    obtain ⟨entry, hentry, hy⟩ := List.mem_flatMap.1 hy
    obtain ⟨r, hr⟩ := hmem entry hentry _ hy
    obtain ⟨r', -, hr'⟩ := Option.map_eq_some_iff.1 hr
    cases hr'

end Units

/-- The variables of a table bear different references if these say their keys. -/
theorem Table.nodup_map_values {t : Table Variable} {g : Nat → VarRef}
    (hg : ∀ a b, g a = g b → a = b) (h : ∀ k v, t.get? k = some v → v.ref? = some (g k)) :
    (t.values.map Variable.ref?).Nodup := by
  have hrefs : t.values.map Variable.ref? = t.entries.map fun entry => some (g entry.1) := by
    rw [values, List.map_map]
    exact List.map_congr_left fun (k, v) hmem => h k v (get?_eq_some_iff.2 hmem)
  rw [hrefs]
  exact List.pairwise_map.2 (t.ascending.imp fun hlt hsame =>
    Nat.ne_of_lt hlt (hg _ _ (Option.some.inj hsame)))

theorem Table.mem_values {t : Table Variable} {k : Nat} {v : Variable} (h : t.get? k = some v) :
    v ∈ t.values :=
  List.mem_map.2 ⟨(k, v), get?_eq_some_iff.1 h, rfl⟩

theorem Table.exists_of_mem_values {t : Table Variable} {v : Variable} (hv : v ∈ t.values) :
    ∃ k, t.get? k = some v := by
  obtain ⟨⟨k, v'⟩, hmem, rfl⟩ := List.mem_map.1 hv
  exact ⟨k, get?_eq_some_iff.2 hmem⟩

theorem map_eq_map_range {α κ : Type} {l : List α} {key : α → κ} {g : Nat → κ}
    (h : ∀ i v, l[i]? = some v → key v = g i) : l.map key = (List.range l.length).map g := by
  refine List.ext_getElem (by simp) fun i hi _ => ?_
  rw [List.length_map] at hi
  rw [List.getElem_map, List.getElem_map, List.getElem_range]
  exact h i _ (List.getElem?_eq_getElem hi)

theorem Frame.slot?_eq_getElem? (f : Frame) (index : Nat) :
    f.slot? index = (f.arguments.toList ++ f.locals.toList)[index]? := by
  unfold slot?
  rw [List.getElem?_append, Array.length_toList]
  split <;> simp

/-- No two variables at file scope bear the same reference. -/
theorem Store.Labelled.nodup_shared {s : Store} (h : s.Labelled) :
    ((s.globals.statics.values ++ s.globals.globals.values).map Variable.ref?).Nodup := by
  rw [List.map_append, List.nodup_append]
  refine ⟨Table.nodup_map_values (by simp) fun k => h (.static k),
    Table.nodup_map_values (by simp) fun k => h (.global k), ?_⟩
  rintro _ hr _ hr' rfl
  obtain ⟨v, hv, rfl⟩ := List.mem_map.1 hr
  obtain ⟨v', hv', hsame⟩ := List.mem_map.1 hr'
  obtain ⟨k, hk⟩ := Table.exists_of_mem_values hv
  obtain ⟨k', hk'⟩ := Table.exists_of_mem_values hv'
  rw [h (.static k) v hk, h (.global k') v' hk'] at hsame
  cases hsame

section Functions

variable {f : Function} {globals : Globals}

/-- What statements introduce are variables that they declare. -/
theorem sublist_introduced {scope : Scope} (h : ∀ r v, scope.get? r = some v → v.ref? = some r)
    (used : VarRef → Bool) (statements : List Stmt) :
    ((statements.flatMap (Stmt.introduced scope used)).map Variable.ref?).Sublist
      ((Stmt.declared statements).map some) := by
  induction statements with
  | nil => exact .slnil
  | cons s rest ih =>
      rw [List.flatMap_cons, List.map_append]
      cases s with
      | declare r value =>
          have hcons : (Stmt.declared (.declare r value :: rest)).map some =
              [some r] ++ (Stmt.declared rest).map some := rfl
          rw [hcons]
          refine List.Sublist.append ?_ ih
          rw [Stmt.introduced]
          split
          · cases hr : scope.get? r with
            | none => exact List.nil_sublist _
            | some v => simp [h r v hr]
          · exact List.nil_sublist _
      | _ => exact ih

theorem Flow.Function.sublist_introduced
    (h : ∀ r v, (f.scope globals).get? r = some v → v.ref? = some r) :
    ((f.introduced globals).map Variable.ref?).Sublist
      ((Stmt.declared (f.graph.blocks.flatMap (·.statements))).map some) := by
  refine .trans (.map _ ?_) (ScriptDecompiler.sublist_introduced h f.usedVars.contains _)
  rw [List.flatMap_assoc]
  refine List.Sublist.flatMap_right _ fun b _ => ?_
  unfold Block.introduced
  split
  · exact .refl _
  · exact List.nil_sublist _

/-- Slots are told apart by their references. -/
theorem Flow.Function.map_ref?_slots
    (h : ∀ r v, (f.scope globals).get? r = some v → v.ref? = some r) :
    (f.frame.arguments.toList ++ f.frame.locals.toList).map Variable.ref? =
      (List.range (f.frame.arguments.toList ++ f.frame.locals.toList).length).map
        fun i => some (.slot i) :=
  map_eq_map_range fun i v hv => h (.slot i) v ((f.frame.slot?_eq_getElem? i).trans hv)

/-- If every variable in sight bears its reference, and each temporary is declared once, then
nothing is declared twice in a function. -/
theorem Flow.Function.declaresOwn
    (h : ∀ r v, (f.scope globals).get? r = some v → v.ref? = some r)
    (hdeclared : (Stmt.declared (f.graph.blocks.flatMap (·.statements))).Perm
      (temps 0 f.frame.temporaries.size)) : f.DeclaresOwn globals := by
  have hlocals : (f.frame.arguments.toList ++ f.usedLocals).Sublist
      (f.frame.arguments.toList ++ f.frame.locals.toList) :=
    (List.Sublist.refl _).append List.filter_sublist
  have hslot : ∀ v ∈ f.frame.arguments.toList ++ f.usedLocals, ∃ i, v.ref? = some (.slot i) := by
    intro v hv
    have hmem := List.mem_map_of_mem (f := Variable.ref?) (hlocals.subset hv)
    rw [map_ref?_slots h] at hmem
    obtain ⟨i, -, hi⟩ := List.mem_map.1 hmem
    exact ⟨i, hi.symm⟩
  have htemp : ∀ v ∈ f.introduced globals, ∃ i, v.ref? = some (.temp i) := by
    intro v hv
    have hmem := (sublist_introduced h).subset (List.mem_map_of_mem hv)
    obtain ⟨r, hr, hsame⟩ := List.mem_map.1 hmem
    obtain ⟨i, -, rfl⟩ := List.mem_map.1 (hdeclared.subset hr)
    exact ⟨i, hsame.symm⟩
  refine ⟨?_, fun v hv => ?_⟩
  · rw [List.map_append, List.nodup_append]
    refine ⟨List.Nodup.sublist (hlocals.map _) ?_, List.Nodup.sublist (sublist_introduced h) ?_, ?_⟩
    · rw [map_ref?_slots h]
      exact List.Nodup.map (fun a b hab => by simpa using hab) List.nodup_range
    · refine List.Nodup.map (fun a b => Option.some.inj) (hdeclared.nodup_iff.2 ?_)
      exact List.Nodup.map (fun a b hab => by simpa using hab) List.nodup_range'
    · rintro _ hr _ hr' rfl
      obtain ⟨v, hv, rfl⟩ := List.mem_map.1 hr
      obtain ⟨v', hv', hsame⟩ := List.mem_map.1 hr'
      obtain ⟨i, hi⟩ := hslot v hv
      obtain ⟨j, hj⟩ := htemp v' hv'
      rw [hi, hj] at hsame
      cases hsame
  · rcases List.mem_append.1 hv with hv | hv
    · obtain ⟨i, hi⟩ := hslot v hv
      exact ⟨_, hi, rfl⟩
    · obtain ⟨i, hi⟩ := htemp v hv
      exact ⟨_, hi, rfl⟩

/-- What a function declares is an argument, or a statement mentions it. -/
theorem Flow.Function.argument_or_used
    (h : ∀ r v, (f.scope globals).get? r = some v → v.ref? = some r) {v : Variable} {r : VarRef}
    (hv : v ∈ f.frame.arguments.toList ++ f.usedLocals ++ f.introduced globals)
    (hr : v.ref? = some r) :
    (∃ position < f.frame.arguments.size, r = .slot position) ∨ r ∈ f.usedVars := by
  have hslot : ∀ {position : Nat}, f.frame.slot? position = some v → r = .slot position :=
    fun {position} hv => Option.some.inj (hr.symm.trans (h (.slot position) v hv))
  rcases List.mem_append.1 hv with hv | hv
  · rcases List.mem_append.1 hv with hargument | hlocal
    · obtain ⟨position, hposition⟩ := List.mem_iff_getElem?.1 hargument
      rw [Array.getElem?_toList] at hposition
      obtain ⟨hlt, -⟩ := Array.getElem?_eq_some_iff.1 hposition
      exact .inl ⟨position, hlt, hslot ((if_pos hlt).trans hposition)⟩
    · obtain ⟨hlocal, hused⟩ := List.mem_filter.1 hlocal
      obtain ⟨position, hposition⟩ := List.mem_iff_getElem?.1 hlocal
      rw [Array.getElem?_toList] at hposition
      have hsame : r = .slot (f.frame.arguments.size + position) :=
        hslot (by simpa [Frame.slot?] using hposition)
      rw [Variable.index_of_ref?_slot (hr.trans (congrArg some hsame)), ← hsame] at hused
      exact .inr (List.contains_iff_mem.1 hused)
  · obtain ⟨b, -, hv⟩ := List.mem_flatMap.1 hv
    unfold Block.introduced at hv
    split at hv
    · obtain ⟨statement, -, hv⟩ := List.mem_flatMap.1 hv
      unfold Stmt.introduced at hv
      split at hv
      · split at hv
        · rename_i r' _ hused
          have hsame : r = r' := Option.some.inj
            (hr.symm.trans (h r' v (Option.mem_toList.1 hv)))
          exact .inr (hsame ▸ List.contains_iff_mem.1 hused)
        · cases hv
      · cases hv
    · cases hv

end Functions

/-- How a variable that a function names is declared: an argument in the header, another local
on a line of its own, a temporary where it is introduced, and a static or global on a line at
file scope. -/
inductive Flow.Function.Declares (f : Function) (globals : Globals) (index : Nat) :
    VarRef → Declaration → Prop
  | argument {position : Nat} {v : Variable} (hv : f.frame.arguments[position]? = some v) :
    Declares f globals index (.slot position) ⟨some index, f.header, v⟩
  | slot {position : Nat} {v : Variable} (hv : f.frame.locals[position]? = some v) :
    Declares f globals index (.slot (f.frame.arguments.size + position))
      ⟨some index, Line.indented (v.text ++ ";"), v⟩
  | temp {i : Nat} {v : Variable} {b : Block} {value : Expr} (hb : b ∈ f.graph.blocks)
      (hvisited : b.visited = true) (hs : .declare (.temp i) value ∈ b.statements)
      (hv : f.frame.temporaries[i]? = some v) :
    Declares f globals index (.temp i)
      ⟨some index, Line.indented (v.text ++ " = " ++ value.render (f.scope globals) ++ ";"), v⟩
  | static {i : Nat} {v : Variable} (hv : globals.statics.get? i = some v) :
    Declares f globals index (.static i) ⟨none, Globals.staticLine v, v⟩
  | global {i : Nat} {v : Variable} (hv : globals.globals.get? i = some v) :
    Declares f globals index (.global i) ⟨none, Globals.globalLine v, v⟩

namespace Flow.Function.Declares

variable {functions : List Function} {f : Function} {globals : Globals} {index : Nat}
  {r : VarRef} {d : Declaration}

/-- What is declared is what the reference denotes. -/
theorem resolves (h : f.Declares globals index r d) :
    (f.scope globals).get? r = some d.declared := by
  cases h with
  | @argument position v hv =>
      obtain ⟨hlt, -⟩ := Array.getElem?_eq_some_iff.1 hv
      exact (if_pos hlt).trans hv
  | @slot position v hv =>
      simpa [scope, Frame.slot?] using hv
  | temp _ _ _ hv => exact hv
  | static hv => exact hv
  | global hv => exact hv

theorem function_eq (h : f.Declares globals index r d) : d.function = r.owner index := by
  cases h <;> rfl

theorem subject_eq (h : f.Declares globals index r d)
    (hscope : ∀ r v, (f.scope globals).get? r = some v → v.ref? = some r) :
    d.subject = some (r.owner index, r) := by
  rw [Declaration.subject, Variable.subject, hscope r _ h.resolves, h.function_eq]
  cases r <;> rfl

/-- If a statement mentions the variable, it is declared in the text of the unit. -/
theorem mem (h : f.Declares globals index r d) (hf : functions[index]? = some f)
    (hscope : ∀ r v, (f.scope globals).get? r = some v → v.ref? = some r)
    (hused : r ∈ f.usedVars) (optimize : Bool) :
    d ∈ declarations (unitPieces functions globals optimize) := by
  have hown : ∀ (text : String) (vs : List Variable) (v : Variable),
      ⟨text, vs⟩ ∈ f.pieces globals optimize → v ∈ vs →
        ⟨some index, text, v⟩ ∈ declarations (unitPieces functions globals optimize) :=
    fun text vs v hpiece hv =>
      mem_declarations.2 ⟨_, mem_unitPieces_iff.2 ⟨f, hf, hpiece⟩, rfl, hv⟩
  have hshared : ∀ (text : String) (v : Variable), ⟨text, [v]⟩ ∈ globals.pieces →
      ⟨none, text, v⟩ ∈ declarations (unitPieces functions globals optimize) :=
    fun text v hpiece => mem_declarations.2
      ⟨_, List.mem_append_left _ (List.mem_map_of_mem hpiece), rfl, List.mem_singleton.2 rfl⟩
  have hcontains : f.usedVars.contains r = true := List.contains_iff_mem.2 hused
  have hget := h.resolves
  cases h with
  | @argument position v hv =>
      refine hown _ f.frame.arguments.toList v ?_
        (Array.mem_toList_iff.2 (Array.mem_of_getElem? hv))
      exact List.mem_append_left _ (List.mem_append_left _ List.mem_cons_self)
  | @slot position v hv =>
      refine hown _ [v] v ?_ (List.mem_singleton.2 rfl)
      have hindex : v.index = f.frame.arguments.size + position :=
        Variable.index_of_ref?_slot (hscope _ v hget)
      have hlocal : v ∈ f.usedLocals :=
        List.mem_filter.2 ⟨Array.mem_toList_iff.2 (Array.mem_of_getElem? hv), by rwa [hindex]⟩
      exact List.mem_append_left _ (List.mem_append_left _
        (List.mem_cons_of_mem _ (List.mem_map_of_mem hlocal)))
  | @temp i v b value hb hvisited hs hv =>
      have hlines : ∀ next, (Stmt.declare (.temp i) value).lines (f.scope globals)
          f.usedVars.contains next =
            [.text (v.text ++ " = " ++ value.render (f.scope globals) ++ ";")] := fun next => by
        simp only [Stmt.lines, hcontains, if_true, hget]
      have hline := f.mem_markedLines globals optimize hb hvisited hs hlines
      refine hown _ _ v (List.mem_append_left _ (List.mem_append_right _
        (List.mem_map_of_mem hline))) ?_
      simp [Stmt.introduced, hused, hget]
  | static hv =>
      exact hshared _ _ (List.mem_append_left _ (List.mem_map_of_mem (Table.mem_values hv)))
  | global hv =>
      exact hshared _ _ (List.mem_append_right _ (List.mem_map_of_mem (Table.mem_values hv)))

end Flow.Function.Declares

namespace Machine

variable {u : ScriptUnit} {natives : Native.Database} {annotate : Bool}
  {instructions : List Bytecode.Instruction} {p : Program} {index : Nat} {f : Function}

theorem function?_eq (p : Program) (index : Nat) : p.function? index = p.functions[index]? := by
  unfold Program.function? Program.functions
  rw [List.getElem?_zipWith, Array.getElem?_toList, Array.getElem?_toList]
  split <;> simp_all

theorem scope_eq (hf : p.function? index = some f) :
    f.scope p.store.globals = p.store.scope index := by
  have hframe := frames_of_function? hf
  unfold Function.scope Store.scope
  congr 1
  funext r
  cases r <;> simp [Store.get?, hframe]

theorem ref?_of_scope (hlabelled : p.store.Labelled) (hf : p.function? index = some f) :
    ∀ r v, (f.scope p.store.globals).get? r = some v → v.ref? = some r := by
  rw [scope_eq hf]
  exact fun r v => hlabelled.ref?_of_get?

/-- What a statement mentions can be seen. -/
theorem Tidy.sees_of_mem_usedVars (h : Tidy index f.graph p.store) {r : VarRef}
    (hr : r ∈ f.usedVars) : p.store.Sees index r := by
  obtain ⟨b, hb, hr⟩ := List.mem_flatMap.1 hr
  obtain ⟨statement, hstatement, hr⟩ := List.mem_flatMap.1 hr
  exact ((h.fits b hb).statements statement hstatement).sees r hr

/-- Each of the rules for declarations has its references. -/
theorem Tidy.exists_declares (h : Tidy index f.graph p.store) (hf : p.function? index = some f)
    {r : VarRef} (hr : p.store.Sees index r) : ∃ d, f.Declares p.store.globals index r d := by
  obtain ⟨v, hv⟩ := hr
  have hframe := frames_of_function? hf
  cases r with
  | static i => exact ⟨_, .static hv⟩
  | global i => exact ⟨_, .global hv⟩
  | slot i =>
      rw [Store.get?, hframe, Option.bind_some, Frame.slot?] at hv
      split at hv
      · exact ⟨_, .argument hv⟩
      · rename_i hlocal
        obtain ⟨position, rfl⟩ := Nat.exists_eq_add_of_le (Nat.le_of_not_lt hlocal)
        rw [Nat.add_sub_cancel_left] at hv
        exact ⟨_, .slot hv⟩
  | temp i =>
      rw [Store.get?, hframe, Option.bind_some] at hv
      obtain ⟨hlt, -⟩ := Array.getElem?_eq_some_iff.1 hv
      have hdeclared : .temp i ∈ Stmt.declared (f.graph.blocks.flatMap (·.statements)) :=
        (h.declared_temps hf).mem_iff.2
          (List.mem_map_of_mem (List.mem_range'_1.2 ⟨Nat.zero_le i, by omega⟩))
      obtain ⟨statement, hstatement, htemp⟩ := List.mem_filterMap.1 hdeclared
      obtain ⟨b, hb, hstatement⟩ := List.mem_flatMap.1 hstatement
      obtain ⟨value, rfl⟩ := Stmt.declared?_eq_some htemp
      exact ⟨_, .temp hb (h.visited hb hstatement) hstatement hv⟩

/-- In a unit that was decompiled nothing is declared twice. -/
theorem nodup_subjects_of_run (hcode : u.instructions = .ok instructions)
    (hrun : (u.program instructions).run u natives annotate = (none, p)) (optimize : Bool) :
    ((declarations (unitPieces p.functions p.store.globals optimize)).map
      Declaration.subject).Nodup := by
  have hlabelled := labelled_of_run hrun
  refine nodup_subjects hlabelled.nodup_shared fun f hf => ?_
  obtain ⟨index, hindex⟩ := List.mem_iff_getElem?.1 hf
  have hf : p.function? index = some f := (function?_eq p index).trans hindex
  exact f.declaresOwn (ref?_of_scope hlabelled hf)
    ((tidy_of_run hcode hrun hf).declared_temps hf)

end Machine

end ScriptDecompiler
