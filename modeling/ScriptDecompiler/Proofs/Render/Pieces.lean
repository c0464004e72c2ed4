import ScriptDecompiler.Render.Function

/-!
# The pieces of a rendered unit

The text of a unit is put together from pieces.  Each piece is kept here with the variables
that it declares:

* the header of a function declares its arguments;
* the line of a local, of a static or of a global declares this variable;
* the line of a call whose result is used declares the temporary that holds it;
* no other piece declares anything.
-/

namespace ScriptDecompiler

open ScriptDecompiler.Flow (Block Function)

/-- A piece of text, and the variables that it declares. -/
structure Piece where
  text : String
  declares : List Variable

namespace Stmt

variable (scope : Scope) (used : VarRef → Bool) (next : Option Nat) (optimize : Bool)

/-- The variables that the lines of a statement declare. -/
def introduced : Stmt → List Variable
  | declare r _ => if used r then (scope.get? r).toList else []
  | _ => []

/-- The lines of a statement, with what they declare. -/
def marked (s : Stmt) : List (Line × List Variable) :=
  (s.lines scope used next).map fun line => (line, s.introduced scope used)

/-- The lines of a statement, each with what `tag` says of the statement. -/
def tagged {β : Type} (tag : Stmt → β) (s : Stmt) : List (Line × β) :=
  (s.lines scope used next).map fun line => (line, tag s)

/-- The statements of a block that are printed: all but a jump at the end that is dropped. -/
def printed : List Stmt → List Stmt
  | [] => []
  | [goto target] => if optimize && next = some target then [] else [goto target]
  | s :: rest => s :: printed rest

theorem linesOfAll_eq (statements : List Stmt) :
    linesOfAll scope used next optimize statements =
      (printed next optimize statements).flatMap (lines scope used next) := by
  fun_induction linesOfAll scope used next optimize statements with
  | case1 => rfl
  | case2 target hdropped => simp [printed, hdropped]
  | case3 target hkept => simp [printed, hkept, lines]
  | case4 s rest hrest ih =>
      rw [printed, List.flatMap_cons, ih]
      exact hrest

theorem mem_printed {statements : List Stmt} {s : Stmt} (h : s ∈ statements)
    (hs : ∀ target, s ≠ goto target) : s ∈ printed next optimize statements := by
  fun_induction printed next optimize statements with
  | case1 => cases h
  | case2 target => exact absurd (List.mem_singleton.1 h) (hs target)
  | case3 => exact h
  | case4 first rest _ ih =>
      rcases List.mem_cons.1 h with rfl | h
      · exact List.mem_cons_self
      · exact List.mem_cons_of_mem _ (ih h)

theorem mem_of_mem_printed {statements : List Stmt} {s : Stmt}
    (h : s ∈ printed next optimize statements) : s ∈ statements := by
  fun_induction printed next optimize statements with
  | case1 => cases h
  | case2 => cases h
  | case3 => exact h
  | case4 first rest _ ih =>
      rcases List.mem_cons.1 h with rfl | h
      · exact List.mem_cons_self
      · exact List.mem_cons_of_mem _ (ih h)

/-- Is the statement a jump to the block printed next? -/
def jumpsTo (next : Option Nat) : Stmt → Bool
  | goto target => next = some target
  | _ => false

variable {next optimize} in
theorem jumpsTo_iff {s : Stmt} :
    s.jumpsTo next = true ↔ ∃ target, s = goto target ∧ next = some target := by
  cases s <;> simp [jumpsTo]

variable {next optimize} in
theorem printed_of_jumpsTo {s : Stmt} (hoptimize : optimize = true)
    (hjump : s.jumpsTo next = true) : printed next optimize [s] = [] := by
  obtain ⟨target, rfl, hnext⟩ := jumpsTo_iff.1 hjump
  simp [printed, hoptimize, hnext]

theorem printed_cons {s : Stmt} {rest : List Stmt}
    (h : ¬ (optimize = true ∧ s.jumpsTo next = true ∧ rest = [])) :
    printed next optimize (s :: rest) = s :: printed next optimize rest := by
  by_cases hlast : ∃ target, s = goto target ∧ rest = []
  · obtain ⟨target, rfl, rfl⟩ := hlast
    have hkept : ¬ (optimize && next = some target) = true := fun hdropped =>
      h ⟨(Bool.and_eq_true_iff.1 hdropped).1, (Bool.and_eq_true_iff.1 hdropped).2, rfl⟩
    exact if_neg hkept
  · rw [printed]
    exact fun target hs hnil => hlast ⟨target, hs, hnil⟩

/-- A dropped jump declares nothing. -/
theorem flatMap_printed (statements : List Stmt) :
    (printed next optimize statements).flatMap (introduced scope used) =
      statements.flatMap (introduced scope used) := by
  fun_induction printed next optimize statements with
  | case1 => rfl
  | case2 => rfl
  | case3 => rfl
  | case4 s rest hrest ih => rw [List.flatMap_cons, List.flatMap_cons, ih]

theorem flatMap_marked (s : Stmt) :
    (s.marked scope used next).flatMap (·.2) = s.introduced scope used := by
  cases s with
  | declare r value =>
      simp only [marked, lines, introduced]
      split <;> simp
  | _ => simp [marked, introduced]

/-- Lines that declare something are kept. -/
theorem isKept_of_mem_marked {s : Stmt} {line : Line × List Variable}
    (h : line ∈ s.marked scope used next) (hne : line.2 ≠ []) (targets : List Nat) :
    line.1.isKept targets = true := by
  obtain ⟨l, hl, rfl⟩ := List.mem_map.1 h
  cases s with
  | declare r value =>
      simp only [lines] at hl
      split at hl <;> rw [List.mem_singleton.1 hl] <;> rfl
  | _ => exact absurd rfl hne

end Stmt

namespace Flow.Block

variable (scope : Scope) (used : VarRef → Bool) (optimize : Bool)

/-- The variables that the lines of a block declare. -/
def introduced (b : Block) : List Variable :=
  if b.visited then b.statements.flatMap (Stmt.introduced scope used) else []

/-- The lines of a block, with what they declare. -/
def marked (next : Option Nat) (b : Block) : List (Line × List Variable) :=
  if b.visited then
    (.label b.start, []) ::
      (Stmt.printed next optimize b.statements).flatMap (Stmt.marked scope used next)
  else (b.lines scope used next optimize).map fun line => (line, [])

/-- The lines of blocks that are printed in the given order, with what they declare. -/
def markedOfAll : List Block → List (Line × List Variable)
  | [] => []
  | b :: rest => b.marked scope used optimize (rest.head?.map (·.start)) ++ markedOfAll rest

section Tags

variable {β : Type} (tag : Stmt → β) (plain : β)

/-- The lines of a block, those of a statement with what `tag` says of it, the others with
`plain`. -/
def tagged (next : Option Nat) (b : Block) : List (Line × β) :=
  if b.visited then
    (.label b.start, plain) ::
      (Stmt.printed next optimize b.statements).flatMap (Stmt.tagged scope used next tag)
  else (b.lines scope used next optimize).map fun line => (line, plain)

/-- The tagged lines of blocks that are printed in the given order. -/
def taggedOfAll : List Block → List (Line × β)
  | [] => []
  | b :: rest => b.tagged scope used optimize tag plain (rest.head?.map (·.start)) ++
      taggedOfAll rest

theorem map_tagged (next : Option Nat) (b : Block) :
    (b.tagged scope used optimize tag plain next).map (·.1) =
      b.lines scope used next optimize := by
  unfold tagged lines
  split
  · rw [List.map_cons, List.map_flatMap, Stmt.linesOfAll_eq]
    simp [Stmt.tagged, Function.comp_def]
  · simp [Function.comp_def]

theorem map_taggedOfAll (blocks : List Block) :
    (taggedOfAll scope used optimize tag plain blocks).map (·.1) =
      linesOfAll scope used optimize blocks := by
  induction blocks with
  | nil => rfl
  | cons b rest ih => rw [taggedOfAll, List.map_append, map_tagged, ih, linesOfAll]

end Tags

/-- What a line declares is a tag: the variables that its statement introduces. -/
theorem markedOfAll_eq (blocks : List Block) : markedOfAll scope used optimize blocks =
    taggedOfAll scope used optimize (Stmt.introduced scope used) [] blocks := by
  induction blocks with
  | nil => rfl
  | cons b rest ih => exact congrArg (b.marked scope used optimize _ ++ ·) ih

theorem flatMap_marked (next : Option Nat) (b : Block) :
    (b.marked scope used optimize next).flatMap (·.2) = b.introduced scope used := by
  unfold marked introduced
  split
  · rw [List.flatMap_cons, List.flatMap_assoc, List.nil_append]
    simp only [Stmt.flatMap_marked]
    exact Stmt.flatMap_printed scope used next optimize b.statements
  · simp

theorem flatMap_markedOfAll (blocks : List Block) :
    (markedOfAll scope used optimize blocks).flatMap (·.2) =
      blocks.flatMap (introduced scope used) := by
  induction blocks with
  | nil => rfl
  | cons b rest ih => rw [markedOfAll, List.flatMap_append, flatMap_marked, ih, List.flatMap_cons]

theorem isKept_of_mem_marked {next : Option Nat} {b : Block} {line : Line × List Variable}
    (h : line ∈ b.marked scope used optimize next) (hne : line.2 ≠ []) (targets : List Nat) :
    line.1.isKept targets = true := by
  unfold marked at h
  split at h
  · rcases List.mem_cons.1 h with rfl | h
    · exact absurd rfl hne
    · obtain ⟨s, -, hline⟩ := List.mem_flatMap.1 h
      exact Stmt.isKept_of_mem_marked scope used next hline hne targets
  · obtain ⟨l, -, rfl⟩ := List.mem_map.1 h
    exact absurd rfl hne

theorem isKept_of_mem_markedOfAll {blocks : List Block} {line : Line × List Variable}
    (h : line ∈ markedOfAll scope used optimize blocks) (hne : line.2 ≠ []) (targets : List Nat) :
    line.1.isKept targets = true := by
  induction blocks with
  | nil => cases h
  | cons b rest ih =>
      rcases List.mem_append.1 h with h | h
      · exact isKept_of_mem_marked scope used optimize h hne targets
      · exact ih h

theorem mem_marked (next : Option Nat) {b : Block} {s : Stmt} (hvisited : b.visited = true)
    (hs : s ∈ b.statements) (hgoto : ∀ target, s ≠ .goto target) :
    ∀ line ∈ s.marked scope used next, line ∈ b.marked scope used optimize next := by
  intro line hline
  rw [marked, if_pos hvisited]
  exact List.mem_cons_of_mem _
    (List.mem_flatMap.2 ⟨s, Stmt.mem_printed next optimize hs hgoto, hline⟩)

theorem exists_mem_markedOfAll {blocks : List Block} {b : Block} (hb : b ∈ blocks) :
    ∃ next, ∀ line ∈ b.marked scope used optimize next,
      line ∈ markedOfAll scope used optimize blocks := by
  induction blocks with
  | nil => cases hb
  | cons first rest ih =>
      rcases List.mem_cons.1 hb with rfl | hb
      · exact ⟨_, fun line hline => List.mem_append_left _ hline⟩
      · obtain ⟨next, hnext⟩ := ih hb
        exact ⟨next, fun line hline => List.mem_append_right _ (hnext line hline)⟩

end Flow.Block

/-- Nothing is lost if only what comes to nothing is left out. -/
theorem flatMap_filter_of_ne_nil {α β : Type} {keep : α → Bool} {g : α → List β} {l : List α}
    (h : ∀ x ∈ l, g x ≠ [] → keep x = true) : (l.filter keep).flatMap g = l.flatMap g := by
  induction l with
  | nil => rfl
  | cons x rest ih =>
      obtain ⟨hx, hrest⟩ := List.forall_mem_cons.1 h
      rw [List.filter_cons, List.flatMap_cons, ← ih hrest]
      split
      · rfl
      · rename_i hdropped
        rw [Decidable.not_not.1 (mt hx hdropped), List.nil_append]

namespace Flow.Function

variable (f : Function) (globals : Globals) (optimize : Bool)

/-- The locals that are declared: those that the statements mention. -/
def usedLocals : List Variable :=
  f.frame.locals.toList.filter fun v => f.usedVars.contains (.slot v.index)

/-- The temporaries that are declared. -/
def introduced : List Variable :=
  f.graph.blocks.flatMap (Block.introduced (f.scope globals) f.usedVars.contains)

/-- The lines of the body that are printed, with what they declare. -/
def markedLines : List (Line × List Variable) :=
  let targets := (f.bodyLines globals optimize).flatMap Line.targets
  (Block.markedOfAll (f.scope globals) f.usedVars.contains optimize f.graph.blocks).filter
    fun line => line.1.isKept targets

/-- The pieces of a function. -/
def pieces : List Piece :=
  ⟨f.header, f.frame.arguments.toList⟩ ::
    (f.usedLocals.map fun v => ⟨Line.indented (v.text ++ ";"), [v]⟩) ++
    ((f.markedLines globals optimize).map fun line => ⟨line.1.render, line.2⟩) ++
    [⟨"\x7d\n", []⟩]

/-- The line of a call whose result a statement declares. -/
theorem mem_markedLines {b : Block} (hb : b ∈ f.graph.blocks) (hvisited : b.visited = true)
    {r : VarRef} {value : Expr} {text : String} (hs : .declare r value ∈ b.statements)
    (hline : ∀ next, (Stmt.declare r value).lines (f.scope globals) f.usedVars.contains next =
      [.text text]) :
    (.text text, (Stmt.declare r value).introduced (f.scope globals) f.usedVars.contains) ∈
      f.markedLines globals optimize := by
  obtain ⟨next, hnext⟩ :=
    Block.exists_mem_markedOfAll (f.scope globals) f.usedVars.contains optimize hb
  refine List.mem_filter.2 ⟨hnext _ ?_, rfl⟩
  refine Block.mem_marked _ _ optimize next hvisited hs (by simp) _ ?_
  rw [Stmt.marked, hline]
  exact List.mem_singleton.2 rfl

section Tags

variable {β : Type} (tag : Stmt → β) (plain : β)

/-- The lines of the body that are printed, those of a statement with what `tag` says of it, the
others with `plain`. -/
def taggedLines : List (Line × β) :=
  let targets := (f.bodyLines globals optimize).flatMap Line.targets
  (Block.taggedOfAll (f.scope globals) f.usedVars.contains optimize tag plain
    f.graph.blocks).filter fun line => line.1.isKept targets

theorem map_taggedLines :
    (f.taggedLines globals optimize tag plain).map (·.1) = f.printedLines globals optimize := by
  unfold taggedLines printedLines bodyLines
  rw [← Block.map_taggedOfAll _ _ optimize tag plain, List.filter_map]
  rfl

end Tags

theorem map_markedLines :
    (f.markedLines globals optimize).map (·.1) = f.printedLines globals optimize := by
  unfold markedLines
  rw [Block.markedOfAll_eq]
  exact f.map_taggedLines globals optimize _ _

/-- Together the pieces are the text of the function. -/
theorem join_pieces :
    String.join ((f.pieces globals optimize).map (·.text)) = f.render globals optimize := by
  unfold pieces render localLines usedLocals
  rw [← map_markedLines]
  simp only [List.map_append, List.map_cons, List.map_nil, List.map_map, String.join_append,
    String.join_cons, String.join_nil, String.append_empty, Function.comp_def, List.cons_append]
  simp only [String.append_assoc]

/-- What a function declares: its arguments, the locals that it uses, and temporaries. -/
theorem flatMap_pieces :
    (f.pieces globals optimize).flatMap (·.declares) =
      f.frame.arguments.toList ++ f.usedLocals ++ f.introduced globals := by
  have hlines : (f.markedLines globals optimize).flatMap (·.2) = f.introduced globals := by
    rw [introduced, ← Block.flatMap_markedOfAll _ _ optimize]
    exact flatMap_filter_of_ne_nil fun line hline hne =>
      Block.isKept_of_mem_markedOfAll _ _ optimize hline hne _
  unfold pieces
  simp only [List.cons_append, List.flatMap_cons, List.flatMap_append, List.flatMap_map, hlines,
    List.flatMap_nil, List.append_nil, List.append_assoc]
  simp

end Flow.Function

namespace Globals

/-- The pieces at file scope. -/
def pieces (g : Globals) : List Piece :=
  (g.statics.values.map fun v => ⟨staticLine v, [v]⟩) ++
    g.globals.values.map fun v => ⟨globalLine v, [v]⟩

theorem map_pieces (g : Globals) : g.pieces.map (·.text) = g.declarations := by
  simp [pieces, declarations, Function.comp_def]

theorem flatMap_pieces (g : Globals) :
    g.pieces.flatMap (·.declares) = g.statics.values ++ g.globals.values := by
  simp [pieces, List.flatMap_map]

end Globals

/-- The pieces of a unit, each with the function that it belongs to, if there is one. -/
def unitPieces (functions : List Function) (globals : Globals) (optimize : Bool) :
    List (Option Nat × Piece) :=
  globals.pieces.map (none, ·) ++
    functions.zipIdx.flatMap fun (f, index) =>
      (none, ⟨if index = 0 ∧ globals.declarations = [] then "" else "\n", []⟩) ::
        (f.pieces globals optimize).map (some index, ·)

theorem Flow.Function.render_ne_empty (f : Function) (globals : Globals) (optimize : Bool) :
    f.render globals optimize ≠ "" := by
  intro hempty
  have hend := (String.append_eq_empty_iff.1 hempty).2
  simp at hend

theorem Globals.ne_empty_of_mem_declarations {g : Globals} {line : String}
    (h : line ∈ g.declarations) : line ≠ "" := by
  rcases List.mem_append.1 h with hline | hline
  · obtain ⟨v, -, rfl⟩ := List.mem_map.1 hline
    unfold staticLine
    split
    · split <;> simp
    · simp
  · obtain ⟨v, -, rfl⟩ := List.mem_map.1 hline
    simp [globalLine]

theorem Globals.join_declarations_eq_empty_iff (g : Globals) :
    String.join g.declarations = "" ↔ g.declarations = [] := by
  cases hdeclarations : g.declarations with
  | nil => simp
  | cons line rest =>
      have hline : line ≠ "" := ne_empty_of_mem_declarations (hdeclarations ▸ List.mem_cons_self)
      simp [hline]

/-- Functions behind a text that is empty only in front of the first one of a unit without
declarations: every other one starts with a blank line. -/
theorem foldl_render (globals : Globals) (optimize : Bool) (functions : List Function) (first : Nat)
    (out : String) (hout : out = "" ↔ first = 0 ∧ globals.declarations = []) :
    functions.foldl (fun out f =>
      let separated := if out.isEmpty then out else out ++ "\n"
      separated ++ f.render globals optimize) out =
    out ++ String.join ((functions.zipIdx first).flatMap fun (f, index) =>
      (if index = 0 ∧ globals.declarations = [] then "" else "\n") ::
        (f.pieces globals optimize).map (·.text)) := by
  induction functions generalizing first out with
  | nil => simp
  | cons f rest ih =>
      have hnext : (if out.isEmpty then out else out ++ "\n") ++ f.render globals optimize = "" ↔
          first + 1 = 0 ∧ globals.declarations = [] := by
        simp [String.append_eq_empty_iff, f.render_ne_empty globals optimize]
      rw [List.foldl_cons, List.zipIdx_cons, List.flatMap_cons, ih (first + 1) _ hnext,
        String.join_append, String.join_cons, f.join_pieces]
      by_cases hempty : out = ""
      · simp [hempty, hout.1 hempty]
      · rw [if_neg (mt hout.2 hempty), if_neg (mt String.isEmpty_iff.1 hempty)]
        simp only [String.append_assoc]

/-- Together the pieces are the text of the unit. -/
theorem join_unitPieces (functions : List Function) (globals : Globals) (optimize : Bool) :
    String.join ((unitPieces functions globals optimize).map (·.2.text)) =
      renderUnit functions globals optimize := by
  have hstart : String.join globals.declarations = "" ↔ 0 = 0 ∧ globals.declarations = [] := by
    rw [globals.join_declarations_eq_empty_iff, eq_self_iff_true, true_and]
  have hdeclarations : String.join (globals.pieces.map (·.text)) =
      String.join globals.declarations := congrArg _ globals.map_pieces
  rw [renderUnit, foldl_render globals optimize functions 0 _ hstart, ← hdeclarations,
    ← String.join_append]
  simp only [unitPieces, List.map_append, List.map_map, List.map_flatMap, List.map_cons,
    Function.comp_def]

end ScriptDecompiler
