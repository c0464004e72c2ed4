import Mathlib.Data.List.Flatten
import Mathlib.Data.List.Infix
import ScriptDecompiler.Proofs.Machine.Annotation
import ScriptDecompiler.Proofs.Render.Control

/-!
# Comments in the text of a unit

The text of a unit is kept in pieces here, each with a mark if it is the line of a comment among
the statements.  What is left without the marked pieces is compared with what is printed of the
same functions with the comments deleted.

With `optimize`, a jump to the block printed next is left out only if it is the last statement of
its block.  With comments behind it the jump is printed, and so is the label that it goes to
(`Flow.Block.HidesJump`).  Otherwise the two texts are the same.
-/

namespace ScriptDecompiler

open ScriptDecompiler.Flow (Block Function)

section Marks

variable {α β : Type}

/-- What is left of a list without the entries that are marked. -/
def unmarked (entries : List (α × Bool)) : List α :=
  (entries.filter (!·.2)).map (·.1)

theorem unmarked_append (entries later : List (α × Bool)) :
    unmarked (entries ++ later) = unmarked entries ++ unmarked later := by
  simp only [unmarked, List.filter_append, List.map_append]

theorem unmarked_flatMap {γ : Type} (l : List γ) (g : γ → List (α × Bool)) :
    unmarked (l.flatMap g) = l.flatMap fun x => unmarked (g x) := by
  simp only [unmarked, List.filter_flatMap, List.map_flatMap]

/-- Entries that all have the same mark. -/
theorem unmarked_map (l : List α) (mark : Bool) :
    unmarked (l.map fun x => (x, mark)) = if mark then [] else l := by
  induction l with
  | nil => cases mark <;> rfl
  | cons x rest ih =>
      cases mark with
      | true => exact ih
      | false => exact congrArg (x :: ·) ih

/-- The marks stay where they are. -/
theorem unmarked_map_fst (g : α → β) (entries : List (α × Bool)) :
    unmarked (entries.map fun entry => (g entry.1, entry.2)) = (unmarked entries).map g := by
  simp [unmarked, List.filter_map, Function.comp_def]

theorem unmarked_filter_fst (keep : α → Bool) (entries : List (α × Bool)) :
    unmarked (entries.filter fun entry => keep entry.1) = (unmarked entries).filter keep := by
  simp only [unmarked, List.filter_map, List.filter_filter, Function.comp_def, Bool.and_comm]

end Marks

section Positions

variable {α : Type} {P : α → List α → Prop}

/-- Is there an entry with which, and with what is behind it, `P` holds? -/
def AtSome (P : α → List α → Prop) (l : List α) : Prop :=
  ∃ x later, x :: later <:+ l ∧ P x later

theorem not_atSome_nil : ¬ AtSome P [] :=
  fun ⟨_, _, hsuffix, _⟩ => nomatch List.suffix_nil.1 hsuffix

theorem atSome_cons_iff {x : α} {rest : List α} :
    AtSome P (x :: rest) ↔ P x rest ∨ AtSome P rest := by
  constructor
  · rintro ⟨y, later, hsuffix, hy⟩
    rcases List.suffix_cons_iff.1 hsuffix with heq | hsuffix
    · obtain ⟨rfl, rfl⟩ := List.cons.inj heq
      exact .inl hy
    · exact .inr ⟨y, later, hsuffix, hy⟩
  · rintro (hx | ⟨y, later, hsuffix, hy⟩)
    · exact ⟨x, rest, List.suffix_refl _, hx⟩
    · exact ⟨y, later, hsuffix.trans (List.suffix_cons ..), hy⟩

instance decidableAtSome [∀ x later, Decidable (P x later)] : (l : List α) → Decidable (AtSome P l)
  | [] => .isFalse not_atSome_nil
  | _ :: rest =>
    have := decidableAtSome rest
    decidable_of_iff _ atSome_cons_iff.symm

end Positions

namespace Stmt

variable (scope : Scope) (used : VarRef → Bool) {next : Option Nat} (optimize : Bool)

/-- Is there a jump to the block printed next that comments, and nothing else, come behind? -/
def HidesJump (next : Option Nat) (statements : List Stmt) : Prop :=
  AtSome (fun jump comments => jump.jumpsTo next = true ∧ comments ≠ [] ∧
    ∀ s ∈ comments, s.isComment = true) statements

instance (next : Option Nat) (statements : List Stmt) : Decidable (HidesJump next statements) :=
  inferInstanceAs (Decidable (AtSome _ statements))

/-- The jump that is printed because of the comments behind it. -/
def hidden (next : Option Nat) (optimize : Bool) : List Stmt → List Stmt
  | [] => []
  | s :: rest =>
    if optimize = true ∧ s.jumpsTo next = true ∧ rest ≠ [] ∧
        ∀ other ∈ rest, other.isComment = true then [s]
    else hidden next optimize rest

theorem hidden_ne_nil_iff {statements : List Stmt} :
    hidden next optimize statements ≠ [] ↔ optimize = true ∧ HidesJump next statements := by
  induction statements with
  | nil => exact ⟨fun h => absurd rfl h, fun h => absurd h.2 not_atSome_nil⟩
  | cons s rest ih =>
      rw [hidden, HidesJump, atSome_cons_iff, and_or_left]
      split
      · rename_i hhides
        exact iff_of_true (List.cons_ne_nil _ _) (.inl hhides)
      · rename_i hkept
        rw [or_iff_right hkept]
        exact ih

theorem hidden_of_isComment {s : Stmt} (h : s.isComment = true) (rest : List Stmt) :
    hidden next optimize (s :: rest) = hidden next optimize rest := by
  cases s with
  | comment => exact if_neg fun hhides => nomatch hhides.2.1
  | _ => cases h

theorem hidden_of_forall {statements : List Stmt} (h : ∀ s ∈ statements, s.isComment = true) :
    hidden next optimize statements = [] := by
  induction statements with
  | nil => rfl
  | cons s rest ih =>
      obtain ⟨hs, hrest⟩ := List.forall_mem_cons.1 h
      rw [hidden_of_isComment optimize hs]
      exact ih hrest

theorem withoutComments_eq_nil_iff {statements : List Stmt} :
    withoutComments statements = [] ↔ ∀ s ∈ statements, s.isComment = true := by
  simp [withoutComments, List.filter_eq_nil_iff]

/-- It makes a difference only for a jump with comments behind it whether the comments are deleted
before or after the jump at the end is dropped. -/
theorem withoutComments_printed (statements : List Stmt) :
    withoutComments (printed next optimize statements) =
      printed next optimize (withoutComments statements) ++ hidden next optimize statements := by
  fun_induction printed next optimize statements with
  | case1 => rfl
  | case2 target hdropped => simp [withoutComments, isComment, printed, hidden, hdropped]
  | case3 target hkept => simp [withoutComments, isComment, printed, hidden, hkept]
  | case4 s rest hrest ih =>
      cases hcomment : s.isComment with
      | true =>
          have hdelete (l : List Stmt) : withoutComments (s :: l) = withoutComments l :=
            List.filter_cons_of_neg (by simp [hcomment])
          rw [hdelete, hdelete, ih, hidden_of_isComment optimize hcomment]
      | false =>
          have hkeep (l : List Stmt) : withoutComments (s :: l) = s :: withoutComments l :=
            List.filter_cons_of_pos (by simp [hcomment])
          rw [hkeep, hkeep, ih, hidden]
          split
          · -- Only comments are behind the jump, so without them it is the last statement.
            rename_i hhides
            obtain ⟨hoptimize, hjump, -, hall⟩ := hhides
            rw [withoutComments_eq_nil_iff.2 hall, hidden_of_forall optimize hall,
              printed_of_jumpsTo hoptimize hjump]
            rfl
          · rename_i hkept
            rw [printed_cons next optimize, List.cons_append]
            rintro ⟨hoptimize, hjump, hnil⟩
            obtain ⟨target, rfl, -⟩ := jumpsTo_iff.1 hjump
            exact hkept ⟨hoptimize, hjump, hrest target rfl, withoutComments_eq_nil_iff.1 hnil⟩

/-- The lines of comments are the marked ones. -/
theorem unmarked_tagged (statements : List Stmt) :
    unmarked (statements.flatMap (tagged scope used next isComment)) =
      (withoutComments statements).flatMap (lines scope used next) := by
  rw [unmarked_flatMap]
  induction statements with
  | nil => rfl
  | cons s rest ih =>
      unfold withoutComments at ih ⊢
      rw [List.flatMap_cons, ih, tagged, unmarked_map, List.filter_cons]
      cases s.isComment <;> rfl

theorem eq_goto_of_mem_hidden {statements : List Stmt} {s : Stmt}
    (h : s ∈ hidden next optimize statements) : ∃ target, s = goto target := by
  induction statements with
  | nil => cases h
  | cons first rest ih =>
      unfold hidden at h
      split at h
      · rename_i hhides
        rw [List.mem_singleton.1 h]
        exact (jumpsTo_iff.1 hhides.2.1).imp fun _ => And.left
      · exact ih h

end Stmt

namespace Flow.Block

variable (scope : Scope) (used : VarRef → Bool) (optimize : Bool)

/-- Is there, among blocks that are printed in the given order, a visited one that hides a jump? -/
def HidesJump (blocks : List Block) : Prop :=
  AtSome (fun b later => b.visited = true ∧
    Stmt.HidesJump (later.head?.map (·.start)) b.statements) blocks

instance (blocks : List Block) : Decidable (HidesJump blocks) :=
  inferInstanceAs (Decidable (AtSome _ blocks))

/-- The jump that a block hides, if it was visited. -/
def hidden (next : Option Nat) (b : Block) : List Stmt :=
  if b.visited then Stmt.hidden next optimize b.statements else []

/-- Without the lines of comments, a block has the lines that it has with the comments deleted,
and behind them the jump that the comments hide. -/
theorem unmarked_tagged (next : Option Nat) (b : Block) :
    unmarked (b.tagged scope used optimize Stmt.isComment false next) =
      b.withoutComments.lines scope used next optimize ++
        (b.hidden optimize next).flatMap (Stmt.lines scope used next) := by
  unfold tagged hidden lines
  by_cases hvisited : b.visited = true
  · have hvisited' : b.withoutComments.visited = true := hvisited
    rw [if_pos hvisited, if_pos hvisited, if_pos hvisited', Stmt.linesOfAll_eq]
    show Line.label b.start :: unmarked _ = _
    rw [Stmt.unmarked_tagged, Stmt.withoutComments_printed, List.flatMap_append]
    rfl
  · have hvisited' : ¬ b.withoutComments.visited = true := hvisited
    rw [if_neg hvisited, if_neg hvisited, if_neg hvisited', if_neg hvisited, unmarked_map]
    simp [Block.withoutComments]

theorem hidden_ne_nil_iff {next : Option Nat} {b : Block} : b.hidden optimize next ≠ [] ↔
    optimize = true ∧ b.visited = true ∧ Stmt.HidesJump next b.statements := by
  unfold hidden
  split
  · rename_i hvisited
    simp only [Stmt.hidden_ne_nil_iff, hvisited, true_and]
  · rename_i hvisited
    simp [hvisited]

/-- The lines of a hidden jump are no labels. -/
theorem countP_hidden_pos {next : Option Nat} {b : Block} (h : b.hidden optimize next ≠ []) :
    0 < ((b.hidden optimize next).flatMap (Stmt.lines scope used next)).countP
      (Line.isKept []) := by
  obtain ⟨s, hs⟩ := List.exists_mem_of_ne_nil _ h
  obtain ⟨target, rfl⟩ : ∃ target, s = .goto target := by
    unfold hidden at hs
    split at hs
    · exact Stmt.eq_goto_of_mem_hidden optimize hs
    · cases hs
  exact List.countP_pos_iff.2
    ⟨.goto target, List.mem_flatMap.2 ⟨_, hs, List.mem_singleton.2 rfl⟩, rfl⟩

theorem head?_withoutComments (rest : List Block) :
    ((rest.map withoutComments).head?.map (·.start)) = rest.head?.map (·.start) := by
  cases rest <;> rfl

/-- With the comments deleted, no other lines are printed. -/
theorem linesOfAll_sublist (blocks : List Block) :
    (linesOfAll scope used optimize (blocks.map withoutComments)).Sublist
      (unmarked (taggedOfAll scope used optimize Stmt.isComment false blocks)) := by
  induction blocks with
  | nil => exact List.Sublist.refl _
  | cons b rest ih =>
      rw [List.map_cons, linesOfAll, taggedOfAll, unmarked_append, unmarked_tagged,
        head?_withoutComments]
      exact (List.sublist_append_left ..).append ih

theorem linesOfAll_eq_of_not_hidesJump {blocks : List Block}
    (h : ¬ (optimize = true ∧ HidesJump blocks)) :
    linesOfAll scope used optimize (blocks.map withoutComments) =
      unmarked (taggedOfAll scope used optimize Stmt.isComment false blocks) := by
  induction blocks with
  | nil => rfl
  | cons b rest ih =>
      rw [HidesJump, atSome_cons_iff, and_or_left, not_or] at h
      have hhidden : b.hidden optimize (rest.head?.map (·.start)) = [] :=
        Decidable.not_not.1 (mt (hidden_ne_nil_iff optimize).1 h.1)
      rw [List.map_cons, linesOfAll, taggedOfAll, unmarked_append, unmarked_tagged,
        head?_withoutComments, ih h.2, hhidden, List.flatMap_nil, List.append_nil]

/-- A hidden jump is one more line that is no label. -/
theorem countP_lt_of_hidesJump {blocks : List Block} (hoptimize : optimize = true)
    (h : HidesJump blocks) :
    (linesOfAll scope used optimize (blocks.map withoutComments)).countP (Line.isKept []) <
      (unmarked (taggedOfAll scope used optimize Stmt.isComment false blocks)).countP
        (Line.isKept []) := by
  induction blocks with
  | nil =>
      exact absurd h not_atSome_nil
  | cons b rest ih =>
      rw [List.map_cons, linesOfAll, taggedOfAll, unmarked_append, unmarked_tagged,
        head?_withoutComments]
      simp only [List.countP_append]
      rcases atSome_cons_iff.1 h with hb | hrest
      · have hhidden := countP_hidden_pos scope used optimize
          ((hidden_ne_nil_iff optimize).2 ⟨hoptimize, hb⟩)
        have hle := (linesOfAll_sublist scope used optimize rest).countP_le (p := Line.isKept [])
        omega
      · have hlt := ih hrest
        omega

/-- Where a marked line comes from. -/
theorem exists_comment_of_mem {blocks : List Block} {line : Line}
    (h : (line, true) ∈ taggedOfAll scope used optimize Stmt.isComment false blocks) :
    ∃ b ∈ blocks, b.visited = true ∧ ∃ text, .comment text ∈ b.statements ∧
      line = .text ("/* " ++ text ++ " */") := by
  induction blocks with
  | nil => cases h
  | cons b rest ih =>
      rcases List.mem_append.1 h with h | h
      · refine ⟨b, List.mem_cons_self, ?_⟩
        unfold tagged at h
        split at h
        · rename_i hvisited
          rcases List.mem_cons.1 h with h | h
          · cases h
          · obtain ⟨s, hs, h⟩ := List.mem_flatMap.1 h
            obtain ⟨l, hl, heq⟩ := List.mem_map.1 h
            obtain ⟨rfl, hcomment⟩ := Prod.mk.inj heq
            cases s with
            | comment text =>
                exact ⟨hvisited, text, Stmt.mem_of_mem_printed _ _ hs, List.mem_singleton.1 hl⟩
            | _ => cases hcomment
        · obtain ⟨l, -, heq⟩ := List.mem_map.1 h
          cases heq
      · obtain ⟨c, hc, hcomment⟩ := ih h
        exact ⟨c, List.mem_cons_of_mem _ hc, hcomment⟩

end Flow.Block

namespace Flow.Function

variable (f : Function) (globals : Globals) (optimize : Bool)

/-- A function, with the comments in its blocks deleted. -/
def withoutComments (f : Function) : Function :=
  { f with graph := f.graph.withoutComments }

/-- Is there a visited block that hides a jump? -/
def HidesJump (f : Function) : Prop :=
  Block.HidesJump f.graph.blocks

instance (f : Function) : Decidable f.HidesJump :=
  inferInstanceAs (Decidable (Block.HidesJump f.graph.blocks))

/-- Comments mention no variables. -/
theorem usedVars_withoutComments : f.withoutComments.usedVars = f.usedVars := by
  unfold usedVars
  rw [show f.withoutComments.graph.blocks = f.graph.blocks.map Block.withoutComments from rfl,
    List.flatMap_map]
  refine congrArg (List.flatMap · _) (funext fun b => ?_)
  refine flatMap_filter_of_ne_nil fun s _ hvars => ?_
  cases s with
  | comment => exact absurd rfl hvars
  | _ => rfl

theorem bodyLines_withoutComments : f.withoutComments.bodyLines globals optimize =
    Block.linesOfAll (f.scope globals) f.usedVars.contains optimize
      (f.graph.blocks.map Block.withoutComments) := by
  unfold bodyLines
  rw [usedVars_withoutComments]
  rfl

/-- The lines of the body that are printed, without those of comments among the statements. -/
def uncommentedLines : List Line :=
  unmarked (f.taggedLines globals optimize Stmt.isComment false)

/-- Comments do not jump. -/
theorem flatMap_targets_bodyLines : (f.bodyLines globals optimize).flatMap Line.targets =
    (unmarked (Block.taggedOfAll (f.scope globals) f.usedVars.contains optimize
      Stmt.isComment false f.graph.blocks)).flatMap Line.targets := by
  unfold bodyLines unmarked
  rw [← Block.map_taggedOfAll _ _ optimize Stmt.isComment false, List.flatMap_map, List.flatMap_map]
  refine (flatMap_filter_of_ne_nil ?_).symm
  rintro ⟨line, mark⟩ hline htargets
  cases mark with
  | false => rfl
  | true =>
      obtain ⟨b, -, -, text, -, rfl⟩ := Block.exists_comment_of_mem _ _ optimize hline
      exact absurd rfl htargets

theorem uncommentedLines_eq :
    let lines := unmarked (Block.taggedOfAll (f.scope globals) f.usedVars.contains optimize
      Stmt.isComment false f.graph.blocks)
    f.uncommentedLines globals optimize =
      lines.filter (Line.isKept (lines.flatMap Line.targets)) := by
  intro lines
  unfold uncommentedLines taggedLines
  rw [flatMap_targets_bodyLines]
  exact unmarked_filter_fst _ _

theorem printedLines_sublist :
    (f.withoutComments.printedLines globals optimize).Sublist
      (f.uncommentedLines globals optimize) := by
  have hsublist := Block.linesOfAll_sublist (f.scope globals) f.usedVars.contains optimize
    f.graph.blocks
  unfold printedLines
  rw [uncommentedLines_eq, bodyLines_withoutComments]
  refine (hsublist.filter _).trans (List.monotone_filter_right _ fun line hkept => ?_)
  exact Line.isKept_of_subset (hsublist.flatMap _).subset hkept

theorem printedLines_eq_of_not_hidesJump (h : ¬ (optimize = true ∧ f.HidesJump)) :
    f.withoutComments.printedLines globals optimize = f.uncommentedLines globals optimize := by
  unfold printedLines
  rw [uncommentedLines_eq, bodyLines_withoutComments,
    Block.linesOfAll_eq_of_not_hidesJump _ _ optimize h]

/-- The filter for labels leaves all other lines. -/
theorem countP_filter_isKept (lines : List Line) (targets : List Nat) :
    (lines.filter (Line.isKept targets)).countP (Line.isKept []) =
      lines.countP (Line.isKept []) := by
  rw [List.countP_filter]
  refine List.countP_congr fun line _ => ?_
  rw [Bool.and_eq_true]
  exact ⟨And.left, fun h => ⟨h, Line.isKept_of_subset (List.nil_subset _) h⟩⟩

theorem length_lt_of_hidesJump (hoptimize : optimize = true) (h : f.HidesJump) :
    (f.withoutComments.printedLines globals optimize).length <
      (f.uncommentedLines globals optimize).length := by
  have hlt := Block.countP_lt_of_hidesJump (f.scope globals) f.usedVars.contains optimize
    hoptimize h
  refine Nat.lt_of_le_of_ne (f.printedLines_sublist globals optimize).length_le fun hlength => ?_
  have heq := (f.printedLines_sublist globals optimize).eq_of_length hlength
  have hcount := congrArg (List.countP (Line.isKept [])) heq
  rw [uncommentedLines_eq, printedLines, bodyLines_withoutComments] at hcount
  simp only [countP_filter_isKept] at hcount
  omega

end Flow.Function

section Joins

theorem Line.render_ne_empty (line : Line) : line.render ≠ "" := by
  cases line <;> simp [render, indented, String.append_eq_empty_iff]

/-- Texts between which others, none of them empty, are added come to a longer text. -/
theorem eq_or_length_join_lt {texts longer : List String} (h : texts.Sublist longer)
    (hne : ∀ s ∈ longer, s ≠ "") :
    texts = longer ∨ (String.join texts).length < (String.join longer).length := by
  induction h with
  | slnil => exact .inl rfl
  | cons s h ih =>
      obtain ⟨hs, hrest⟩ := List.forall_mem_cons.1 hne
      have hpos : s.length ≠ 0 := mt String.length_eq_zero_iff.1 hs
      rw [String.join_cons, String.length_append]
      rcases ih hrest with rfl | hlt <;> omega
  | cons_cons s h ih =>
      obtain ⟨-, hrest⟩ := List.forall_mem_cons.1 hne
      rw [String.join_cons, String.join_cons, String.length_append, String.length_append]
      rcases ih hrest with rfl | hlt
      · exact .inl rfl
      · omega

theorem join_flatMap_congr {α : Type} {g h : α → List String} {l : List α}
    (heq : ∀ x, String.join (g x) = String.join (h x)) :
    String.join (l.flatMap g) = String.join (l.flatMap h) := by
  induction l with
  | nil => rfl
  | cons x rest ih =>
      rw [List.flatMap_cons, List.flatMap_cons, String.join_append, String.join_append, heq, ih]

/-- Lists that all lie within others come to the same concatenation only if they are the same. -/
theorem eq_of_flatMap_eq {α β : Type} {g h : α → List β} {l : List α}
    (hsublist : ∀ x ∈ l, (g x).Sublist (h x)) (heq : l.flatMap g = l.flatMap h) :
    ∀ x ∈ l, g x = h x := by
  induction l with
  | nil => exact fun _ hx => nomatch hx
  | cons y rest ih =>
      obtain ⟨hy, hrest⟩ := List.forall_mem_cons.1 hsublist
      rw [List.flatMap_cons, List.flatMap_cons] at heq
      have hlength := congrArg List.length heq
      rw [List.length_append, List.length_append] at hlength
      have hbehind := (List.Sublist.flatMap_right rest hrest).length_le
      have hsame : g y = h y := hy.eq_of_length_le (by omega)
      rw [hsame] at heq
      exact List.forall_mem_cons.2 ⟨hsame, ih hrest (List.append_cancel_left heq)⟩

end Joins

namespace Flow.Function

variable (f : Function) (globals : Globals) (optimize : Bool)

/-- The texts of a function whose body has the given lines. -/
def texts (lines : List Line) : List String :=
  f.header :: f.localLines ++ lines.map Line.render ++ ["\x7d\n"]

/-- The pieces of a function, each with a mark if it is the line of a comment among the
statements. -/
def commentPieces : List (String × Bool) :=
  (f.header, false) :: (f.localLines.map fun line => (line, false)) ++
    ((f.taggedLines globals optimize Stmt.isComment false).map fun line =>
      (line.1.render, line.2)) ++ [("\x7d\n", false)]

theorem map_commentPieces :
    (f.commentPieces globals optimize).map (·.1) = f.texts (f.printedLines globals optimize) := by
  unfold commentPieces texts
  rw [← f.map_taggedLines globals optimize Stmt.isComment false]
  simp [Function.comp_def]

theorem unmarked_commentPieces : unmarked (f.commentPieces globals optimize) =
    f.texts (f.uncommentedLines globals optimize) := by
  unfold commentPieces texts uncommentedLines
  have hfront : unmarked ((f.header, false) :: f.localLines.map fun line => (line, false)) =
      f.header :: f.localLines :=
    congrArg (f.header :: ·) (unmarked_map f.localLines false)
  rw [unmarked_append, unmarked_append, unmarked_map_fst, hfront]
  rfl

theorem join_texts : String.join (f.texts (f.printedLines globals optimize)) =
    f.render globals optimize := by
  unfold texts render
  simp only [String.join_append, String.join_cons, String.join_nil, String.append_empty,
    List.cons_append, String.append_assoc]

theorem texts_withoutComments : f.withoutComments.texts = f.texts := by
  unfold texts localLines
  rw [usedVars_withoutComments]
  rfl

theorem exists_comment_of_mem_commentPieces {piece : String × Bool}
    (h : piece ∈ f.commentPieces globals optimize) (hmark : piece.2 = true) :
    ∃ b ∈ f.graph.blocks, b.visited = true ∧ ∃ text,
      .comment text ∈ b.statements ∧ piece.1 = Line.indented ("/* " ++ text ++ " */") := by
  rcases List.mem_append.1 h with h | h
  · rcases List.mem_append.1 h with h | h
    · rcases List.mem_cons.1 h with rfl | h
      · cases hmark
      · obtain ⟨line, -, rfl⟩ := List.mem_map.1 h
        cases hmark
    · obtain ⟨⟨line, mark⟩, hline, rfl⟩ := List.mem_map.1 h
      cases hmark
      obtain ⟨b, hb, hvisited, text, htext, rfl⟩ :=
        Block.exists_comment_of_mem _ _ optimize (List.mem_filter.1 hline).1
      exact ⟨b, hb, hvisited, text, htext, rfl⟩
  · rw [List.mem_singleton.1 h] at hmark
    cases hmark

theorem ne_empty_of_mem_texts {lines : List Line} {s : String} (h : s ∈ f.texts lines) :
    s ≠ "" := by
  unfold texts localLines at h
  simp only [List.cons_append, List.mem_cons, List.mem_append, List.mem_map, List.not_mem_nil,
    or_false] at h
  rcases h with rfl | (⟨v, -, rfl⟩ | ⟨line, -, rfl⟩) | rfl
  · simp [header]
  · simp [Line.indented]
  · exact line.render_ne_empty
  · simp

end Flow.Function

section Units

variable (functions : List Function) (globals : Globals)

/-- The declarations of a unit and the parts of its functions, with a blank line in front of every
function that is not at the start. -/
def unitParts {α : Type} (line : String → α) (parts : Function → List α) : List α :=
  globals.declarations.map line ++
    functions.zipIdx.flatMap fun (f, index) =>
      (if index = 0 ∧ globals.declarations = [] then [] else [line "\n"]) ++ parts f

theorem map_unitParts {α β : Type} (g : α → β) (line : String → α) (parts : Function → List α) :
    (unitParts functions globals line parts).map g =
      unitParts functions globals (fun s => g (line s)) fun f => (parts f).map g := by
  unfold unitParts
  rw [List.map_append, List.map_map, List.map_flatMap]
  refine congrArg (_ ++ ·) (congrArg (List.flatMap · _) (funext fun (f, index) => ?_))
  dsimp only
  split <;> simp

theorem unmarked_unitParts (parts : Function → List (String × Bool)) :
    unmarked (unitParts functions globals (fun s => (s, false)) parts) =
      unitParts functions globals (fun s => s) fun f => unmarked (parts f) := by
  unfold unitParts
  rw [unmarked_append, unmarked_map, unmarked_flatMap]
  refine congrArg₂ (· ++ ·) (List.map_id' _).symm
    (congrArg (List.flatMap · _) (funext fun (f, index) => ?_))
  dsimp only
  rw [unmarked_append]
  split <;> rfl

theorem unitParts_map (change : Function → Function) (parts : Function → List String) :
    unitParts (functions.map change) globals (fun s => s) parts =
      unitParts functions globals (fun s => s) fun f => parts (change f) := by
  unfold unitParts
  rw [List.zipIdx_map, List.flatMap_map]
  rfl

/-- Together the parts are the text of the unit. -/
theorem join_unitParts (optimize : Bool) {parts : Function → List String}
    (h : ∀ f, String.join (parts f) = f.render globals optimize) :
    String.join (unitParts functions globals (fun s => s) parts) =
      renderUnit functions globals optimize := by
  have hstart : String.join globals.declarations = "" ↔ 0 = 0 ∧ globals.declarations = [] := by
    rw [globals.join_declarations_eq_empty_iff, eq_self_iff_true, true_and]
  unfold unitParts
  rw [renderUnit, foldl_render globals optimize functions 0 _ hstart, List.map_id',
    String.join_append]
  refine congrArg (_ ++ ·) (join_flatMap_congr fun entry => ?_)
  obtain ⟨f, index⟩ := entry
  dsimp only
  rw [String.join_append, h, String.join_cons, f.join_pieces]
  split <;> rfl

theorem unitParts_sublist {parts parts' : Function → List String}
    (h : ∀ f ∈ functions, (parts f).Sublist (parts' f)) :
    (unitParts functions globals (fun s => s) parts).Sublist
      (unitParts functions globals (fun s => s) parts') := by
  refine (List.Sublist.refl _).append (List.Sublist.flatMap_right _ fun (f, index) hf => ?_)
  exact (List.Sublist.refl _).append (h f (List.fst_mem_of_mem_zipIdx hf))

theorem eq_of_unitParts_eq {parts parts' : Function → List String}
    (h : ∀ f ∈ functions, (parts f).Sublist (parts' f))
    (heq : unitParts functions globals (fun s => s) parts =
      unitParts functions globals (fun s => s) parts') : ∀ f ∈ functions, parts f = parts' f := by
  intro f hf
  obtain ⟨index, hindex, hget⟩ := List.getElem_of_mem hf
  have hmem : (f, index) ∈ functions.zipIdx :=
    List.mk_mem_zipIdx_iff_getElem?.2 (List.getElem?_eq_some_iff.2 ⟨hindex, hget⟩)
  have hsame := eq_of_flatMap_eq (fun (g, k) hg => (List.Sublist.refl _).append
    (h g (List.fst_mem_of_mem_zipIdx hg))) (List.append_cancel_left heq) _ hmem
  exact List.append_cancel_left hsame

variable (optimize : Bool)

/-- The pieces of a unit, each with a mark if it is the line of a comment among the statements. -/
def unitCommentPieces : List (String × Bool) :=
  unitParts functions globals (fun s => (s, false)) fun f => f.commentPieces globals optimize

/-- Together the pieces are the text of the unit. -/
theorem join_unitCommentPieces :
    String.join ((unitCommentPieces functions globals optimize).map (·.1)) =
      renderUnit functions globals optimize := by
  unfold unitCommentPieces
  rw [map_unitParts]
  refine join_unitParts functions globals optimize fun f => ?_
  rw [f.map_commentPieces, f.join_texts]

/-- The pieces of a unit with the comments deleted, by function. -/
theorem map_unitCommentPieces_withoutComments :
    (unitCommentPieces (functions.map Function.withoutComments) globals optimize).map (·.1) =
      unitParts functions globals (fun s => s) fun f =>
        f.texts (f.withoutComments.printedLines globals optimize) := by
  unfold unitCommentPieces
  rw [map_unitParts, unitParts_map]
  simp only [Function.map_commentPieces, Function.texts_withoutComments]

theorem unmarked_unitCommentPieces : unmarked (unitCommentPieces functions globals optimize) =
    unitParts functions globals (fun s => s) fun f =>
      f.texts (f.uncommentedLines globals optimize) := by
  unfold unitCommentPieces
  rw [unmarked_unitParts]
  simp only [Function.unmarked_commentPieces]

theorem Flow.Function.texts_sublist (f : Function) {lines longer : List Line}
    (h : lines.Sublist longer) : (f.texts lines).Sublist (f.texts longer) :=
  ((List.Sublist.refl _).append (h.map _)).append (List.Sublist.refl _)

theorem Flow.Function.length_eq_of_texts_eq (f : Function) {lines lines' : List Line}
    (h : f.texts lines = f.texts lines') : lines.length = lines'.length := by
  have hlength := congrArg List.length h
  simpa [texts] using hlength

/-- Deleting the comments from the functions leaves no more pieces than deleting their lines from
the text. -/
theorem unitCommentPieces_sublist :
    ((unitCommentPieces (functions.map Function.withoutComments) globals optimize).map
      (·.1)).Sublist (unmarked (unitCommentPieces functions globals optimize)) := by
  rw [map_unitCommentPieces_withoutComments, unmarked_unitCommentPieces]
  exact unitParts_sublist functions globals fun f _ =>
    f.texts_sublist (f.printedLines_sublist globals optimize)

/-- The marked pieces of a unit are the lines of comments in visited blocks. -/
theorem exists_comment_of_mem_unitCommentPieces {piece : String × Bool}
    (h : piece ∈ unitCommentPieces functions globals optimize) (hmark : piece.2 = true) :
    ∃ f ∈ functions, ∃ b ∈ f.graph.blocks, b.visited = true ∧ ∃ text,
      .comment text ∈ b.statements ∧ piece.1 = Line.indented ("/* " ++ text ++ " */") := by
  rcases List.mem_append.1 h with h | h
  · obtain ⟨line, -, rfl⟩ := List.mem_map.1 h
    cases hmark
  · obtain ⟨⟨f, index⟩, hf, h⟩ := List.mem_flatMap.1 h
    rcases List.mem_append.1 h with h | h
    · split at h
      · cases h
      · rw [List.mem_singleton.1 h] at hmark
        cases hmark
    · refine ⟨f, List.fst_mem_of_mem_zipIdx hf, ?_⟩
      exact f.exists_comment_of_mem_commentPieces globals optimize h hmark

theorem ne_empty_of_mem_unmarked {s : String}
    (h : s ∈ unmarked (unitCommentPieces functions globals optimize)) : s ≠ "" := by
  rw [unmarked_unitCommentPieces] at h
  rcases List.mem_append.1 h with h | h
  · rw [List.map_id'] at h
    exact Globals.ne_empty_of_mem_declarations h
  · obtain ⟨⟨f, index⟩, -, h⟩ := List.mem_flatMap.1 h
    rcases List.mem_append.1 h with h | h
    · split at h
      · cases h
      · rw [List.mem_singleton.1 h]
        simp
    · exact f.ne_empty_of_mem_texts h

/-- Deleting the comments from the functions and deleting their lines from the text come to the
same, unless there is a hidden jump that is not left out any more. -/
theorem join_unmarked_eq_iff :
    String.join (unmarked (unitCommentPieces functions globals optimize)) =
        renderUnit (functions.map Function.withoutComments) globals optimize ↔
      ¬ (optimize = true ∧ ∃ f ∈ functions, f.HidesJump) := by
  rw [← join_unitCommentPieces]
  constructor
  · rintro hjoin ⟨hoptimize, f, hf, hhides⟩
    rcases eq_or_length_join_lt (unitCommentPieces_sublist functions globals optimize)
      (fun _ => ne_empty_of_mem_unmarked functions globals optimize) with heq | hlt
    · rw [map_unitCommentPieces_withoutComments, unmarked_unitCommentPieces] at heq
      have hsame := eq_of_unitParts_eq functions globals (fun f _ =>
        f.texts_sublist (f.printedLines_sublist globals optimize)) heq f hf
      have hlt := f.length_lt_of_hidesJump globals optimize hoptimize hhides
      exact absurd (f.length_eq_of_texts_eq hsame) (Nat.ne_of_lt hlt)
    · exact absurd (congrArg String.length hjoin) (Nat.ne_of_gt hlt)
  · intro hnone
    rw [map_unitCommentPieces_withoutComments, unmarked_unitCommentPieces]
    have hsame : ∀ f ∈ functions, f.withoutComments.printedLines globals optimize =
        f.uncommentedLines globals optimize := fun f hf =>
      f.printedLines_eq_of_not_hidesJump globals optimize fun h => hnone ⟨h.1, f, hf, h.2⟩
    refine congrArg String.join (List.Sublist.antisymm ?_ ?_)
    · exact unitParts_sublist functions globals fun f hf => by rw [hsame f hf]
    · exact unitParts_sublist functions globals fun f hf => by rw [hsame f hf]

end Units

end ScriptDecompiler
