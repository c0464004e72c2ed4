import ScriptDecompiler.Proofs.Text.Digits
import ScriptDecompiler.Render.Function

/-!
# Executions of the lines of a function body

The lines of a body are read as a program.  A label is where jumps go on, a jump goes to its label.
A condition or a switch takes one of its jumps or goes on with the next line, every other line goes
on with the next line.  An execution shows the lines that it executes, except labels and plain
jumps, and with each of them the jump that was taken.  Labels are told apart by their addresses, as
they are in the text (`labelText_injective`).

Two kinds of lines can be left out of a program: a label that no jump is left for, and a jump to the
label right behind it (`Trims`).  Executions before and after show the same and end alike
(`IsTrimmed.agree`): they stay at positions with the same lines ahead (`Matches`), one step of either
program is followed by a few steps of the other one, and so is a run.
-/

namespace ScriptDecompiler

theorem labelText_injective : Function.Injective labelText := by
  intro m n h
  unfold labelText at h
  exact Text.hexPadded_injective 8 (String.append_right_inj _ |>.1 h)

namespace Line

/-- Where an execution stands. -/
inductive Position where
  /-- In front of the lines that are left. -/
  | before (rest : List Line)
  /-- Outside, after a jump to an address without a label. -/
  | gone (target : Nat)

/-- Is nothing left to execute? -/
def Position.IsOver : Position → Prop
  | before [] | gone _ => True
  | before (_ :: _) => False

/-- Where a jump goes on. -/
def landing (target : Nat) : List Line → Position
  | [] => .gone target
  | line :: rest => if line = label target then .before (line :: rest) else landing target rest

/-- Is the line one that executions do not show? -/
def isSilent : Line → Bool
  | label _ | goto _ => true
  | _ => false

/-- The execution of a line that is shown: `jump` is the number of the jump that it takes, if it
does not go on with the next line. -/
structure Event where
  line : Line
  jump : Option Nat

/-- What the execution of a line shows, and where it jumps to if it does not go on with the next
line. -/
inductive Exit : Line → Option Event → Option Nat → Prop
  | label (address : Nat) : Exit (label address) none none
  | goto (target : Nat) : Exit (goto target) none (some target)
  | next {line : Line} (hshown : line.isSilent = false) : Exit line (some ⟨line, none⟩) none
  | jump {line : Line} {number target : Nat} (hshown : line.isSilent = false)
      (htarget : line.targets[number]? = some target) :
      Exit line (some ⟨line, some number⟩) (some target)

theorem Exit.mem_targets {line : Line} {shown : Option Event} {target : Nat}
    (h : Exit line shown (some target)) : target ∈ line.targets := by
  cases h with
  | goto => exact List.mem_singleton.2 rfl
  | jump _ htarget => exact List.mem_of_getElem? htarget

/-- Where a line leads: to the target it jumps to, or to the lines behind it. -/
def goOn (program rest : List Line) : Option Nat → Position
  | none => .before rest
  | some target => landing target program

/-- One step of an execution. -/
inductive Step (program : List Line) : Position → Option Event → Position → Prop
  | exit {line : Line} {shown : Option Event} {jump : Option Nat} (h : Exit line shown jump)
      (rest : List Line) :
      Step program (.before (line :: rest)) shown (goOn program rest jump)

/-- Steps in a row, with what they show. -/
inductive Execution (program : List Line) : Position → List Event → Position → Prop
  | refl (p : Position) : Execution program p [] p
  | head {p q r : Position} {shown : Option Event} {events : List Event}
      (hstep : Step program p shown q) (hrest : Execution program q events r) :
      Execution program p (shown.toList ++ events) r

namespace Execution

variable {program : List Line} {p q r : Position} {events more : List Event}

theorem single {shown : Option Event} (h : Step program p shown q) :
    Execution program p shown.toList q := by
  have hrun := head h (.refl q)
  rwa [List.append_nil] at hrun

theorem trans (h : Execution program p events q) (hmore : Execution program q more r) :
    Execution program p (events ++ more) r := by
  induction h with
  | refl => exact hmore
  | head hstep _ ih =>
      rw [List.append_assoc]
      exact head hstep (ih hmore)

end Execution

theorem Exit.isSome {line : Line} {shown : Option Event} {jump : Option Nat}
    (h : Exit line shown jump) : shown.isSome = !line.isSilent := by
  cases h with
  | label | goto => rfl
  | next hshown | jump hshown => simp [hshown]

/-- What a line shows and where it leads is determined by the jump that is taken. -/
theorem Exit.unique {line : Line} {shown shown' : Option Event} {jump jump' : Option Nat}
    (h : Exit line shown jump) (h' : Exit line shown' jump')
    (htaken : shown.map (·.jump) = shown'.map (·.jump)) : shown = shown' ∧ jump = jump' := by
  cases h with
  | label =>
      cases h' with
      | label => exact ⟨rfl, rfl⟩
      | next hshown | jump hshown => cases hshown
  | goto =>
      cases h' with
      | goto => exact ⟨rfl, rfl⟩
      | next hshown | jump hshown => cases hshown
  | next hshown =>
      cases h' with
      | label | goto => cases hshown
      | next => exact ⟨rfl, rfl⟩
      | jump => cases htaken
  | jump hshown htarget =>
      cases h' with
      | label | goto => cases hshown
      | next => cases htaken
      | jump _ htarget' =>
          cases htaken
          exact ⟨rfl, htarget.symm.trans htarget'⟩

/-- The jumps that are taken determine what an execution shows. -/
theorem Execution.unique {program : List Line} {p q q' : Position} {events events' : List Event}
    (h : Execution program p events q) (h' : Execution program p events' q')
    (htaken : events.map (·.jump) = events'.map (·.jump)) : events = events' := by
  induction h generalizing events' with
  | refl => exact (List.map_eq_nil_iff.1 htaken.symm).symm
  | @head p r _ shown events hstep hrest ih =>
      cases h' with
      | refl => exact List.map_eq_nil_iff.1 htaken
      | @head _ r' _ shown' events' hstep' hrest' =>
          obtain ⟨hexit, rest⟩ := hstep
          obtain ⟨hexit', _⟩ := hstep'
          have hsome : shown.isSome = shown'.isSome := hexit.isSome.trans hexit'.isSome.symm
          cases shown with
          | none =>
              cases shown' with
              | some => cases hsome
              | none =>
                  obtain ⟨-, rfl⟩ := hexit.unique hexit' rfl
                  exact ih hrest' htaken
          | some event =>
              cases shown' with
              | none => cases hsome
              | some event' =>
                  obtain ⟨hevent, hevents⟩ := List.cons.inj htaken
                  obtain ⟨heq, rfl⟩ := hexit.unique hexit' (congrArg some hevent)
                  rw [heq, ih hrest' hevents]

/-- Executions of two programs, from a position of each, show the same and end alike. -/
structure Agree (program other : List Line) (p q : Position) : Prop where
  shows : ∀ events, (∃ p', Execution program p events p') ↔ ∃ q', Execution other q events q'
  ends : ∀ events last, last.IsOver →
    (Execution program p events last ↔ Execution other q events last)

/-- Where executions agree, the same jumps are taken behind the same lines. -/
theorem Agree.events_eq {program other : List Line} {p p' q q' : Position}
    {events events' : List Event} (h : Agree program other p q)
    (hrun : Execution program p events p') (hrun' : Execution other q events' q')
    (htaken : events.map (·.jump) = events'.map (·.jump)) : events = events' := by
  obtain ⟨_, hshown⟩ := (h.shows events).1 ⟨p', hrun⟩
  exact hshown.unique hrun' htaken

theorem suffix_of_cons {program rest : List Line} {line : Line} (h : line :: rest <:+ program) :
    rest <:+ program :=
  (List.suffix_cons line rest).trans h

theorem landing_append {target : Nat} {front : List Line} (h : label target ∉ front)
    (rest : List Line) : landing target (front ++ rest) = landing target rest := by
  induction front with
  | nil => rfl
  | cons line front ih =>
      rw [List.mem_cons, not_or] at h
      rw [List.cons_append, landing, if_neg (Ne.symm h.1), ih h.2]

/-- A jump goes on at its label, wherever the label is, if there is only one. -/
theorem landing_of_suffix {program rest : List Line} {target : Nat}
    (hone : program.count (label target) ≤ 1) (h : label target :: rest <:+ program) :
    landing target program = .before (label target :: rest) := by
  obtain ⟨front, rfl⟩ := h
  rw [List.count_append, List.count_cons_self] at hone
  have hfront : label target ∉ front := List.count_eq_zero.1 (by omega)
  rw [landing_append hfront, landing, if_pos rfl]

/-- The second list has the lines of the first one, except labels that are not among the targets and
jumps to the label right behind them. -/
inductive Trims (targets : List Nat) : List Line → List Line → Prop
  | nil : Trims targets [] []
  | keep (line : Line) {a b : List Line} (h : Trims targets a b) :
      Trims targets (line :: a) (line :: b)
  | dropLabel {address : Nat} {a b : List Line} (hunused : address ∉ targets)
      (h : Trims targets a b) : Trims targets (label address :: a) b
  | dropGoto {target : Nat} {a b : List Line} (h : Trims targets (label target :: a) b) :
      Trims targets (goto target :: label target :: a) b

namespace Trims

variable {targets : List Nat} {a b : List Line}

theorem append_left (front : List Line) (h : Trims targets a b) :
    Trims targets (front ++ a) (front ++ b) := by
  induction front with
  | nil => exact h
  | cons line _ ih => exact keep line ih

theorem sublist (h : Trims targets a b) : b.Sublist a := by
  induction h with
  | nil => exact .slnil
  | keep _ _ ih => exact .cons_cons _ ih
  | dropLabel _ _ ih | dropGoto _ ih => exact .cons _ ih

end Trims

/-- A program that has each label once at most, and what is left of it by trimming. -/
structure IsTrimmed (program trimmed : List Line) : Prop where
  labels : ∀ target, program.count (label target) ≤ 1
  lines : Trims (trimmed.flatMap targets) program trimmed

/-- Positions of a program and of its trimmed form, with the same lines ahead up to trimming. -/
inductive Matches (program trimmed : List Line) : Position → Position → Prop
  | before {a b : List Line} (ha : a <:+ program) (hb : b <:+ trimmed)
      (h : Trims (trimmed.flatMap targets) a b) : Matches program trimmed (.before a) (.before b)
  | gone (target : Nat) : Matches program trimmed (.gone target) (.gone target)

section Simulation

variable {program trimmed a b : List Line} {p p' q q' : Position} {shown : Option Event}

/-- A jump that is left goes on at matching positions. -/
theorem Matches.landing {target : Nat} (htarget : target ∈ trimmed.flatMap targets)
    (ha : a <:+ program) (hb : b <:+ trimmed) (h : Trims (trimmed.flatMap targets) a b) :
    Matches program trimmed (landing target a) (landing target b) := by
  induction h with
  | nil => exact .gone target
  | keep line h ih =>
      unfold Line.landing
      split
      · exact .before ha hb (.keep line h)
      · exact ih (suffix_of_cons ha) (suffix_of_cons hb)
  | @dropLabel address a b hunused h ih =>
      have hne : label address ≠ label target := by
        rintro ⟨⟩
        exact hunused htarget
      rw [Line.landing, if_neg hne]
      exact ih (suffix_of_cons ha) hb
  | dropGoto h ih =>
      rw [Line.landing, if_neg (by simp)]
      exact ih (suffix_of_cons ha) hb

/-- A line that is left leads to matching positions. -/
theorem IsTrimmed.matches_goOn (h : IsTrimmed program trimmed) {line : Line} (ha : line :: a <:+ program)
    (hb : line :: b <:+ trimmed) (hrest : Trims (trimmed.flatMap targets) a b) {jump : Option Nat}
    (hexit : Exit line shown jump) :
    Matches program trimmed (goOn program a jump) (goOn trimmed b jump) := by
  cases jump with
  | none => exact .before (suffix_of_cons ha) (suffix_of_cons hb) hrest
  | some target =>
      have htarget : target ∈ trimmed.flatMap targets :=
        List.mem_flatMap.2 ⟨line, hb.subset List.mem_cons_self, hexit.mem_targets⟩
      exact .landing htarget List.suffix_rfl List.suffix_rfl h.lines

/-- The trimmed program follows a step: it takes the same step, or none where the line is one that
is left out. -/
theorem IsTrimmed.follows (h : IsTrimmed program trimmed) (hmatch : Matches program trimmed p q)
    (hstep : Step program p shown p') :
    ∃ q', Execution trimmed q shown.toList q' ∧ Matches program trimmed p' q' := by
  cases hmatch with
  | gone => nomatch hstep
  | before ha hb hrest =>
      obtain ⟨hexit, rest⟩ := hstep
      cases hrest with
      | keep line hrest => exact ⟨_, .single (.exit hexit _), h.matches_goOn ha hb hrest hexit⟩
      | dropLabel hunused hrest =>
          cases hexit with
          | label => exact ⟨_, .refl _, .before (suffix_of_cons ha) hb hrest⟩
          | next hshown | jump hshown => cases hshown
      | @dropGoto target rest _ hrest =>
          -- The trimmed form is in front of what is left of the lines from the label on.
          cases hexit with
          | goto =>
              rw [goOn, landing_of_suffix (h.labels target) (suffix_of_cons ha)]
              exact ⟨_, .refl _, .before (suffix_of_cons ha) hb hrest⟩
          | next hshown | jump hshown => cases hshown

/-- A jump to the label right behind it leads there. -/
theorem IsTrimmed.step_goto (h : IsTrimmed program trimmed) {target : Nat}
    (ha : label target :: a <:+ program) :
    Step program (.before (goto target :: label target :: a)) none (.before (label target :: a)) := by
  have hstep : Step program (.before (goto target :: label target :: a)) none
      (goOn program (label target :: a) (some target)) := .exit (.goto target) _
  rwa [goOn, landing_of_suffix (h.labels target) ha] at hstep

/-- The program comes to the line that its trimmed form is in front of. -/
theorem IsTrimmed.exists_execution (h : IsTrimmed program trimmed) {line : Line}
    (ha : a <:+ program) (hrest : Trims (trimmed.flatMap targets) a (line :: b)) :
    ∃ a', Execution program (.before a) [] (.before (line :: a')) ∧ line :: a' <:+ program ∧
      Trims (trimmed.flatMap targets) a' b := by
  generalize hlines : line :: b = lines at hrest
  induction hrest with
  | nil => cases hlines
  | keep _ hrest =>
      obtain ⟨rfl, rfl⟩ := List.cons.inj hlines
      exact ⟨_, .refl _, ha, hrest⟩
  | dropLabel _ _ ih =>
      obtain ⟨a', hrun, hresult⟩ := ih (suffix_of_cons ha) hlines
      exact ⟨a', .head (.exit (.label _) _) hrun, hresult⟩
  | dropGoto _ ih =>
      have htail := suffix_of_cons ha
      obtain ⟨a', hrun, hresult⟩ := ih htail hlines
      exact ⟨a', .head (h.step_goto htail) hrun, hresult⟩

/-- Where nothing is left of the trimmed form, the program comes to its end. -/
theorem IsTrimmed.execution_nil (h : IsTrimmed program trimmed) (ha : a <:+ program)
    (hrest : Trims (trimmed.flatMap targets) a []) :
    Execution program (.before a) [] (.before []) := by
  generalize hlines : [] = lines at hrest
  induction hrest with
  | nil => exact .refl _
  | keep => cases hlines
  | dropLabel _ _ ih =>
      exact .head (.exit (.label _) _) (ih (suffix_of_cons ha) hlines)
  | dropGoto _ ih =>
      have htail := suffix_of_cons ha
      exact .head (h.step_goto htail) (ih htail hlines)

/-- The program follows a step of its trimmed form: it gets past the lines that are left out and
takes the same step. -/
theorem IsTrimmed.follows_trimmed (h : IsTrimmed program trimmed)
    (hmatch : Matches program trimmed p q) (hstep : Step trimmed q shown q') :
    ∃ p', Execution program p shown.toList p' ∧ Matches program trimmed p' q' := by
  cases hmatch with
  | gone => nomatch hstep
  | before ha hb hrest =>
      obtain ⟨hexit, rest⟩ := hstep
      obtain ⟨a', hrun, ha', hrest'⟩ := h.exists_execution ha hrest
      exact ⟨_, hrun.trans (.single (.exit hexit a')), h.matches_goOn ha' hb hrest' hexit⟩

theorem IsTrimmed.follows_execution (h : IsTrimmed program trimmed)
    (hmatch : Matches program trimmed p q) {events : List Event}
    (hrun : Execution program p events p') :
    ∃ q', Execution trimmed q events q' ∧ Matches program trimmed p' q' := by
  induction hrun generalizing q with
  | refl => exact ⟨q, .refl q, hmatch⟩
  | head hstep _ ih =>
      obtain ⟨r, hfirst, hmatch'⟩ := h.follows hmatch hstep
      obtain ⟨q', hrest, hlast⟩ := ih hmatch'
      exact ⟨q', hfirst.trans hrest, hlast⟩

theorem IsTrimmed.follows_trimmed_execution (h : IsTrimmed program trimmed)
    (hmatch : Matches program trimmed p q) {events : List Event}
    (hrun : Execution trimmed q events q') :
    ∃ p', Execution program p events p' ∧ Matches program trimmed p' q' := by
  induction hrun generalizing p with
  | refl => exact ⟨p, .refl p, hmatch⟩
  | head hstep _ ih =>
      obtain ⟨r, hfirst, hmatch'⟩ := h.follows_trimmed hmatch hstep
      obtain ⟨p', hrest, hlast⟩ := ih hmatch'
      exact ⟨p', hfirst.trans hrest, hlast⟩

theorem Matches.eq_of_isOver (hmatch : Matches program trimmed p q) (hover : p.IsOver) : q = p := by
  cases hmatch with
  | gone => rfl
  | before _ _ hrest =>
      cases hrest with
      | nil => rfl
      | keep | dropLabel | dropGoto => cases hover

theorem IsTrimmed.execution_of_isOver (h : IsTrimmed program trimmed)
    (hmatch : Matches program trimmed p q) (hover : q.IsOver) : Execution program p [] q := by
  cases hmatch with
  | gone target => exact .refl (.gone target)
  | @before a b ha _ hrest =>
      cases b with
      | nil => exact h.execution_nil ha hrest
      | cons line b => cases hover

/-- Trimming changes nothing about the executions from matching positions. -/
theorem IsTrimmed.agree (h : IsTrimmed program trimmed) (hmatch : Matches program trimmed p q) :
    Agree program trimmed p q where
  shows events := by
    constructor
    · rintro ⟨p', hrun⟩
      obtain ⟨q', hrun', -⟩ := h.follows_execution hmatch hrun
      exact ⟨q', hrun'⟩
    · rintro ⟨q', hrun⟩
      obtain ⟨p', hrun', -⟩ := h.follows_trimmed_execution hmatch hrun
      exact ⟨p', hrun'⟩
  ends events last hover := by
    constructor
    · intro hrun
      obtain ⟨q', hrun', hlast⟩ := h.follows_execution hmatch hrun
      rwa [hlast.eq_of_isOver hover] at hrun'
    · intro hrun
      obtain ⟨p', hrun', hlast⟩ := h.follows_trimmed_execution hmatch hrun
      have hend := hrun'.trans (h.execution_of_isOver hlast hover)
      rwa [List.append_nil] at hend

theorem IsTrimmed.agree_start (h : IsTrimmed program trimmed) :
    Agree program trimmed (.before program) (.before trimmed) :=
  h.agree (.before List.suffix_rfl List.suffix_rfl h.lines)

/-- Executions from the lines behind a label agree. -/
theorem IsTrimmed.agree_label (h : IsTrimmed program trimmed) {address : Nat}
    (haddress : address ∈ trimmed.flatMap targets) (ha : label address :: a <:+ program)
    (hb : label address :: b <:+ trimmed) : Agree program trimmed (.before a) (.before b) := by
  have hone : trimmed.count (label address) ≤ 1 :=
    Nat.le_trans (h.lines.sublist.count_le (label address)) (h.labels address)
  have hmatch : Matches program trimmed (landing address program) (landing address trimmed) :=
    .landing haddress List.suffix_rfl List.suffix_rfl h.lines
  rw [landing_of_suffix (h.labels address) ha,
    landing_of_suffix hone hb] at hmatch
  cases hmatch with
  | before _ _ hlines =>
      cases hlines with
      | dropLabel hunused => exact absurd haddress hunused
      | keep _ hrest =>
          exact h.agree
            (.before (suffix_of_cons ha) (suffix_of_cons hb) hrest)

end Simulation

end Line

end ScriptDecompiler
