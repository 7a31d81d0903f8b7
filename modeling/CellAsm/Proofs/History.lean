-- SUMMARY: The moments of a reading in order, and what each of them makes of what is gathered.
import CellAsm.Proofs.Expansion

/-!
# The history of a reading

At each moment of a reading a line is read, or a line is collected into a template, or
something that was opened before is closed. What reading gathers is therefore decided
by the lines in the order in which they are met. A property of the moments so far and
of what has been gathered, if every step keeps it, holds when all is read.
-/
namespace CellAsm

/-- The names that a line exports. -/
def Line.exports (line : Line) : List Token :=
  match line.dropWhile (·.kind == .label) with
  | head :: rest => SourceState.exported head rest
  | [] => []

theorem Line.exports_eq {line : Line} {head : Token} {rest : List Token}
    (h : line.dropWhile (·.kind == .label) = head :: rest) :
    line.exports = SourceState.exported head rest := by
  rw [exports, h]

theorem Line.exports_of_ne {line : Line} {head : Token} {rest : List Token}
    (h : line.dropWhile (·.kind == .label) = head :: rest) (hkind : head.kind ≠ .exported) :
    line.exports = [] := by
  rw [exports_eq h]
  exact if_neg hkind

namespace SourceState

/-- What a line makes of what has been gathered, before other lines are read for it. -/
inductive Gains (m : Machine) (line : Line) (s : SourceState) : SourceState → Prop
  /-- The line has labels only, or other lines are read in its place. -/
  | waits (log : List Record) (hkeyword : line.keyword? ≠ some .templateStart)
      (hexports : line.exports = []) :
      Gains m line s { s.addLabels line with log := log }
  | adds {s' : SourceState} (hkeyword : line.keyword? ≠ some .templateStart)
      (h : (s.addLabels line).Adds m line.exports s') : Gains m line s s'
  | starts {t : Template} {head : Token} {rest : List Token} (hkeyword : head.kind = .templateStart)
      (hline : line.dropWhile (·.kind == .label) = head :: t.name :: rest)
      (hnew : s.templates.find? t.name.contents = none) (hbody : t.body = []) :
      Gains m line s { s.addLabels line with defining := some t }

/-- What collecting a line into the template `t` makes of what has been gathered. -/
inductive Collects (t : Template) (line : Line) (s : SourceState) : SourceState → Prop
  | closes (log : List Record) (hend : line.head?.map Token.kind = some .templateEnd) :
      Collects t line s { s with
        templates := s.templates.insert t.name.contents t
        defining := none
        log := log }
  | keeps (hend : line.head?.map Token.kind ≠ some .templateEnd)
      (hstart : line.head?.map Token.kind ≠ some .templateStart) :
      Collects t line s { s with defining := some { t with body := t.body ++ [line] } }

variable {m : Machine} {s s' : SourceState} {head : Token} {rest : List Token}

theorem Gains.exports {line : Line} (h : s.Gains m line s') :
    s'.exports = s.exports ++ line.exports := by
  cases h with
  | waits _ _ hexports =>
    rw [hexports, List.append_nil]
    rfl
  | adds _ h => exact h.exports_eq
  | starts hkeyword hline =>
    rw [Line.exports_of_ne hline (by rw [hkeyword]; decide), List.append_nil]
    rfl

theorem gains_of_startTemplate {line : Line} (hkeyword : head.kind = .templateStart)
    (hline : line.dropWhile (·.kind == .label) = head :: rest)
    (h : (s.addLabels line).startTemplate m head rest = .ok s') : Gains m line s s' := by
  rw [startTemplate_eq] at h
  split at h
  · split at h
    · cases h
    · split at h
      · cases h
      · rename_i hnew
        split at h
        · cases h
        · simp only [bind_eq_ok, pure_eq_ok] at h
          obtain ⟨params, _, _, _, rfl⟩ := h
          exact .starts hkeyword hline hnew rfl
  · cases h

theorem collects_of_collect {t : Template} {line : Line} (h : s.collect t line = .ok s') :
    Collects t line s s' := by
  rw [collect_eq] at h
  split at h
  · cases h
    exact .keeps (by simp) (by simp)
  · rename_i head rest
    split at h
    · rename_i hkind
      split at h
      · cases h
      · cases h
        exact .closes _ (congrArg some hkind)
    · cases h
    · rename_i hend hstart
      cases h
      rw [← Option.some_inj] at hend hstart
      exact .keeps hend hstart

end SourceState

theorem SourceEnv.LineTaken.gains {env : SourceEnv} {file : Text} {outer : List Text} {depth : Nat}
    {line : Line} {s s' : SourceState} {demand : Demand}
    (h : LineTaken env file outer depth line s s' demand) :
    SourceState.Gains env.machine line s s' := by
  cases h with
  | labels hline =>
    refine .waits s.log ?_ ?_
    · rw [Line.keyword?, hline]
      rintro ⟨⟩
    · rw [Line.exports, hline]
  | @equ head keyword rest value _ hline hequ hdefine =>
    have hname : head.kind = .identifier := by
      unfold SourceState.equLine? at hequ
      split at hequ
      · split at hequ
        · rename_i hkinds
          exact hkinds.1
        · cases hequ
      · cases hequ
    refine .adds ?_ ?_
    · rw [Line.keyword?_eq hline, hname]
      rintro ⟨⟩
    · rw [Line.exports_of_ne hline (by rw [hname]; decide)]
      exact .of_defineEqu hdefine
  | included hline _ hkind =>
    refine .waits _ ?_ (Line.exports_of_ne hline (by rw [hkind]; decide))
    rw [Line.keyword?_eq hline, hkind]
    rintro ⟨⟩
  | expanded hline _ hkind =>
    refine .waits s.log ?_ (Line.exports_of_ne hline (by rw [hkind]; decide))
    rw [Line.keyword?_eq hline, hkind]
    rintro ⟨⟩
  | @plain head rest _ hline _ _ _ hplain =>
    by_cases hstart : head.kind = .templateStart
    · simp only [SourceState.plainLine, hstart] at hplain
      exact SourceState.gains_of_startTemplate hstart hline hplain
    · refine .adds ?_ ?_
      · rw [Line.keyword?_eq hline, ne_eq, Option.some_inj]
        exact hstart
      · rw [Line.exports_eq hline]
        exact .of_plainLine hstart hplain

/-! ## One moment -/

/-- The file with its next line taken away, or with the innermost expansion left if no line
of it is left. -/
def Level.advance (l : Level) : Level :=
  match l.expansions with
  | (_ :: rest) :: more => { l with expansions := rest :: more }
  | [] :: more => { l with expansions := more }
  | [] => { l with lines := l.lines.tail }

namespace Moment

/-- The line that is read. In a file no line is read while a template is being defined; a line
of an expansion is read all the same. -/
def line? (m : Moment) : Option Line :=
  match m.level.expansions, m.level.lines, m.state.defining with
  | (line :: _) :: _, _, _ => some line
  | [], line :: _, none => some line
  | _, _, _ => none

/-- The line that is collected, with the template it goes into. -/
def collected? (m : Moment) : Option (Template × Line) :=
  match m.level.expansions, m.level.lines, m.state.defining with
  | [], line :: _, some t => some (t, line)
  | _, _, _ => none

/-- A line is collected from a file, into the template that is being defined, and is not read. -/
theorem of_collected? {m : Moment} {t : Template} {line : Line}
    (h : m.collected? = some (t, line)) :
    m.level.expansions = [] ∧ m.state.defining = some t ∧ line ∈ m.level.lines ∧ m.line? = none := by
  unfold collected? at h
  split at h
  · rename_i hexpansions hlines hdefining
    cases h
    refine ⟨hexpansions, hdefining, ?_, ?_⟩
    · rw [hlines]
      exact List.mem_cons_self
    · simp only [line?, hexpansions, hlines, hdefining]
  · cases h

end Moment

namespace SourceEnv

/-- What a step leads to: a line is read or collected, an expansion is left, or an included
file is closed. -/
inductive Stepped (env : SourceEnv) (m : Moment) : Moment → Prop
  | read {line : Line} {s : SourceState} {demand : Demand} (hline : m.line? = some line)
      (htaken : LineTaken env m.level.file (m.outer.map Level.file) m.level.advance.depth line
        m.state s demand) :
      Stepped env m (Moment.push ⟨m.level.advance, m.outer, s⟩ demand)
  | collected {t : Template} {line : Line} {s : SourceState}
      (hcollected : m.collected? = some (t, line)) (hcollect : m.state.collect t line = .ok s) :
      Stepped env m ⟨m.level.advance, m.outer, s⟩
  | left {more : List (List Line)} (hexpansions : m.level.expansions = [] :: more) :
      Stepped env m ⟨m.level.advance, m.outer, m.state⟩
  | closed {level : Level} {outer : List Level} (hexpansions : m.level.expansions = [])
      (hlines : m.level.lines = []) (hclosed : m.state.defining = none)
      (houter : m.outer = level :: outer) :
      Stepped env m ⟨level, outer, m.state⟩

variable {env : SourceEnv} {m m' : Moment}

theorem stepped_of_take {line : Line} (hline : m.line? = some line)
    (hfile : m.level.advance.file = m.level.file)
    (h : env.take ⟨m.level.advance, m.outer, m.state⟩ line = .ongoing m') : env.Stepped m m' := by
  unfold take at h
  split at h
  · rename_i s demand htake
    cases h
    rw [hfile] at htake
    exact .read hline (lineTaken_of_takeLine htake).2
  · cases h

theorem stepped_of_step (h : env.step m = .ongoing m') : env.Stepped m m' := by
  obtain ⟨⟨file, lines, error, expansions⟩, outer, s⟩ := m
  rcases expansions with _ | ⟨_ | ⟨line, rest⟩, more⟩
  · cases lines with
    | nil =>
      simp only [step] at h
      split at h
      · cases h
      · rename_i hend
        obtain ⟨_, hclosed, rfl⟩ := SourceState.endOfFile_eq_ok hend
        cases h
        exact .closed rfl rfl hclosed rfl
      · cases h
    | cons line rest =>
      cases hdefining : s.defining with
      | none =>
        have hline : Moment.line? ⟨⟨file, line :: rest, error, []⟩, outer, s⟩ = some line := by
          simp only [Moment.line?, hdefining]
        simp only [step, hdefining] at h
        exact stepped_of_take hline rfl h
      | some t =>
        have hline : Moment.collected? ⟨⟨file, line :: rest, error, []⟩, outer, s⟩ =
            some (t, line) := by
          simp only [Moment.collected?, hdefining]
        simp only [step, hdefining] at h
        split at h
        · rename_i hcollect
          cases h
          exact .collected hline (SourceState.attempt_eq_ok.1 hcollect)
        · cases h
  · cases h
    exact .left rfl
  · exact stepped_of_take rfl rfl h

/-- A reading ends well when the last file is read and no template is left open. -/
theorem of_step_ended {s : SourceState} (h : env.step m = .ended (.ok s)) :
    s = m.state ∧ m.state.defining = none ∧ m.line? = none ∧ m.collected? = none := by
  obtain ⟨⟨file, lines, error, expansions⟩, outer, s'⟩ := m
  have htake {m : Moment} {line : Line} : env.take m line ≠ .ended (.ok s) := by
    unfold take
    split
    · rintro ⟨⟩
    · rintro ⟨⟩
  rcases expansions with _ | ⟨_ | ⟨line, rest⟩, more⟩
  · cases lines with
    | nil =>
      simp only [step] at h
      split at h
      · cases h
      · cases h
      · rename_i hend
        obtain ⟨_, hclosed, rfl⟩ := SourceState.endOfFile_eq_ok hend
        cases h
        exact ⟨rfl, hclosed, rfl, rfl⟩
    | cons line rest =>
      cases hdefining : s'.defining with
      | none =>
        simp only [step, hdefining] at h
        exact absurd h htake
      | some t =>
        simp only [step, hdefining] at h
        split at h
        · cases h
        · cases h
  · cases h
  · exact absurd h htake

/-- What a moment makes of what has been gathered. -/
inductive Moves (env : SourceEnv) (m : Moment) : SourceState → Prop
  | read {line : Line} {s : SourceState} (hline : m.line? = some line)
      (hgains : m.state.Gains env.machine line s) : Moves env m s
  | collected {t : Template} {line : Line} {s : SourceState}
      (hcollected : m.collected? = some (t, line)) (hcollects : m.state.Collects t line s) :
      Moves env m s
  | idle (hline : m.line? = none) (hcollected : m.collected? = none) : Moves env m m.state

theorem Stepped.moves (h : env.Stepped m m') : env.Moves m m'.state := by
  cases h with
  | read hline htaken =>
    rw [Moment.state_push]
    exact .read hline htaken.gains
  | collected hcollected hcollect =>
    exact .collected hcollected (SourceState.collects_of_collect hcollect)
  | left hexpansions =>
    refine .idle ?_ ?_
    · simp only [Moment.line?, hexpansions]
    · simp only [Moment.collected?, hexpansions]
  | closed hexpansions hlines _ _ =>
    refine .idle ?_ ?_
    · simp only [Moment.line?, hexpansions, hlines]
    · simp only [Moment.collected?, hexpansions, hlines]

/-! ## All moments of a reading -/

/-- The moments that reading a program goes through, whether it fails later or not. -/
inductive Occurs (env : SourceEnv) (name contents : Text) : Moment → Prop
  | first : Occurs env name contents (env.firstMoment name contents)
  | next {m m' : Moment} (h : Occurs env name contents m) (hstep : env.step m = .ongoing m') :
      Occurs env name contents m'

/-- A reading that goes on from a moment, through others, to its end, with what it gathered. -/
inductive Run (env : SourceEnv) : Moment → List Moment → SourceState → Prop
  | last {m : Moment} {s : SourceState} (hstep : env.step m = .ended (.ok s)) : Run env m [m] s
  | more {m m' : Moment} {ms : List Moment} {s : SourceState} (hstep : env.step m = .ongoing m')
      (h : Run env m' ms s) : Run env m (m :: ms) s

namespace Run

variable {ms : List Moment} {s : SourceState}

theorem unique {ms' : List Moment} {s' : SourceState} (h : env.Run m ms s)
    (h' : env.Run m ms' s') : ms = ms' ∧ s = s' := by
  induction h generalizing ms' with
  | last hstep =>
    cases h' with
    | last hstep' =>
      cases hstep.symm.trans hstep'
      exact ⟨rfl, rfl⟩
    | more hstep' => cases hstep.symm.trans hstep'
  | more hstep _ ih =>
    cases h' with
    | last hstep' => cases hstep.symm.trans hstep'
    | more hstep' hrest =>
      cases hstep.symm.trans hstep'
      obtain ⟨rfl, rfl⟩ := ih hrest
      exact ⟨rfl, rfl⟩

/-- A property of the moments so far and of what has been gathered, if every moment keeps it,
holds at the end. -/
theorem keeps {P : List Moment → SourceState → Prop} (h : env.Run m ms s)
    (hmoves : ∀ {before m s}, P before m.state → env.Moves m s → P (before ++ [m]) s)
    {before : List Moment} (hP : P before m.state) : P (before ++ ms) s := by
  induction h generalizing before with
  | @last m s hstep =>
    obtain ⟨rfl, _, hline, hcollected⟩ := of_step_ended hstep
    exact hmoves hP (.idle hline hcollected)
  | @more m _ ms _ hstep _ ih =>
    rw [List.append_cons]
    exact ih (hmoves hP (stepped_of_step hstep).moves)

end Run

/-- The moments within a number of steps. -/
def moments (env : SourceEnv) : Nat → Progress → List Moment
  | n + 1, .ongoing m => m :: env.moments n (env.step m)
  | _, _ => []

theorem run_of_after {n : Nat} {s : SourceState}
    (h : env.after n (.ongoing m) = .ended (.ok s)) :
    env.Run m (env.moments n (.ongoing m)) s := by
  induction n generalizing m with
  | zero => cases h
  | succ n ih =>
    rw [after] at h
    rw [moments]
    cases hstep : env.step m with
    | ongoing m' =>
      rw [hstep] at h
      exact .more hstep (ih h)
    | ended r =>
      rw [hstep, after_ended] at h
      cases h
      have hnone : env.moments n (.ended (.ok s)) = [] := by cases n <;> rfl
      rw [hnone]
      exact .last hstep

/-- A program that is read goes through a run. The labels at its end are put on a statement of
their own, and all names are checked. -/
theorem exists_run_of_parse {name contents : Text} {s : SourceState}
    (h : env.parse name contents = .ok s) : ∃ ms gathered,
      env.Run (env.firstMoment name contents) ms gathered ∧ s = gathered.closeLabels ∧
      s.checkSymbols env.machine = .ok () := by
  rw [parse_eq_conclude, bind_eq_ok] at h
  obtain ⟨gathered, hread, hconclude⟩ := h
  obtain ⟨n, hn⟩ := env.leads_ended (Path.clean name) (env.linesOf name contents).lines
    (env.linesOf name contents).error {}
  rw [hread] at hn
  simp only [conclude, bind_eq_ok, SourceState.attempt_eq_ok, pure_eq_ok] at hconclude
  obtain ⟨_, hcheck, rfl⟩ := hconclude
  exact ⟨_, gathered, run_of_after hn, rfl, hcheck⟩

/-- What a program is read as, if that takes at most `n` steps. -/
def parsedAfter? (env : SourceEnv) (name contents : Text) (n : Nat) : Option SourceState :=
  (env.after n (.ongoing (env.firstMoment name contents))).result?.bind fun r =>
    (r >>= env.conclude).toOption

theorem ended_of_parsedAfter? {name contents : Text} {n : Nat} {s : SourceState}
    (h : env.parsedAfter? name contents n = some s) : ∃ gathered,
      env.after n (.ongoing (env.firstMoment name contents)) = .ended (.ok gathered) ∧
      env.conclude gathered = .ok s := by
  obtain ⟨r, hr, hs⟩ := Option.bind_eq_some_iff.1 h
  obtain ⟨gathered, rfl, hconclude⟩ := bind_eq_ok.1 (toOption_eq_some.1 hs)
  exact ⟨gathered, Progress.result?_eq_some.1 hr, hconclude⟩

theorem parse_of_parsedAfter? {name contents : Text} {n : Nat} {s : SourceState}
    (h : env.parsedAfter? name contents n = some s) : env.parse name contents = .ok s := by
  obtain ⟨gathered, hended, hconclude⟩ := ended_of_parsedAfter? h
  rw [parse_eq_conclude, eq_of_after hended, ok_bind]
  exact hconclude

end SourceEnv

end CellAsm
