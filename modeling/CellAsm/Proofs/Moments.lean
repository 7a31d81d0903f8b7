-- SUMMARY: Reading a program moment by moment, and why it comes to an end.
import CellAsm.Proofs.PlainSource
import Mathlib.Data.Set.Card

/-!
# Moments of reading

Reading is recursive: a line may ask for a file or for the lines of a template to
be read before the next line. Here the same reading goes step by step over a stack
of open files, each with the templates expanded in it. At every moment the names
of the open files are different from each other, so that no more files are open
than can be opened, and templates are nested to a bounded depth. The steps come to
an end, and what they end with is what reading gives.
-/
namespace CellAsm

/-- A file that is being read. -/
structure Level where
  file : Text
  /-- The lines of the file that are left. -/
  lines : List Line
  /-- The lexical error behind them. -/
  error : Option Diagnostic
  /-- What is left of the templates that are expanded in the file, the innermost
  first. -/
  expansions : List (List Line) := []

/-- How many templates are expanded within each other in a file. -/
def Level.depth (l : Level) : Nat := l.expansions.length

/-- The files that are being read, the innermost apart, and what has been
gathered. -/
structure Moment where
  level : Level
  outer : List Level := []
  state : SourceState

/-- A reading that goes on, or the result it ended with. -/
inductive Progress
  | ongoing (m : Moment)
  | ended (result : Except Stop SourceState)

namespace Progress

def moment? : Progress → Option Moment
  | ongoing m => some m
  | ended _ => none

def result? : Progress → Option (Except Stop SourceState)
  | ongoing _ => none
  | ended result => some result

theorem moment?_eq_some {p : Progress} {m : Moment} : p.moment? = some m ↔ p = .ongoing m := by
  cases p <;> simp [moment?]

theorem result?_eq_some {p : Progress} {result : Except Stop SourceState} :
    p.result? = some result ↔ p = .ended result := by
  cases p <;> simp [result?]

end Progress

namespace Moment

def levels (m : Moment) : List Level := m.level :: m.outer

/-- The names of the files that are being read, the innermost first. -/
def stack (m : Moment) : List Text := m.levels.map Level.file

/-- Puts what a line asks for on top. An included file starts without expanded
templates. -/
def push (m : Moment) : Demand → Moment
  | .nothing => m
  | .file name source => ⟨⟨name, source.lines, source.error, []⟩, m.levels, m.state⟩
  | .expansion lines =>
    { m with level := { m.level with expansions := lines :: m.level.expansions } }

theorem state_push (m : Moment) (demand : Demand) : (m.push demand).state = m.state := by
  cases demand with
  | nothing => rfl
  | file => rfl
  | expansion => rfl

end Moment

namespace SourceEnv

/-- Takes a line in the innermost file. -/
def take (env : SourceEnv) (m : Moment) (line : Line) : Progress :=
  match env.takeLine m.level.file (m.outer.map Level.file) m.level.depth line m.state with
  | .ok (s, demand) => .ongoing (Moment.push { m with state := s } demand)
  | .error stop => .ended (.error stop)

/-- One step of reading: the next line of the innermost expanded template or else
of the innermost file is taken, or one of these is closed. -/
def step (env : SourceEnv) (m : Moment) : Progress :=
  match m.level.expansions with
  | (line :: rest) :: more =>
    env.take { m with level := { m.level with expansions := rest :: more } } line
  | [] :: more => .ongoing { m with level := { m.level with expansions := more } }
  | [] =>
    match m.level.lines with
    | line :: rest =>
      match m.state.defining with
      | some t =>
        match m.state.attempt (m.state.collect t line) with
        | .ok s => .ongoing { m with level := { m.level with lines := rest }, state := s }
        | .error stop => .ended (.error stop)
      | none => env.take { m with level := { m.level with lines := rest } } line
    | [] =>
      match m.state.endOfFile m.level.error, m.outer with
      | .error stop, _ => .ended (.error stop)
      | .ok s, level :: outer => .ongoing ⟨level, outer, s⟩
      | .ok s, [] => .ended (.ok s)

/-- What becomes of a reading within a number of steps. -/
def after (env : SourceEnv) : Nat → Progress → Progress
  | n + 1, .ongoing m => env.after n (env.step m)
  | _, p => p

/-- The first moment of reading a program. -/
def firstMoment (env : SourceEnv) (name contents : Text) : Moment where
  level := ⟨Path.clean name, (env.linesOf name contents).lines, (env.linesOf name contents).error, []⟩
  state := {}

/-- What is left to do when all files are read. -/
def conclude (env : SourceEnv) (s : SourceState) : Except Stop SourceState := do
  s.closeLabels.attempt (s.closeLabels.checkSymbols env.machine)
  return s.closeLabels

/-! ## What holds at every moment -/

/-- The names under which a file can be opened. -/
def openable (env : SourceEnv) : Set Text :=
  {name | ∃ lib contents, env.library = some lib ∧ lib.read name = .ok contents}

theorem openable_finite (env : SourceEnv) : env.openable.Finite := by
  cases hlib : env.library with
  | none =>
    apply Set.finite_empty.subset
    rintro name ⟨lib, contents, hsome, _⟩
    cases hlib.symm.trans hsome
  | some lib =>
    apply lib.names.finite_toSet.subset
    rintro name ⟨lib', contents, hsome, hread⟩
    cases hlib.symm.trans hsome
    exact lib.mem_names hread

end SourceEnv

/-- Files that are open within each other, the innermost first. All but the first to
be opened come from the library, none of them is open twice, and in none of them are
templates nested too deep. -/
inductive Nested (env : SourceEnv) : List Level → Prop
  | first {l : Level} (hdepth : l.depth ≤ maxExpansionDepth) : Nested env [l]
  | opened {l : Level} {ls : List Level} (hnew : l.file ∉ ls.map Level.file)
      (hopenable : l.file ∈ env.openable) (hdepth : l.depth ≤ maxExpansionDepth)
      (hrest : Nested env ls) : Nested env (l :: ls)

namespace Nested

variable {env : SourceEnv} {l l' : Level} {ls : List Level}

theorem nodup (h : Nested env ls) : (ls.map Level.file).Nodup := by
  induction h with
  | first => exact List.nodup_singleton _
  | opened hnew _ _ _ ih => exact List.nodup_cons.2 ⟨hnew, ih⟩

theorem depth_le (h : Nested env ls) : ∀ l ∈ ls, l.depth ≤ maxExpansionDepth := by
  induction h with
  | first hdepth => exact List.forall_mem_singleton.2 hdepth
  | opened _ _ hdepth _ ih => exact List.forall_mem_cons.2 ⟨hdepth, ih⟩

theorem exists_opened (h : Nested env ls) : ∃ names name, ls.map Level.file = names ++ [name] ∧
    ∀ n ∈ names, n ∈ env.openable := by
  induction h with
  | @first l _ => exact ⟨[], l.file, rfl, List.forall_mem_nil _⟩
  | @opened l _ _ hopenable _ _ ih =>
    obtain ⟨names, name, hnames, hopened⟩ := ih
    refine ⟨l.file :: names, name, ?_, List.forall_mem_cons.2 ⟨hopenable, hopened⟩⟩
    rw [List.map_cons, hnames]
    rfl

/-- No more files are open than can be opened, and the first. -/
theorem length_le (h : Nested env ls) : ls.length ≤ 1 + env.openable.ncard := by
  obtain ⟨names, name, hnames, hopened⟩ := h.exists_opened
  have hnodup : names.Nodup := (List.nodup_append.1 (hnames ▸ h.nodup)).1
  have hcard : names.length ≤ env.openable.ncard := by
    rw [← List.toFinset_card_of_nodup hnodup, ← Set.ncard_coe_finset]
    apply Set.ncard_le_ncard _ env.openable_finite
    intro n hn
    exact hopened n (List.mem_toFinset.1 hn)
  have hlength := congrArg List.length hnames
  rw [List.length_map, List.length_append, List.length_singleton] at hlength
  omega

/-- The innermost file may be read on as long as templates are not nested too deep. -/
theorem head (h : Nested env (l :: ls)) (hfile : l'.file = l.file)
    (hdepth : l'.depth ≤ maxExpansionDepth) : Nested env (l' :: ls) := by
  cases h with
  | first => exact .first hdepth
  | opened hnew hopenable _ hrest => exact .opened (hfile ▸ hnew) (hfile ▸ hopenable) hdepth hrest

theorem tail (h : Nested env (l :: l' :: ls)) : Nested env (l' :: ls) := by
  cases h with
  | opened _ _ _ hrest => exact hrest

end Nested

namespace SourceEnv

variable {env : SourceEnv} {m m' : Moment}

theorem nested_of_take {line : Line} (h : Nested env m.levels)
    (htake : env.take m line = .ongoing m') : Nested env m'.levels := by
  unfold take at htake
  split at htake
  · rename_i s demand heq
    cases htake
    cases (lineTaken_of_takeLine heq).2 with
    | labels => exact h
    | equ => exact h
    | plain => exact h
    | expanded _ _ _ _ hdepth => exact h.head rfl hdepth
    | included _ _ _ _ hnew hlib hread =>
      exact .opened hnew ⟨_, _, hlib, hread⟩ (Nat.zero_le _) h
  · cases htake

/-- A step keeps the open files in order. -/
theorem nested_of_step (h : Nested env m.levels) (hstep : env.step m = .ongoing m') :
    Nested env m'.levels := by
  have hdepth : m.level.expansions.length ≤ maxExpansionDepth := h.depth_le _ List.mem_cons_self
  unfold step at hstep
  split at hstep
  · rename_i line rest more hexpansions
    rw [hexpansions] at hdepth
    apply nested_of_take _ hstep
    exact h.head rfl hdepth
  · rename_i more hexpansions
    cases hstep
    rw [hexpansions] at hdepth
    exact h.head rfl (Nat.le_of_succ_le hdepth)
  · split at hstep
    · split at hstep
      · split at hstep
        · cases hstep
          exact h.head rfl hdepth
        · cases hstep
      · apply nested_of_take _ hstep
        exact h.head rfl hdepth
    · split at hstep
      · cases hstep
      · rename_i level outer _ houter
        cases hstep
        rw [Moment.levels, houter] at h
        exact h.tail
      · cases hstep

theorem nested_of_after {n : Nat} (h : Nested env m.levels)
    (hafter : env.after n (.ongoing m) = .ongoing m') : Nested env m'.levels := by
  induction n generalizing m with
  | zero =>
    cases hafter
    exact h
  | succ n ih =>
    rw [after] at hafter
    cases hstep : env.step m with
    | ongoing next =>
      rw [hstep] at hafter
      exact ih (nested_of_step h hstep) hafter
    | ended result =>
      rw [hstep] at hafter
      cases n <;> cases hafter

/-! ## Steps lead to what reading gives -/

/-- One progress comes from another by some number of steps. -/
def Leads (env : SourceEnv) (p q : Progress) : Prop := ∃ n, env.after n p = q

theorem after_ended (env : SourceEnv) (n : Nat) (r : Except Stop SourceState) :
    env.after n (.ended r) = .ended r := by
  cases n <;> rfl

theorem after_add (env : SourceEnv) (n k : Nat) (p : Progress) :
    env.after (n + k) p = env.after k (env.after n p) := by
  induction n generalizing p with
  | zero =>
    rw [Nat.zero_add]
    rfl
  | succ n ih =>
    cases p with
    | ongoing m =>
      rw [Nat.succ_add, after, after]
      exact ih _
    | ended r => simp only [after_ended]

namespace Leads

variable {p q r : Progress}

theorem refl (env : SourceEnv) (p : Progress) : env.Leads p p := ⟨0, rfl⟩

theorem trans (h : env.Leads p q) (h' : env.Leads q r) : env.Leads p r := by
  obtain ⟨n, rfl⟩ := h
  obtain ⟨k, rfl⟩ := h'
  exact ⟨n + k, after_add env n k p⟩

theorem of_step (h : env.Leads (env.step m) q) : env.Leads (.ongoing m) q := by
  obtain ⟨n, rfl⟩ := h
  exact ⟨n + 1, rfl⟩

end Leads

end SourceEnv

/-- Where a reading goes on when a part of it is done. -/
def Progress.resume (next : SourceState → Moment) : Except Stop SourceState → Progress
  | .ok s => .ongoing (next s)
  | .error stop => .ended (.error stop)

namespace SourceEnv

variable {env : SourceEnv}

open Progress (resume)

/-- Two parts of a reading, one after the other. -/
theorem Leads.bind {p : Progress} {next next' : SourceState → Moment}
    {x : Except Stop SourceState} {f : SourceState → Except Stop SourceState}
    (h : env.Leads p (resume next x))
    (hf : ∀ s, env.Leads (.ongoing (next s)) (resume next' (f s))) :
    env.Leads p (resume next' (x >>= f)) := by
  cases x with
  | ok s => exact h.trans (hf s)
  | error stop => exact h

/-- The steps lead through all lines of a file, with the same outcome as reading
them. -/
theorem leads_readLines (env : SourceEnv) (file : Text) (outer : List Text) (lines : List Line)
    (s : SourceState) (error : Option Diagnostic) (levels : List Level)
    (hlevels : levels.map Level.file = outer) :
    env.Leads (.ongoing ⟨⟨file, lines, error, []⟩, levels, s⟩)
      (resume (fun s => ⟨⟨file, [], error, []⟩, levels, s⟩) (env.readLines (file :: outer) lines s)) := by
  -- one motive per function; what lies below on the stack stays as it is
  have hcases : ReadingCases env
      (fun file outer lines s => ∀ {error levels}, levels.map Level.file = outer →
        env.Leads (.ongoing ⟨⟨file, lines, error, []⟩, levels, s⟩)
          (resume (fun s => ⟨⟨file, [], error, []⟩, levels, s⟩) (env.readLines (file :: outer) lines s)))
      (fun file outer depth line s => ∀ {l : Level} {levels}, l.file = file →
        levels.map Level.file = outer → l.depth = depth →
        env.Leads (env.take ⟨l, levels, s⟩ line)
          (resume (fun s => ⟨l, levels, s⟩) (env.readLine (file :: outer) depth line s)))
      (fun file outer depth lines s => ∀ {rest error expansions levels},
        levels.map Level.file = outer → expansions.length + 1 = depth →
        env.Leads (.ongoing ⟨⟨file, rest, error, lines :: expansions⟩, levels, s⟩)
          (resume (fun s => ⟨⟨file, rest, error, expansions⟩, levels, s⟩)
            (env.readExpansion (file :: outer) depth lines s))) := by
    constructor
    case ended =>
      intro file outer s error levels _
      rw [readLines]
      exact .refl _ _
    case collected =>
      intro file outer line rest s t hdefining ih error levels hlevels
      rw [readLines_of_defining hdefining]
      apply Leads.of_step
      simp only [step, hdefining]
      cases s.attempt (s.collect t line) with
      | ok s' => exact ih s' hlevels
      | error stop => exact .refl _ _
    case read =>
      intro file outer line rest s hdefining ihLine ihRest error levels hlevels
      rw [readLines_of_closed hdefining]
      apply Leads.of_step
      simp only [step, hdefining]
      exact (ihLine rfl hlevels rfl).bind fun s' => ihRest s' hlevels
    case line =>
      intro file outer depth line s ihFile ihExpansion level levels hfile hlevels hdepth
      subst hfile hlevels hdepth
      rw [readLine_eq, take]
      cases htake : env.takeLine level.file (levels.map Level.file) level.depth line s with
      | error stop => exact .refl _ _
      | ok taken =>
        obtain ⟨s', demand⟩ := taken
        cases (lineTaken_of_takeLine htake).2 with
        | labels => exact .refl _ _
        | equ => exact .refl _ _
        | plain => exact .refl _ _
        | expanded _ _ _ _ hdepth _ => exact ihExpansion (Nat.not_le_of_lt hdepth) _ rfl rfl
        | included _ _ _ _ hnew hlib hread =>
          refine (ihFile _ hnew _ hlib _ hread rfl).bind fun s' => Leads.of_step ?_
          simp only [step]
          cases s'.endOfFile (env.linesOf _ _).error with
          | ok s'' => exact .refl _ _
          | error stop => exact .refl _ _
    case left =>
      intro file outer depth s rest error expansions levels _ _
      rw [readExpansion]
      exact .of_step (.refl _ _)
    case expanded =>
      intro file outer depth line rest s ihLine ihRest lines error expansions levels hlevels hdepth
      rw [readExpansion]
      apply Leads.of_step
      exact (ihLine (l := ⟨file, lines, error, rest :: expansions⟩) rfl hlevels hdepth).bind
        fun s' => ihRest s' hlevels hdepth
  exact hcases.file_induct file outer lines s hlevels

/-- The steps of reading a file that no other includes end with what its lines and its
end give. -/
theorem leads_ended (env : SourceEnv) (file : Text) (lines : List Line)
    (error : Option Diagnostic) (s : SourceState) :
    env.Leads (.ongoing ⟨⟨file, lines, error, []⟩, [], s⟩)
      (.ended (env.readLines [file] lines s >>= (·.endOfFile error))) := by
  apply (env.leads_readLines file [] lines s error [] rfl).trans
  cases env.readLines [file] lines s with
  | error stop => exact .refl _ _
  | ok s =>
    apply Leads.of_step
    simp only [step, ok_bind]
    cases s.endOfFile error with
    | error stop => exact .refl _ _
    | ok s' => exact .refl _ _

/-- What the steps end with is what reading gives. -/
theorem eq_of_after {file : Text} {lines : List Line} {error : Option Diagnostic}
    {s : SourceState} {n : Nat} {result : Except Stop SourceState}
    (h : env.after n (.ongoing ⟨⟨file, lines, error, []⟩, [], s⟩) = .ended result) :
    env.readLines [file] lines s >>= (·.endOfFile error) = result := by
  obtain ⟨k, hk⟩ := env.leads_ended file lines error s
  have hboth := after_add env n k (.ongoing ⟨⟨file, lines, error, []⟩, [], s⟩)
  rw [Nat.add_comm, after_add, h, hk, after_ended, after_ended] at hboth
  exact Progress.ended.inj hboth

theorem parse_eq_conclude (env : SourceEnv) (name contents : Text) :
    env.parse name contents =
      (env.readLines [Path.clean name] (env.linesOf name contents).lines {} >>=
        (·.endOfFile (env.linesOf name contents).error)) >>= env.conclude := by
  rw [parse_eq, bind_assoc]
  rfl

theorem result_assemble (env : SourceEnv) (name contents : Text) (start : UInt64) :
    (env.assemble name contents start).result =
      (env.parse name contents).mapError Stop.failure >>= fun s => (env.finish start s).result := by
  unfold assemble
  cases env.parse name contents with
  | error stop => rfl
  | ok s => rfl

/-- The outcome of an assembly whose source is read within `n` steps. -/
def resultAfter? (env : SourceEnv) (name contents : Text) (start : UInt64) (n : Nat) :
    Option (Except Failure Program) :=
  (env.after n (.ongoing (env.firstMoment name contents))).result?.map fun r =>
    (r >>= env.conclude).mapError Stop.failure >>= fun s => (env.finish start s).result

theorem result_of_resultAfter? {name contents : Text} {start : UInt64} {n : Nat}
    {r : Except Failure Program} (h : env.resultAfter? name contents start n = some r) :
    (env.assemble name contents start).result = r := by
  obtain ⟨read, hread, rfl⟩ := Option.map_eq_some_iff.1 h
  have hread := eq_of_after (Progress.result?_eq_some.1 hread)
  rw [result_assemble, parse_eq_conclude, hread]

/-- Reading ends, for every program and every library. At every moment the files that
are being read have different names, so that there is at most one more of them than can
be opened, and in each of them templates are nested to a bounded depth. After some
number of steps nothing is left to read, and the outcome is that of reading. -/
theorem parse_ends (env : SourceEnv) (name contents : Text) :
    (∀ n m, env.after n (.ongoing (env.firstMoment name contents)) = .ongoing m →
      m.stack.Nodup ∧ m.stack.length ≤ 1 + env.openable.ncard ∧
        ∀ l ∈ m.levels, l.depth ≤ maxExpansionDepth) ∧
    ∃ n result, env.after n (.ongoing (env.firstMoment name contents)) = .ended result ∧
      env.parse name contents = result >>= env.conclude := by
  constructor
  · intro n m hafter
    have h : Nested env m.levels := nested_of_after (.first (Nat.zero_le _)) hafter
    refine ⟨h.nodup, ?_, h.depth_le⟩
    rw [Moment.stack, List.length_map]
    exact h.length_le
  · obtain ⟨n, hn⟩ := env.leads_ended (Path.clean name) (env.linesOf name contents).lines
      (env.linesOf name contents).error {}
    exact ⟨n, _, hn, env.parse_eq_conclude name contents⟩

end SourceEnv

namespace Sample

/-- A template that includes a file, which calls another template. -/
def nestedSource : Text := "MACRO n\n .data 1 7\nENDM\nMACRO m\n .include \"b\"\nENDM\n m\n"

def nestedEnv : SourceEnv := ⟨assembler.machine, some (.ofTable (.ofList [("b", " n\n")]))⟩

end Sample

/-- Within the included file the depth starts again, and the outer one stays. -/
theorem parse_ends_nested : ∃ m, Sample.nestedEnv.after 9
    (.ongoing (Sample.nestedEnv.firstMoment "main" Sample.nestedSource)) = .ongoing m ∧
    m.stack = [("b" : Text), ("main" : Text)] ∧ m.levels.map Level.depth = [1, 1] ∧ m.stack.Nodup ∧
    m.stack.length ≤ 1 + Sample.nestedEnv.openable.ncard ∧
    ∀ l ∈ m.levels, l.depth ≤ maxExpansionDepth := by
  have hshape : (Sample.nestedEnv.after 9 (.ongoing (Sample.nestedEnv.firstMoment "main"
      Sample.nestedSource))).moment?.map (fun m => (m.stack, m.levels.map Level.depth)) =
      some ([("b" : Text), ("main" : Text)], [1, 1]) := by decide +kernel
  obtain ⟨m, hmoment, heq⟩ := Option.map_eq_some_iff.1 hshape
  obtain ⟨hstack, hdepths⟩ := Prod.mk.inj heq
  have hafter := Progress.moment?_eq_some.1 hmoment
  exact ⟨m, hafter, hstack, hdepths, (Sample.nestedEnv.parse_ends _ _).1 9 m hafter⟩

end CellAsm
