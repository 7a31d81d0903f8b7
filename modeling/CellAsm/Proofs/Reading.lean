-- SUMMARY: What reading a line can do, and the properties that reading a program keeps.
import CellAsm.Proofs.Guards
import CellAsm.Proofs.Lexing

/-!
# Reading keeps invariants

Reading is mutually recursive over files, lines and expanded templates. A line is
read in two parts: it is taken as far as it goes on its own, and then what it asks
for is read. `LineTaken` says once what the first part can do. A property that
holds of what has been gathered at the start, and that each of these steps keeps,
holds at the end.
-/
namespace CellAsm

namespace SourceState

@[simp] theorem attempt_eq_ok {α : Type} {s : SourceState} {r : Except Failure α} {a : α} :
    s.attempt r = .ok a ↔ r = .ok a :=
  mapError_eq_ok

@[simp] theorem attempt_ok {α : Type} (s : SourceState) (a : α) : s.attempt (.ok a) = .ok a := rfl

@[simp] theorem stop_ne_ok {α : Type} {s : SourceState} {f : Failure} {a : α} :
    s.stop f ≠ .ok a := by
  simp [stop]

theorem endOfFile_eq_ok {s s' : SourceState} {error : Option Diagnostic}
    (h : s.endOfFile error = .ok s') : error = none ∧ s.defining = none ∧ s' = s := by
  unfold endOfFile at h
  split at h
  · exact absurd h stop_ne_ok
  · split at h
    · exact absurd h stop_ne_ok
    · rename_i hdefining
      cases h
      exact ⟨rfl, hdefining, rfl⟩

end SourceState

/-- What has to be read before a line is done. -/
inductive Demand
  | nothing
  | file (name : Text) (source : SourceLines)
  | expansion (lines : List Line)
deriving DecidableEq

namespace SourceEnv

/-! ## One line -/

/-- Reads a line as far as nothing else has to be read for it. -/
def takeLine (env : SourceEnv) (file : Text) (outer : List Text) (depth : Nat) (line : Line)
    (s : SourceState) : Except Stop (SourceState × Demand) := do
  s.attempt (SourceState.checkLegal line)
  let s := s.addLabels line
  match line.dropWhile (·.kind == .label) with
  | [] => return (s, .nothing)
  | head :: rest =>
    match SourceState.equLine? head rest with
    | some (keyword, value) =>
      return (← s.attempt (s.defineEqu env.machine keyword head value), .nothing)
    | none =>
      if head.kind = .inclusion then
        match SourceState.fileName? rest with
        | none => s.stop (.blame head (.fileNameMissing head.contents))
        | some t =>
          let name := Path.relativeTo file t.contents
          if name ∈ file :: outer then s.stop (.blame t (.cyclicInclude name))
          else match env.library with
            | none => s.stop (.blame t .includeUnavailable)
            | some lib =>
              match lib.read name with
              | .error reason => s.stop (.blame t (.unreadable "include" name reason))
              | .ok contents =>
                return ({ s with log := s.log ++ [.included name file] },
                  .file name (env.linesOf name contents))
      else if head.kind = .identifier then
        match s.templates.find? head.contents with
        | some t =>
          if maxExpansionDepth ≤ depth then
            s.stop (.blame head (.expansionTooDeep t.name.contents))
          else return (s, .expansion (← s.attempt (SourceState.expansion t head rest)))
        | none => return (← s.attempt (s.plainLine env.machine head rest), .nothing)
      else return (← s.attempt (s.plainLine env.machine head rest), .nothing)

/-- Reads what a line at some depth asks for. -/
def fulfil (env : SourceEnv) (file : Text) (outer : List Text) (depth : Nat) :
    SourceState × Demand → Except Stop SourceState
  | (s, .nothing) => .ok s
  | (s, .file name source) => do
    let s ← env.readLines (name :: file :: outer) source.lines s
    s.endOfFile source.error
  | (s, .expansion lines) => env.readExpansion (file :: outer) (depth + 1) lines s

/-- A line is read by taking it and then reading what it asks for. -/
theorem readLine_eq (env : SourceEnv) (file : Text) (outer : List Text) (depth : Nat) (line : Line)
    (s : SourceState) : env.readLine (file :: outer) depth line s =
      env.takeLine file outer depth line s >>= env.fulfil file outer depth := by
  rw [readLine, takeLine, bind_assoc]
  congr 1
  funext _
  rw [SourceState.takeLabels_eq, SourceState.attempt_ok, ok_bind]
  cases line.dropWhile (·.kind == .label) with
  | nil => rfl
  | cons head rest =>
    dsimp only
    rw [if_neg (by simp), Strict.get_cons_zero, SourceState.attempt_ok, ok_bind,
      Strict.suffix_cons_one, SourceState.attempt_ok, ok_bind]
    obtain ⟨assigns, hassigns, hiff⟩ := SourceState.startsWith_equ rest
    rw [hassigns, SourceState.attempt_ok, ok_bind]
    cases hequ : SourceState.equLine? head rest with
    | some definition =>
      obtain ⟨keyword, value⟩ := definition
      rw [if_pos ((hiff head).2 (by rw [hequ]; rfl)), SourceState.equBetween_eq hequ]
      dsimp only
      rw [bind_assoc]
      exact (bind_pure _).symm
    | none =>
      rw [if_neg (fun h => by simpa [hequ] using (hiff head).1 h)]
      dsimp only
      split
      · rw [SourceState.soleOf_string, SourceState.attempt_ok, ok_bind]
        cases SourceState.fileName? rest with
        | none => rfl
        | some t =>
          dsimp only
          rw [Strict.get_cons_zero, SourceState.attempt_ok, ok_bind]
          split
          · rfl
          · split
            · rename_i hlib
              simp only [hlib]
              rfl
            · rename_i lib hlib
              split
              · rename_i reason hread
                simp only [hlib, hread]
                rfl
              · rename_i contents hread
                simp only [hlib, hread, scanLines_eq, SourceState.attempt_ok, ok_bind]
                rfl
      · split
        · cases (s.addLabels line).templates.find? head.contents with
          | none =>
            dsimp only
            rw [bind_assoc]
            exact (bind_pure _).symm
          | some t =>
            dsimp only
            split
            · rfl
            · rw [bind_assoc]
              rfl
        · rw [bind_assoc]
          exact (bind_pure _).symm

theorem readLines_of_defining {env : SourceEnv} {files : List Text} {line : Line}
    {rest : List Line} {s : SourceState} {t : Template} (h : s.defining = some t) :
    env.readLines files (line :: rest) s =
      s.attempt (s.collect t line) >>= env.readLines files rest := by
  rw [readLines, h, SourceState.collectOpen, h]
  rfl

theorem readLines_of_closed {env : SourceEnv} {files : List Text} {line : Line}
    {rest : List Line} {s : SourceState} (h : s.defining = none) :
    env.readLines files (line :: rest) s =
      env.readLine files 0 line s >>= env.readLines files rest := by
  rw [readLines, h]
  rfl

/-- A program is read from its lines, and closed and checked at its end. -/
theorem parse_eq (env : SourceEnv) (name contents : Text) : env.parse name contents = (do
    let s ← env.readLines [Path.clean name] (env.linesOf name contents).lines {}
    let s ← s.endOfFile (env.linesOf name contents).error
    s.closeLabels.attempt (s.closeLabels.checkSymbols env.machine)
    return s.closeLabels) := by
  simp only [parse, scanLines_eq, SourceState.close_eq, SourceState.attempt_ok, ok_bind]

/-- What taking a line at some depth makes of what has been gathered, and what the
line asks for. -/
inductive LineTaken (env : SourceEnv) (file : Text) (outer : List Text) (depth : Nat) (line : Line)
    (s : SourceState) : SourceState → Demand → Prop
  | labels (hline : line.dropWhile (·.kind == .label) = []) :
      LineTaken env file outer depth line s (s.addLabels line) .nothing
  | equ {head keyword : Token} {rest value : List Token} {s' : SourceState}
      (hline : line.dropWhile (·.kind == .label) = head :: rest)
      (hequ : SourceState.equLine? head rest = some (keyword, value))
      (hdefine : (s.addLabels line).defineEqu env.machine keyword head value = .ok s') :
      LineTaken env file outer depth line s s' .nothing
  | included {head t : Token} {rest : List Token} {lib : Library} {contents : Text}
      (hline : line.dropWhile (·.kind == .label) = head :: rest)
      (hequ : SourceState.equLine? head rest = none)
      (hkind : head.kind = .inclusion)
      (hfile : SourceState.fileName? rest = some t)
      (hnew : Path.relativeTo file t.contents ∉ file :: outer)
      (hlib : env.library = some lib)
      (hread : lib.read (Path.relativeTo file t.contents) = .ok contents) :
      LineTaken env file outer depth line s
        { s.addLabels line with
          log := (s.addLabels line).log ++ [.included (Path.relativeTo file t.contents) file] }
        (.file (Path.relativeTo file t.contents)
          (env.linesOf (Path.relativeTo file t.contents) contents))
  | expanded {head : Token} {rest : List Token} {t : Template} {lines : List Line}
      (hline : line.dropWhile (·.kind == .label) = head :: rest)
      (hequ : SourceState.equLine? head rest = none)
      (hkind : head.kind = .identifier)
      (htemplate : s.templates.find? head.contents = some t)
      (hdepth : depth < maxExpansionDepth)
      (hexpansion : SourceState.expansion t head rest = .ok lines) :
      LineTaken env file outer depth line s (s.addLabels line) (.expansion lines)
  | plain {head : Token} {rest : List Token} {s' : SourceState}
      (hline : line.dropWhile (·.kind == .label) = head :: rest)
      (hequ : SourceState.equLine? head rest = none)
      (hkind : head.kind ≠ .inclusion)
      (htemplate : head.kind = .identifier → s.templates.find? head.contents = none)
      (hplain : (s.addLabels line).plainLine env.machine head rest = .ok s') :
      LineTaken env file outer depth line s s' .nothing

variable {env : SourceEnv} {file : Text} {outer : List Text} {depth : Nat} {line : Line}
  {s s' : SourceState} {demand : Demand}

theorem lineTaken_of_takeLine (h : env.takeLine file outer depth line s = .ok (s', demand)) :
    SourceState.checkLegal line = .ok () ∧ LineTaken env file outer depth line s s' demand := by
  simp only [takeLine, bind_eq_ok, SourceState.attempt_eq_ok] at h
  obtain ⟨_, hlegal, h⟩ := h
  refine ⟨hlegal, ?_⟩
  split at h
  · rename_i hline
    cases h
    exact .labels hline
  · rename_i head rest hline
    split at h
    · rename_i keyword value hequ
      simp only [bind_eq_ok, SourceState.attempt_eq_ok, pure_eq_ok] at h
      obtain ⟨_, hdefine, h⟩ := h
      cases h
      exact .equ hline hequ hdefine
    · rename_i hequ
      split at h
      · rename_i hkind
        split at h
        · exact absurd h SourceState.stop_ne_ok
        · rename_i t hfile
          split at h
          · exact absurd h SourceState.stop_ne_ok
          · rename_i hnew
            split at h
            · exact absurd h SourceState.stop_ne_ok
            · rename_i lib hlib
              split at h
              · exact absurd h SourceState.stop_ne_ok
              · rename_i contents hread
                cases h
                exact .included hline hequ hkind hfile hnew hlib hread
      · rename_i hinclusion
        split at h
        · rename_i hkind
          split at h
          · rename_i t htemplate
            split at h
            · exact absurd h SourceState.stop_ne_ok
            · rename_i hdepth
              simp only [bind_eq_ok, SourceState.attempt_eq_ok, pure_eq_ok] at h
              obtain ⟨lines, hexpansion, h⟩ := h
              cases h
              exact .expanded hline hequ hkind htemplate (Nat.lt_of_not_le hdepth) hexpansion
          · rename_i htemplate
            simp only [bind_eq_ok, SourceState.attempt_eq_ok, pure_eq_ok] at h
            obtain ⟨_, hplain, h⟩ := h
            cases h
            exact .plain hline hequ hinclusion (fun _ => htemplate) hplain
        · rename_i hkind
          simp only [bind_eq_ok, SourceState.attempt_eq_ok, pure_eq_ok] at h
          obtain ⟨_, hplain, h⟩ := h
          cases h
          exact .plain hline hequ hinclusion (fun hk => absurd hk hkind) hplain

theorem takeLine_of_lineTaken (hlegal : SourceState.checkLegal line = .ok ())
    (h : LineTaken env file outer depth line s s' demand) :
    env.takeLine file outer depth line s = .ok (s', demand) := by
  simp only [takeLine, bind_eq_ok, SourceState.attempt_eq_ok]
  refine ⟨(), hlegal, ?_⟩
  cases h with
  | labels hline =>
    rw [hline]
    rfl
  | equ hline hequ hdefine =>
    simp only [hline, hequ, hdefine]
    rfl
  | included hline hequ hkind hfile hnew hlib hread =>
    simp only [hline, hequ, hkind, hfile, if_neg hnew, hlib, hread]
    rfl
  | expanded hline hequ hkind htemplate hdepth hexpansion =>
    have htemplate : (s.addLabels line).templates.find? _ = _ := htemplate
    simp only [hline, hequ, hkind, htemplate, Nat.not_le_of_lt hdepth, hexpansion]
    rfl
  | plain hline hequ hkind htemplate hplain =>
    simp only [hline, hequ, if_neg hkind]
    split
    · rename_i hname
      have htemplate : (s.addLabels line).templates.find? _ = _ := htemplate hname
      simp only [htemplate, hplain]
      rfl
    · rw [hplain]
      rfl

/-! ## Induction on reading -/

/-- What three properties have to satisfy to hold of all files, lines and expansions: each
holds where it holds of everything that is read in turn. -/
structure ReadingCases (env : SourceEnv)
    (ofFile : Text → List Text → List Line → SourceState → Prop)
    (ofLine : Text → List Text → Nat → Line → SourceState → Prop)
    (ofExpansion : Text → List Text → Nat → List Line → SourceState → Prop) : Prop where
  ended (file : Text) (outer : List Text) (s : SourceState) : ofFile file outer [] s
  collected (file : Text) (outer : List Text) (line : Line) (rest : List Line) (s : SourceState)
    (t : Template) : s.defining = some t → (∀ s', ofFile file outer rest s') →
    ofFile file outer (line :: rest) s
  read (file : Text) (outer : List Text) (line : Line) (rest : List Line) (s : SourceState) :
    s.defining = none → ofLine file outer 0 line s → (∀ s', ofFile file outer rest s') →
    ofFile file outer (line :: rest) s
  line (file : Text) (outer : List Text) (depth : Nat) (line : Line) (s : SourceState) :
    (∀ t : Token, Path.relativeTo file t.contents ∉ file :: outer →
      ∀ lib, env.library = some lib →
      ∀ contents, lib.read (Path.relativeTo file t.contents) = .ok contents →
      ofFile (Path.relativeTo file t.contents) (file :: outer)
        (env.linesOf (Path.relativeTo file t.contents) contents).lines
        { s.addLabels line with
          log := (s.addLabels line).log ++ [.included (Path.relativeTo file t.contents) file] }) →
    (¬maxExpansionDepth ≤ depth →
      ∀ lines, ofExpansion file outer (depth + 1) lines (s.addLabels line)) →
    ofLine file outer depth line s
  left (file : Text) (outer : List Text) (depth : Nat) (s : SourceState) :
    ofExpansion file outer depth [] s
  expanded (file : Text) (outer : List Text) (depth : Nat) (line : Line) (rest : List Line)
    (s : SourceState) : ofLine file outer depth line s →
    (∀ s', ofExpansion file outer depth rest s') → ofExpansion file outer depth (line :: rest) s

namespace ReadingCases

variable {env : SourceEnv} {ofFile : Text → List Text → List Line → SourceState → Prop}
  {ofLine : Text → List Text → Nat → Line → SourceState → Prop}
  {ofExpansion : Text → List Text → Nat → List Line → SourceState → Prop}

mutual

theorem file_induct (h : ReadingCases env ofFile ofLine ofExpansion) (file : Text)
    (outer : List Text) (lines : List Line) (s : SourceState) : ofFile file outer lines s :=
  match lines with
  | [] => h.ended file outer s
  | line :: rest =>
    match hdefining : s.defining with
    | some t => h.collected file outer line rest s t hdefining (h.file_induct file outer rest)
    | none =>
      h.read file outer line rest s hdefining (h.line_induct file outer 0 line s)
        (h.file_induct file outer rest)
termination_by (env.unopened (file :: outer), maxExpansionDepth + 2, lines.length)

theorem line_induct (h : ReadingCases env ofFile ofLine ofExpansion) (file : Text)
    (outer : List Text) (depth : Nat) (line : Line) (s : SourceState) :
    ofLine file outer depth line s :=
  h.line file outer depth line s
    (fun _ _hnew _ _hlib _ _hread => h.file_induct _ (file :: outer) _ _)
    (fun _hdepth lines => h.expansion_induct file outer (depth + 1) lines (s.addLabels line))
termination_by (env.unopened (file :: outer), maxExpansionDepth + 1 - depth, 0)
decreasing_by
  · exact Prod.Lex.left _ _ (unopened_cons_lt _hlib _hread _hnew)
  · apply Prod.Lex.right
    apply Prod.Lex.left
    omega

theorem expansion_induct (h : ReadingCases env ofFile ofLine ofExpansion) (file : Text)
    (outer : List Text) (depth : Nat) (lines : List Line) (s : SourceState) :
    ofExpansion file outer depth lines s :=
  match lines with
  | [] => h.left file outer depth s
  | line :: rest =>
    h.expanded file outer depth line rest s (h.line_induct file outer depth line s)
      (h.expansion_induct file outer depth rest)
termination_by (env.unopened (file :: outer), maxExpansionDepth + 1 - depth, lines.length + 1)

end

theorem all (h : ReadingCases env ofFile ofLine ofExpansion) :
    (∀ file outer lines s, ofFile file outer lines s) ∧
    (∀ file outer depth line s, ofLine file outer depth line s) ∧
    ∀ file outer depth lines s, ofExpansion file outer depth lines s :=
  ⟨h.file_induct, h.line_induct, h.expansion_induct⟩

end ReadingCases

/-! ## Whole programs -/

/-- A property `P` of what has been gathered that every step of reading keeps, as
long as every token of the lines has the property `T`. -/
structure Invariant (env : SourceEnv) (T : Token → Prop) (P : SourceState → Prop) : Prop where
  scanned {file contents : Text} {line : Line} :
    line ∈ (env.linesOf file contents).lines → ∀ t ∈ line, T t
  labels {s : SourceState} {line : Line} : (∀ t ∈ line, T t) → P s → P (s.addLabels line)
  record {s : SourceState} (r : Record) : P s → P { s with log := s.log ++ [r] }
  collect {s s' : SourceState} {t : Template} {line : Line} :
    (∀ t ∈ line, T t) → P s → s.defining = some t → s.collect t line = .ok s' → P s'
  equ {s s' : SourceState} {keyword name : Token} {rest : List Token} :
    (∀ t ∈ rest, T t) → P s → s.defineEqu env.machine keyword name rest = .ok s' → P s'
  plain {s s' : SourceState} {head : Token} {rest : List Token} :
    (∀ t ∈ rest, T t) → P s → s.plainLine env.machine head rest = .ok s' → P s'
  expansion {s : SourceState} {head : Token} {rest : List Token} {t : Template}
      {lines : List Line} :
    (∀ t ∈ rest, T t) → P s → s.templates.find? head.contents = some t →
      SourceState.expansion t head rest = .ok lines → ∀ line ∈ lines, ∀ t ∈ line, T t

theorem mem_of_equLine? {head keyword : Token} {rest value : List Token}
    (h : SourceState.equLine? head rest = some (keyword, value)) : ∀ t ∈ value, t ∈ rest := by
  unfold SourceState.equLine? at h
  split at h
  · split at h
    · cases h
      intro t ht
      exact List.mem_cons_of_mem _ ht
    · cases h
  · cases h

namespace Invariant

variable {env : SourceEnv} {T : Token → Prop} {P : SourceState → Prop}

/-- Reading a line keeps an invariant, if files and expansions do. -/
theorem readLine (hinv : Invariant env T P) {file : Text} {outer : List Text} {depth : Nat}
    {line : Line} {s s' : SourceState} (hline : ∀ t ∈ line, T t) (hP : P s)
    (hfiles : ∀ {t : Token} {lib : Library} {contents : Text} {s' : SourceState},
      Path.relativeTo file t.contents ∉ file :: outer → env.library = some lib →
      lib.read (Path.relativeTo file t.contents) = .ok contents →
      env.readLines (Path.relativeTo file t.contents :: file :: outer)
        (env.linesOf (Path.relativeTo file t.contents) contents).lines
        { s.addLabels line with
          log := (s.addLabels line).log ++ [.included (Path.relativeTo file t.contents) file] }
        = .ok s' → P s')
    (hexpansions : ∀ {lines : List Line} {s' : SourceState}, depth < maxExpansionDepth →
      (∀ l ∈ lines, ∀ t ∈ l, T t) →
      env.readExpansion (file :: outer) (depth + 1) lines (s.addLabels line) = .ok s' → P s')
    (h : env.readLine (file :: outer) depth line s = .ok s') : P s' := by
  have hlabels : P (s.addLabels line) := hinv.labels hline hP
  have hrest {head : Token} {rest : List Token}
      (hdrop : line.dropWhile (·.kind == .label) = head :: rest) : ∀ t ∈ rest, T t := by
    intro t ht
    have hmem : t ∈ line.dropWhile (·.kind == .label) := by
      rw [hdrop]
      exact List.mem_cons_of_mem _ ht
    exact hline t ((List.dropWhile_sublist _).mem hmem)
  rw [readLine_eq, bind_eq_ok] at h
  obtain ⟨⟨taken, demand⟩, htake, hfulfil⟩ := h
  cases (lineTaken_of_takeLine htake).2 with
  | labels _ =>
    cases hfulfil
    exact hlabels
  | equ hdrop hequ hdefine =>
    cases hfulfil
    exact hinv.equ (fun t ht => hrest hdrop t (mem_of_equLine? hequ t ht)) hlabels hdefine
  | included _ _ _ _ hnew hlib hread =>
    simp only [fulfil, bind_eq_ok] at hfulfil
    obtain ⟨_, hlines, hend⟩ := hfulfil
    obtain ⟨_, _, rfl⟩ := SourceState.endOfFile_eq_ok hend
    exact hfiles hnew hlib hread hlines
  | expanded hdrop _ _ htemplate hdepth hexpansion =>
    exact hexpansions hdepth (hinv.expansion (hrest hdrop) hlabels htemplate hexpansion) hfulfil
  | plain hdrop _ _ _ hplain =>
    cases hfulfil
    exact hinv.plain (hrest hdrop) hlabels hplain

/-- Reading the lines of a file keeps an invariant. -/
theorem readLines (hinv : Invariant env T P) {file : Text} {outer : List Text} {lines : List Line}
    {s s' : SourceState} (hlines : ∀ l ∈ lines, ∀ t ∈ l, T t) (hP : P s)
    (h : env.readLines (file :: outer) lines s = .ok s') : P s' := by
  have hcases : ReadingCases env
      (fun file outer lines s => (∀ l ∈ lines, ∀ t ∈ l, T t) → P s →
        ∀ s', env.readLines (file :: outer) lines s = .ok s' → P s')
      (fun file outer depth line s => (∀ t ∈ line, T t) → P s →
        ∀ s', env.readLine (file :: outer) depth line s = .ok s' → P s')
      (fun file outer depth lines s => (∀ l ∈ lines, ∀ t ∈ l, T t) → P s →
        ∀ s', env.readExpansion (file :: outer) depth lines s = .ok s' → P s') := by
    constructor
    case ended =>
      intro file outer s _ hP s' h
      rw [SourceEnv.readLines] at h
      cases h
      exact hP
    case collected =>
      intro file outer line rest s t hdefining ih hlines hP s' h
      rw [readLines_of_defining hdefining] at h
      simp only [bind_eq_ok, SourceState.attempt_eq_ok] at h
      obtain ⟨s₁, hcollect, hrest⟩ := h
      rw [List.forall_mem_cons] at hlines
      exact ih s₁ hlines.2 (hinv.collect hlines.1 hP hdefining hcollect) s' hrest
    case read =>
      intro file outer line rest s hdefining ihLine ihRest hlines hP s' h
      rw [readLines_of_closed hdefining, bind_eq_ok] at h
      obtain ⟨s₁, hline, hrest⟩ := h
      rw [List.forall_mem_cons] at hlines
      exact ihRest s₁ hlines.2 (ihLine hlines.1 hP s₁ hline) s' hrest
    case line =>
      intro file outer depth line s ihFile ihExpansion hline hP s' h
      have hlabels : P (s.addLabels line) := hinv.labels hline hP
      refine hinv.readLine hline hP ?_ ?_ h
      · intro t lib contents s' hnew hlib hread hfile
        exact ihFile t hnew lib hlib contents hread (fun l hl => hinv.scanned hl)
          (hinv.record _ hlabels) s' hfile
      · intro lines s' hdepth htokens hread
        exact ihExpansion (Nat.not_le_of_lt hdepth) lines htokens hlabels s' hread
    case left =>
      intro file outer depth s _ hP s' h
      rw [SourceEnv.readExpansion] at h
      cases h
      exact hP
    case expanded =>
      intro file outer depth line rest s ihLine ihRest hlines hP s' h
      rw [SourceEnv.readExpansion, bind_eq_ok] at h
      obtain ⟨s₁, hline, hrest⟩ := h
      rw [List.forall_mem_cons] at hlines
      exact ihRest s₁ hlines.2 (ihLine hlines.1 hP s₁ hline) s' hrest
  exact hcases.file_induct file outer lines s hlines hP s' h

/-- What a program is read into: what the lines left behind, with the last labels
put on a statement of their own, and all names checked. -/
theorem parse (hinv : Invariant env T P) (hstart : P {}) {name contents : Text} {s : SourceState}
    (h : env.parse name contents = .ok s) :
    ∃ gathered, P gathered ∧ s = gathered.closeLabels ∧ s.checkSymbols env.machine = .ok () := by
  rw [parse_eq] at h
  simp only [bind_eq_ok, SourceState.attempt_eq_ok, pure_eq_ok] at h
  obtain ⟨gathered, hread, ended, hend, _, hcheck, rfl⟩ := h
  obtain ⟨_, _, rfl⟩ := SourceState.endOfFile_eq_ok hend
  exact ⟨ended, hinv.readLines (fun l hl => hinv.scanned hl) hstart hread, rfl, hcheck⟩

end Invariant

end SourceEnv

end CellAsm
