-- SUMMARY: A line that includes a file means the lines of the file, written in its place.
import CellAsm.Proofs.Expansion
import CellAsm.Proofs.Positions.Passes

/-!
# Included files

The file that is being read, and those it was reached through, only matter to a line
that includes another file. Where no such line is reached, lines are read in the same
way in every file. So a line that includes a file may be replaced by the lines of that
file, unless they, or the templates they call, include files in turn.
-/
namespace CellAsm

/-! ## One text above another -/

namespace SourceLines

theorem Same.symm {a b : SourceLines} (h : a.Same b) : b.Same a :=
  ⟨h.lines.symm, h.error.symm⟩

theorem Same.append_left {a b : SourceLines} (upper : SourceLines) (h : a.Same b) :
    (upper.append a).Same (upper.append b) := by
  refine ⟨?_, h.error⟩
  rw [append, append, List.map_append, List.map_append, h.lines]

variable {p : Punctuation} {file upper : Text}

/-- Apart from positions, the lower text has the lines that it has on its own. -/
theorem same_above (h : (ofText p file upper).error = none) (lower : Text) :
    (ofText p file (upper.above lower)).Same
      ((ofText p file upper).append (ofText p file lower)) := by
  rcases joins_ofText p file upper lower with ⟨_, hboth⟩ | ⟨herror, _⟩
  · rw [hboth]
    exact (same_ofText p file file lower _).symm.append_left _
  · rw [h] at herror
    cases herror

theorem error_above (h : (ofText p file upper).error.isSome) (lower : Text) :
    (ofText p file (upper.above lower)).error.isSome := by
  rcases joins_ofText p file upper lower with ⟨herror, _⟩ | ⟨_, herror⟩
  · rw [herror] at h
    cases h
  · exact herror

end SourceLines

/-! ## Legal tokens -/

theorem Lexicon.lexeme_legal (lx : Lexicon) (g : Glyph) (rest : List Glyph) :
    (lx.lexeme g rest).kind ≠ .illegal → (lx.lexeme g rest).legal := by
  apply lx.lexeme_cases (P := fun x => x.kind ≠ .illegal → x.legal)
  · exact fun _ _ _ => rfl
  · intro _
    unfold stringLexeme
    dsimp only
    split
    · exact fun _ => rfl
    · exact fun _ => rfl
    · exact fun h => absurd rfl h
  · intro _
    unfold directiveLexeme
    dsimp only
    split
    · exact fun _ => rfl
    · exact fun h => absurd rfl h
  · exact fun _ => rfl
  · unfold nameLexeme
    dsimp only
    split
    · exact fun _ => rfl
    · exact fun _ => rfl
  · exact fun h => absurd rfl h

theorem Lexicon.scan_legal (lx : Lexicon) (file : Text) (c : Cursor) :
    ∀ s ∈ lx.scan file c, s.token.kind ≠ .illegal → s.token.legal := by
  have hnext (c : Cursor) : (lx.next file c).token.kind ≠ .illegal →
      (lx.next file c).token.legal := by
    unfold next
    dsimp only
    split
    · exact fun _ => rfl
    · exact lx.lexeme_legal _ _
  fun_induction scan lx file c with
  | case1 c _ => exact List.forall_mem_singleton.2 (hnext c)
  | case2 c _ ih => exact List.forall_mem_cons.2 ⟨hnext c, ih⟩

namespace SourceEnv

open SourceState (Same attempt_same endOfFile_same)

variable {env : SourceEnv} {file : Text} {outer : List Text} {depth : Nat} {line : Line}
  {lines : List Line} {s s' : SourceState}

theorem legal_of_mem_linesOf (env : SourceEnv) (file contents : Text) :
    ∀ l ∈ (env.linesOf file contents).lines, ∀ t ∈ l, t.kind ≠ .illegal → t.legal :=
  SourceLines.forall_mem_ofScans (fun x hx _ => Lexicon.scan_legal _ file _ x hx)
    (List.forall_mem_nil _)

/-! ## Lines in another file -/

/-- The lines that are read when `lines` are read in a file: those outside of
definitions, and the lines of the templates they call. -/
inductive Reaches (env : SourceEnv) (file : Text) (outer : List Text) :
    List Line → SourceState → Line → Prop
  | line {l l' : Line} {rest : List Line} {s : SourceState} (hclosed : s.defining = none)
      (h : env.Expands file outer 0 [l] s l') : Reaches env file outer (l :: rest) s l'
  | next {l l' : Line} {rest : List Line} {s s' : SourceState}
      (hread : env.readLines (file :: outer) [l] s = .ok s') (h : Reaches env file outer rest s' l') :
      Reaches env file outer (l :: rest) s l'

theorem takeLine_elsewhere (h : line.keyword? ≠ some .inclusion) (file' : Text)
    (outer' : List Text) :
    env.takeLine file' outer' depth line s = env.takeLine file outer depth line s := by
  unfold takeLine
  cases hline : line.dropWhile (·.kind == .label) with
  | nil => rfl
  | cons head rest =>
    have hkind : head.kind ≠ .inclusion := by
      intro hkind
      rw [Line.keyword?_eq hline, hkind] at h
      exact h rfl
    simp only [if_neg hkind]

theorem readLines_singleton (env : SourceEnv) (file : Text) (outer : List Text) (line : Line)
    (hclosed : s.defining = none) :
    env.readLines (file :: outer) [line] s = env.readLine (file :: outer) 0 line s := by
  have hnil : env.readLines (file :: outer) [] = pure := by
    funext s
    rw [readLines]
    rfl
  rw [readLines_of_closed hclosed, hnil, bind_pure]

/-- Lines that include nothing are read in the same way in every file. -/
theorem reading_elsewhere (env : SourceEnv) :
    (∀ file outer lines s,
      (∀ l, env.Reaches file outer lines s l → l.keyword? ≠ some .inclusion) →
      ∀ file' outer', env.readLines (file' :: outer') lines s = env.readLines (file :: outer) lines s) ∧
    (∀ file outer depth line s,
      (∀ l, env.Expands file outer depth [line] s l → l.keyword? ≠ some .inclusion) →
      ∀ file' outer', env.readLine (file' :: outer') depth line s =
        env.readLine (file :: outer) depth line s) ∧
    ∀ file outer depth lines s,
      (∀ l, env.Expands file outer depth lines s l → l.keyword? ≠ some .inclusion) →
      ∀ file' outer', env.readExpansion (file' :: outer') depth lines s =
        env.readExpansion (file :: outer) depth lines s := by
  -- the other file is quantified behind the lines that are reached: they are those of this one
  apply @ReadingCases.all env
  constructor
  case ended =>
    intro file outer s _ file' outer'
    rw [readLines, readLines]
  case collected =>
    intro file outer line rest s t hdefining ih hplain file' outer'
    have hfirst {s₁ : SourceState} (h : s.attempt (s.collect t line) = .ok s₁) :
        env.readLines (file :: outer) [line] s = .ok s₁ := by
      rw [readLines_of_defining hdefining, h, ok_bind, readLines]
    rw [readLines_of_defining hdefining, readLines_of_defining hdefining]
    cases hcollect : s.attempt (s.collect t line) with
    | error e => rfl
    | ok s₁ => exact ih s₁ (fun l hl => hplain l (.next (hfirst hcollect) hl)) file' outer'
  case read =>
    intro file outer line rest s hdefining ihLine ihRest hplain file' outer'
    have hfirst := env.readLines_singleton file outer line hdefining
    rw [readLines_of_closed hdefining, readLines_of_closed hdefining,
      ihLine (fun l hl => hplain l (.line hdefining hl)) file' outer']
    cases hread : env.readLine (file :: outer) 0 line s with
    | error e => rfl
    | ok s₁ => exact ihRest s₁ (fun l hl => hplain l (.next (hfirst.trans hread) hl)) file' outer'
  case line =>
    intro file outer depth line s _ ihExpansion hplain file' outer'
    have hkeyword := hplain line .line
    rw [readLine_eq, readLine_eq, takeLine_elsewhere hkeyword file' outer']
    cases htake : env.takeLine file outer depth line s with
    | error e => rfl
    | ok taken =>
      obtain ⟨taken, demand⟩ := taken
      cases (lineTaken_of_takeLine htake).2 with
      | labels => rfl
      | equ => rfl
      | plain => rfl
      | included hline _ hkind =>
        rw [Line.keyword?_eq hline, hkind] at hkeyword
        exact absurd rfl hkeyword
      | expanded _ _ _ _ hdepth _ =>
        exact ihExpansion (Nat.not_le_of_lt hdepth) _ (fun l hl => hplain l (.call htake hl))
          file' outer'
  case left =>
    intro file outer depth s _ file' outer'
    rw [readExpansion, readExpansion]
  case expanded =>
    intro file outer depth line rest s ihLine ihRest hplain file' outer'
    rw [readExpansion, readExpansion, ihLine (fun l hl => hplain l hl.append_right) file' outer']
    cases hread : env.readLine (file :: outer) depth line s with
    | error e => rfl
    | ok s₁ => exact ihRest s₁ (fun l hl => hplain l (.next hread hl)) file' outer'

/-! ## Whole files -/

/-- Reads the lines of a file and its end. -/
def readSource (env : SourceEnv) (file : Text) (outer : List Text) (source : SourceLines)
    (s : SourceState) : Except Stop SourceState := do
  let s ← env.readLines (file :: outer) source.lines s
  s.endOfFile source.error

theorem readSource_same {source source' : SourceLines} (hsource : source.Same source')
    (hs : s.Same s') :
    Corresponds Same (env.readSource file outer source s) (env.readSource file outer source' s') := by
  have hlines := env.reading_same.1 file outer source.lines s source'.lines s' hsource.lines hs
  exact hlines.bind fun _ _ _ _ hs => endOfFile_same hs hsource.error

/-- A file with a lexical error is not read to its end. -/
theorem readSource_of_error (env : SourceEnv) (file : Text) (outer : List Text) (s : SourceState)
    {source : SourceLines} (h : source.error.isSome) :
    ∃ stop, env.readSource file outer source s = .error stop := by
  obtain ⟨d, hd⟩ := Option.isSome_iff_exists.1 h
  unfold readSource
  cases env.readLines (file :: outer) source.lines s with
  | error stop => exact ⟨stop, rfl⟩
  | ok s =>
    rw [hd]
    exact ⟨_, rfl⟩

theorem readLines_append (env : SourceEnv) (file : Text) (outer : List Text) (upper lower : List Line)
    (s : SourceState) : env.readLines (file :: outer) (upper ++ lower) s =
      env.readLines (file :: outer) upper s >>= env.readLines (file :: outer) lower := by
  induction upper generalizing s with
  | nil =>
    rw [readLines]
    rfl
  | cons line rest ih =>
    rw [List.cons_append]
    cases hdefining : s.defining with
    | some t =>
      rw [readLines_of_defining hdefining, readLines_of_defining hdefining, bind_assoc]
      exact bind_congr ih
    | none =>
      rw [readLines_of_closed hdefining, readLines_of_closed hdefining, bind_assoc]
      exact bind_congr ih

theorem readSource_append (env : SourceEnv) (file : Text) (outer : List Text)
    (upper lower : SourceLines) (s : SourceState) :
    env.readSource file outer (upper.append lower) s =
      env.readLines (file :: outer) upper.lines s >>= env.readSource file outer lower := by
  have hlines : (upper.append lower).lines = upper.lines ++ lower.lines := rfl
  rw [readSource, hlines, readLines_append, bind_assoc]
  rfl

/-- One text above another is read before it. -/
theorem readSource_above (file : Text) (outer : List Text) {name upper : Text}
    (h : (env.linesOf name upper).error = none) (lower : Text) (s : SourceState) :
    Corresponds Same (env.readSource file outer (env.linesOf name (upper.above lower)) s)
      (env.readLines (file :: outer) (env.linesOf name upper).lines s >>=
        env.readSource file outer (env.linesOf name lower)) := by
  rw [← readSource_append]
  exact readSource_same (SourceLines.same_above h lower) rfl

theorem readSource_above_of_error (file : Text) (outer : List Text) {name upper : Text}
    (h : (env.linesOf name upper).error.isSome) (lower : Text) (s : SourceState) :
    ∃ stop, env.readSource file outer (env.linesOf name (upper.above lower)) s = .error stop :=
  env.readSource_of_error file outer s (SourceLines.error_above h lower)

theorem parse_eq_readSource (env : SourceEnv) (name contents : Text) :
    env.parse name contents =
      env.readSource (Path.clean name) [] (env.linesOf name contents) {} >>= env.conclude :=
  env.parse_eq_conclude name contents

/-- A file that is included is read as its lines are in the file that includes it. -/
theorem readSource_elsewhere {source pasted : SourceLines} (hsource : source.Same pasted)
    (herror : pasted.error = none) (hs : s.Same s')
    (hplain : ∀ l, env.Reaches file outer pasted.lines s' l → l.keyword? ≠ some .inclusion)
    (hclosed : ∀ r, env.readLines (file :: outer) pasted.lines s' = .ok r → r.defining = none)
    (file' : Text) (outer' : List Text) :
    Corresponds Same (env.readSource file' outer' source s)
      (env.readLines (file :: outer) pasted.lines s') := by
  -- first the positions change and then the file, since only the pasted lines are known to
  -- include nothing
  have hlines := env.reading_same.1 file' outer' source.lines s pasted.lines s' hsource.lines hs
  rw [env.reading_elsewhere.1 file outer pasted.lines s' hplain] at hlines
  rw [← bind_pure (env.readLines (file :: outer) pasted.lines s')]
  refine hlines.bind ?_
  intro r r' _ hr' hsame
  have hend := endOfFile_same hsame hsource.error
  rw [herror, SourceState.endOfFile, hclosed r' hr'] at hend
  exact hend

/-- A line that includes a file that is not being read. -/
theorem readLines_include {keyword t : Token} {library : Library} {contents : Text}
    (hlegal : ∀ token ∈ [keyword, t], token.kind ≠ .illegal → token.legal)
    (hkeyword : keyword.kind = .inclusion) (hfile : t.kind = .string)
    (hnew : Path.relativeTo file t.contents ∉ file :: outer) (hlibrary : env.library = some library)
    (hread : library.read (Path.relativeTo file t.contents) = .ok contents)
    (hclosed : s.defining = none) : ∃ s', s'.Same s ∧ env.readLines (file :: outer) [[keyword, t]] s =
      env.readSource (Path.relativeTo file t.contents) (file :: outer)
        (env.linesOf (Path.relativeTo file t.contents) contents) s' := by
  have hlabel : ¬ (keyword.kind == .label) = true := by
    rw [hkeyword]
    decide
  have hline : [keyword, t].dropWhile (·.kind == .label) = keyword :: [t] := by
    rw [List.dropWhile_cons, if_neg hlabel]
  have hlabels : s.addLabels [keyword, t] = s := by
    rw [SourceState.addLabels, List.takeWhile_cons, if_neg hlabel, List.append_nil]
  have hequ : SourceState.equLine? keyword [t] = none := by
    simp [SourceState.equLine?, hkeyword]
  have hname : SourceState.fileName? [t] = some t := by
    simp [SourceState.fileName?, SourceState.sole?, hfile]
  have hlegal : SourceState.checkLegal [keyword, t] = .ok () := by
    simp only [List.forall_mem_cons, hkeyword, hfile] at hlegal
    simp [SourceState.checkLegal, hkeyword, hfile, hlegal.1, hlegal.2.1]
  refine ⟨{ s with log := s.log ++ [.included (Path.relativeTo file t.contents) file] }, ?_, ?_⟩
  · rfl
  · rw [env.readLines_singleton file outer _ hclosed, readLine_eq,
      takeLine_of_lineTaken hlegal (.included hline hequ hkeyword hname hnew hlibrary hread),
      ok_bind, hlabels]
    rfl

/-- Reads the lines of a text as part of the main file. -/
def readText (env : SourceEnv) (name text : Text) (s : SourceState) : Except Stop SourceState :=
  env.readLines [Path.clean name] (env.linesOf name text).lines s

section Pasting

variable {name line contents : Text} {keyword t : Token} {library : Library}
  (hline : env.linesOf name line = { lines := [[keyword, t]] })
  (hkeyword : keyword.kind = .inclusion) (hfile : t.kind = .string)
  (hlibrary : env.library = some library)

include hline hkeyword hfile hlibrary

theorem readSource_include (hnew : Path.relativeTo file t.contents ∉ file :: outer)
    (hread : library.read (Path.relativeTo file t.contents) = .ok contents)
    (hclosed : s.defining = none)
    (hpasted : ∀ r, env.readLines (file :: outer) (env.linesOf name contents).lines s = .ok r →
      r.defining = none)
    (hplain : ∀ l, env.Reaches file outer (env.linesOf name contents).lines s l →
      l.keyword? ≠ some .inclusion) (lower : Text) :
    Corresponds Same (env.readSource file outer (env.linesOf name (line.above lower)) s)
      (env.readSource file outer (env.linesOf name (contents.above lower)) s) := by
  have hended : (env.linesOf name line).error = none := by rw [hline]
  have hlegal := env.legal_of_mem_linesOf name line
  rw [hline] at hlegal
  obtain ⟨s', hs, hinclude⟩ := readLines_include (hlegal _ List.mem_cons_self) hkeyword hfile hnew
    hlibrary hread hclosed
  have hleft := readSource_above file outer hended lower s
  rw [hline, hinclude] at hleft
  have hsame : (env.linesOf (Path.relativeTo file t.contents) contents).Same
      (env.linesOf name contents) := SourceLines.same_ofText _ _ _ _ {}
  -- a lexical error in the included file is one in the pasted text, and nothing is read then
  rcases Option.eq_none_or_eq_some (env.linesOf name contents).error with herror | ⟨d, herror⟩
  · have hmiddle := (readSource_elsewhere hsame herror hs hplain hpasted
      (Path.relativeTo file t.contents) (file :: outer)).bind
      (g := env.readSource file outer (env.linesOf name lower))
      fun _ _ _ _ hs => readSource_same ⟨rfl, rfl⟩ hs
    have hright := readSource_above file outer herror lower s
    exact (hleft.trans hmiddle fun _ _ _ ha hb => ha.trans hb).join hright
      fun _ _ _ ha hb => ha.trans hb.symm
  · have herror := Option.isSome_of_eq_some herror
    obtain ⟨stop, hstop⟩ := env.readSource_of_error (Path.relativeTo file t.contents)
      (file :: outer) s' (hsame.error.trans herror)
    rw [hstop] at hleft
    have hright : Corresponds Same _ _ :=
      .of_error ⟨stop, rfl⟩ (readSource_above_of_error file outer herror lower s)
    exact hleft.trans hright fun _ _ _ ha hb => ha.trans hb

theorem parse_include {upper : Text}
    (hnew : Path.relativeTo (Path.clean name) t.contents ≠ Path.clean name)
    (hread : library.read (Path.relativeTo (Path.clean name) t.contents) = .ok contents)
    (hupper : ∀ s, env.readText name upper {} = .ok s → s.defining = none)
    (hpasted : ∀ s, env.readText name upper {} = .ok s →
      ∀ r, env.readText name contents s = .ok r → r.defining = none)
    (hplain : ∀ s, env.readText name upper {} = .ok s →
      ∀ l, env.Reaches (Path.clean name) [] (env.linesOf name contents).lines s l →
        l.keyword? ≠ some .inclusion) (lower : Text) :
    Corresponds Same (env.parse name (upper.above (line.above lower)))
      (env.parse name (upper.above (contents.above lower))) := by
  rw [parse_eq_readSource, parse_eq_readSource]
  refine Corresponds.bind ?_ fun _ _ _ _ hs => env.conclude_same hs
  rcases Option.eq_none_or_eq_some (env.linesOf name upper).error with herror | ⟨d, herror⟩
  · have habove := fun lower => readSource_above (Path.clean name) [] herror lower {}
    have hmiddle : Corresponds Same
        (env.readText name upper {} >>=
          env.readSource (Path.clean name) [] (env.linesOf name (line.above lower)))
        (env.readText name upper {} >>=
          env.readSource (Path.clean name) [] (env.linesOf name (contents.above lower))) := by
      refine .bind_same fun s hs => ?_
      exact readSource_include hline hkeyword hfile hlibrary (by simpa using hnew) hread
        (hupper s hs) (hpasted s hs) (hplain s hs) lower
    exact ((habove _).trans hmiddle fun _ _ _ ha hb => ha.trans hb).join (habove _)
      fun _ _ _ ha hb => ha.trans hb.symm
  · have hfails := fun lower => readSource_above_of_error (Path.clean name) []
      (Option.isSome_of_eq_some herror) lower {}
    exact .of_error (hfails _) (hfails _)

end Pasting

/-- What lines are read as within `n` steps. -/
def readAfter? (env : SourceEnv) (file : Text) (lines : List Line) (s : SourceState) (n : Nat) :
    Option SourceState :=
  (env.after n (.ongoing ⟨⟨file, lines, none, []⟩, [], s⟩)).result?.bind Except.toOption

theorem readLines_of_readAfter? {n : Nat} (h : env.readAfter? file lines s n = some s') :
    env.readLines [file] lines s = .ok s' := by
  obtain ⟨read, hread, h⟩ := Option.bind_eq_some_iff.1 h
  have hread := eq_of_after (Progress.result?_eq_some.1 hread)
  rw [toOption_eq_some.1 h] at hread
  obtain ⟨s₁, hread, hend⟩ := bind_eq_ok.1 hread
  obtain ⟨_, _, rfl⟩ := SourceState.endOfFile_eq_ok hend
  exact hread

theorem defining_of_readAfter? {n : Nat} {r : SourceState}
    (h : (env.readAfter? file lines s n).map SourceState.defining = some none)
    (hr : env.readLines [file] lines s = .ok r) : r.defining = none := by
  obtain ⟨s', hs', hclosed⟩ := Option.map_eq_some_iff.1 h
  cases (readLines_of_readAfter? hs').symm.trans hr
  exact hclosed

end SourceEnv

/-- What an assembler reads a program in. -/
abbrev Assembler.env (a : Assembler) (library : Library) : SourceEnv := ⟨a.machine, some library⟩

/-- Including a file means pasting it. A line that includes a file other than the one
it is in may be replaced by the text of that file, if no definition is open before it and
behind it and if no line that is read for the text includes a file: whether the program
is assembled, and to what, stays the same, apart from the positions of tokens. -/
theorem Assembler.assembleSource_include (a : Assembler) (library : Library) (name : Text)
    (start : UInt64) {upper line contents : Text} {keyword t : Token}
    (hline : (a.env library).linesOf name line = { lines := [[keyword, t]] })
    (hkeyword : keyword.kind = .inclusion) (hfile : t.kind = .string)
    (hnew : Path.relativeTo (Path.clean name) t.contents ≠ Path.clean name)
    (hread : library.read (Path.relativeTo (Path.clean name) t.contents) = .ok contents)
    (hupper : ∀ s, (a.env library).readText name upper {} = .ok s → s.defining = none)
    (hpasted : ∀ s, (a.env library).readText name upper {} = .ok s →
      ∀ r, (a.env library).readText name contents s = .ok r → r.defining = none)
    (hplain : ∀ s, (a.env library).readText name upper {} = .ok s →
      ∀ l, (a.env library).Reaches (Path.clean name) []
        ((a.env library).linesOf name contents).lines s l → l.keyword? ≠ some .inclusion)
    (lower : Text) :
    Corresponds (fun p q => p.stripped = q.stripped)
      (a.assembleSource library name (upper.above (line.above lower)) start).2.result
      (a.assembleSource library name (upper.above (contents.above lower)) start).2.result := by
  rw [assembleSource_snd, assembleSource_snd, SourceEnv.result_assemble, SourceEnv.result_assemble]
  have hparse := SourceEnv.parse_include hline hkeyword hfile rfl hnew hread hupper hpasted hplain
    lower
  exact (hparse.mapError _ _).bind fun _ _ _ _ hs => SourceEnv.finish_same _ start hs

namespace Sample

/-- A token in the main file. -/
def placed (kind : TokenKind) (contents : Text) (line column offset : Nat) : Token where
  kind := kind
  contents := contents
  position := ⟨"main", line, column, offset⟩
  legal := true

/-- A file in a directory, and one outside of it. -/
def files (contents : Text) : Library :=
  .ofTable (.ofList [("d/b", contents), ("x", " .data 1 7")])

def includeLine : Text := ".include \"d/b\""

def includeKeyword : Token := placed .inclusion ".include" 1 1 0

def includedName : Token := placed .string "d/b" 1 10 9

theorem linesOf_includeLine (contents : Text) :
    (assembler.env (files contents)).linesOf "main" includeLine =
      { lines := [[includeKeyword, includedName]] } := by
  have h : SourceLines.ofText assembler.machine.punctuationTable "main" includeLine =
      { lines := [[includeKeyword, includedName]] } := by decide +kernel
  exact h

theorem relativeTo_includedName :
    Path.relativeTo (Path.clean "main") includedName.contents = "d/b" := by
  decide +kernel

theorem read_includedName (contents : Text) :
    (files contents).read (Path.relativeTo (Path.clean "main") includedName.contents) =
      .ok contents := by
  rw [relativeTo_includedName]
  rfl

/-- A template, and a label that waits. -/
def valueTemplate : Text := "MACRO n y\n .data 1 y\nENDM\ntop:"

/-- A call of the template, and one more label. -/
def valueCall : Text := " n top\nlow:"

def valueEnv : SourceEnv := assembler.env (files valueCall)

def callLine : Line := [placed .identifier "n" 1 2 1, placed .identifier "top" 1 4 3]

def labelLine : Line := [placed .label "low:" 2 1 7]

/-- The line that the call stands for. -/
def calledLine : Line :=
  [placed .data ".data" 2 2 11, placed .constant "1" 2 8 17, placed .identifier "top" 1 4 3]

/-- What has been gathered before the call. -/
def beforeCall : SourceState where
  pending := [placed .label "top:" 4 1 26]
  templates := .ofList [("n", {
    name := placed .identifier "n" 1 7 6
    params := [placed .identifier "y" 1 9 8]
    body := [[placed .data ".data" 2 2 11, placed .constant "1" 2 8 17,
      placed .identifier "y" 2 10 19]] })]
  log := [.templateDefined "n" 1]

/-- What has been gathered behind the call. -/
def behindCall : SourceState :=
  { beforeCall with
    pending := []
    statements := [{
      labels := [placed .label "top:" 4 1 26], action := .data
      keyword := placed .data ".data" 2 2 11, operands := [placed .identifier "top" 1 4 3]
      width := 1 }] }

theorem readText_valueTemplate : valueEnv.readText "main" valueTemplate {} = .ok beforeCall := by
  have h : valueEnv.readAfter? (Path.clean "main") (valueEnv.linesOf "main" valueTemplate).lines {}
      20 = some beforeCall := by decide +kernel
  exact SourceEnv.readLines_of_readAfter? h

theorem lines_valueCall : (valueEnv.linesOf "main" valueCall).lines = [callLine, labelLine] := by
  decide +kernel

/-- Three lines are read for the call, none of which includes a file. -/
theorem keyword?_of_reaches {l : Line}
    (h : valueEnv.Reaches (Path.clean "main") [] [callLine, labelLine] beforeCall l) :
    l.keyword? ≠ some .inclusion := by
  have hcall : valueEnv.takeLine (Path.clean "main") [] 0 callLine beforeCall =
      .ok (beforeCall.addLabels callLine, .expansion [calledLine]) := by decide +kernel
  have hcalled : valueEnv.takeLine (Path.clean "main") [] 1 calledLine
      (beforeCall.addLabels callLine) = .ok (behindCall, .nothing) := by decide +kernel
  have hread : valueEnv.readAfter? (Path.clean "main") [callLine] beforeCall 9 = some behindCall := by
    decide +kernel
  have hlabel : valueEnv.takeLine (Path.clean "main") [] 0 labelLine behindCall =
      .ok (behindCall.addLabels labelLine, .nothing) := by decide +kernel
  cases h with
  | line _ h =>
    cases h with
    | line => decide +kernel
    | next _ h => cases h
    | call htake h =>
      cases hcall.symm.trans htake
      cases h with
      | line => decide +kernel
      | next _ h => cases h
      | call htake _ => cases hcalled.symm.trans htake
  | next hfirst h =>
    cases (SourceEnv.readLines_of_readAfter? hread).symm.trans hfirst
    cases h with
    | next _ h => cases h
    | line _ h =>
      cases h with
      | line => decide +kernel
      | next _ h => cases h
      | call htake _ => cases hlabel.symm.trans htake

/-- Labels wait across both ends of the included file. -/
theorem include_pasted : ∃ p q,
    (assembler.assembleSource (files valueCall) "main"
      (valueTemplate.above (includeLine.above " .data 1 low")) 5).2.result = .ok p ∧
    (assembler.assembleSource (files valueCall) "main"
      (valueTemplate.above (valueCall.above " .data 1 low")) 5).2.result = .ok q ∧
    q.blocks.map Block.cells = [[5], [6]] ∧ p.stripped = q.stripped := by
  have hcells : (valueEnv.resultAfter? "main" (valueTemplate.above (valueCall.above " .data 1 low"))
      5 30).map (fun r => r.toOption.map fun q => q.blocks.map Block.cells) =
      some (some [[5], [6]]) := by decide +kernel
  obtain ⟨r, hr, hcells⟩ := Option.map_eq_some_iff.1 hcells
  obtain ⟨q, hq, hcells⟩ := Option.map_eq_some_iff.1 hcells
  rw [toOption_eq_some.1 hq] at hr
  have hpasted : (assembler.assembleSource (files valueCall) "main"
      (valueTemplate.above (valueCall.above " .data 1 low")) 5).2.result = .ok q := by
    rw [Assembler.assembleSource_snd]
    exact SourceEnv.result_of_resultAfter? hr
  have h : Corresponds (fun p q => p.stripped = q.stripped)
      (assembler.assembleSource (files valueCall) "main"
        (valueTemplate.above (includeLine.above " .data 1 low")) 5).2.result
      (assembler.assembleSource (files valueCall) "main"
        (valueTemplate.above (valueCall.above " .data 1 low")) 5).2.result := by
    apply assembler.assembleSource_include (files valueCall) "main" 5
      (linesOf_includeLine valueCall) rfl rfl (by decide +kernel) (read_includedName valueCall)
    · intro s hs
      cases readText_valueTemplate.symm.trans hs
      rfl
    · intro s hs r hr
      cases readText_valueTemplate.symm.trans hs
      have hclosed : (valueEnv.readAfter? (Path.clean "main")
          (valueEnv.linesOf "main" valueCall).lines beforeCall 12).map SourceState.defining =
          some none := by decide +kernel
      exact SourceEnv.defining_of_readAfter? hclosed hr
    · intro s hs l hl
      cases readText_valueTemplate.symm.trans hs
      exact keyword?_of_reaches (lines_valueCall ▸ hl)
  rw [hpasted] at h
  generalize (assembler.assembleSource (files valueCall) "main"
    (valueTemplate.above (includeLine.above " .data 1 low")) 5).2.result = r at h
  cases h with
  | ok h => exact ⟨_, q, rfl, hpasted, hcells, h⟩

/-- A template that includes a file. -/
def includingTemplate : Text := "MACRO m\n.include \"x\"\nENDM"

def includingEnv : SourceEnv := assembler.env (files "m")

/-- A text without any inclusion that calls a template with one. Where the text is
included from another directory, the template looks for its file there, and does not
find it. -/
theorem include_in_template :
    Assembler.accept (some machine) = .ok assembler.machine ∧
    includingEnv.linesOf "main" includeLine = { lines := [[includeKeyword, includedName]] } ∧
    includeKeyword.kind = .inclusion ∧ includedName.kind = .string ∧
    Path.relativeTo (Path.clean "main") includedName.contents ≠ Path.clean "main" ∧
    (files "m").read (Path.relativeTo (Path.clean "main") includedName.contents) = .ok "m" ∧
    (∀ s, includingEnv.readText "main" includingTemplate {} = .ok s →
      s.defining = none ∧ ∀ r, includingEnv.readText "main" "m" s = .ok r → r.defining = none) ∧
    (∀ l ∈ (includingEnv.linesOf "main" "m").lines, ∀ t ∈ l, t.kind ≠ .inclusion) ∧
    (∃ f, (assembler.assembleSource (files "m") "main"
      (includingTemplate.above (includeLine.above "")) 0).2.result = .error f) ∧
    ∃ p, (assembler.assembleSource (files "m") "main"
      (includingTemplate.above (Text.above "m" "")) 0).2.result = .ok p := by
  refine ⟨accepted, linesOf_includeLine "m", rfl, rfl, by decide +kernel, read_includedName "m", ?_,
    by decide +kernel, ?_, ?_⟩
  · have hclosed : (includingEnv.readAfter? (Path.clean "main")
        (includingEnv.linesOf "main" includingTemplate).lines {} 9).map (fun s => (s.defining,
          (includingEnv.readAfter? (Path.clean "main") (includingEnv.linesOf "main" "m").lines s
            20).map SourceState.defining)) = some (none, some none) := by decide +kernel
    obtain ⟨s, hs, hclosed⟩ := Option.map_eq_some_iff.1 hclosed
    obtain ⟨hbefore, hbehind⟩ := Prod.mk.inj hclosed
    intro s' hs'
    cases (SourceEnv.readLines_of_readAfter? hs).symm.trans hs'
    exact ⟨hbefore, fun r hr => SourceEnv.defining_of_readAfter? hbehind hr⟩
  · have hfails : (includingEnv.resultAfter? "main" (includingTemplate.above
        (includeLine.above "")) 0 20).map Except.toOption = some none := by decide +kernel
    obtain ⟨r, hr, hnone⟩ := Option.map_eq_some_iff.1 hfails
    cases r with
    | ok p => cases hnone
    | error f =>
      refine ⟨f, ?_⟩
      rw [Assembler.assembleSource_snd]
      exact SourceEnv.result_of_resultAfter? hr
  · have hgiven : ((includingEnv.resultAfter? "main" (includingTemplate.above
        (Text.above "m" "")) 0 20).bind Except.toOption).isSome := by decide +kernel
    obtain ⟨p, hp⟩ := Option.isSome_iff_exists.1 hgiven
    obtain ⟨r, hr, hp⟩ := Option.bind_eq_some_iff.1 hp
    rw [toOption_eq_some.1 hp] at hr
    refine ⟨p, ?_⟩
    rw [Assembler.assembleSource_snd]
    exact SourceEnv.result_of_resultAfter? hr

end Sample

end CellAsm
