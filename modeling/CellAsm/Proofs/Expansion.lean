-- SUMMARY: A call of a template means the lines of the template, written in its place.
import CellAsm.Proofs.Moments
import CellAsm.Proofs.Separators
import Mathlib.Data.List.TakeWhile

/-!
# Expanded templates

The lines of an expanded template are read one deeper than the call, and never as
part of a definition. Neither makes a difference where no line of an expansion starts
a definition: what is read at some depth is read in the same way at every smaller
depth, and no definition is ever open between two lines. So the call may be replaced
by its labels and the lines it stands for.
-/
namespace CellAsm

/-- The kind of the first token behind the labels of a line. -/
def Line.keyword? (line : Line) : Option TokenKind :=
  (line.dropWhile (·.kind == .label)).head?.map Token.kind

theorem Line.keyword?_eq {line : Line} {head : Token} {rest : List Token}
    (h : line.dropWhile (·.kind == .label) = head :: rest) : line.keyword? = some head.kind := by
  rw [keyword?, h]
  rfl

/-- The token `t'` stands for `t` when the parameters have the given arguments: an
identifier that is a parameter becomes the argument for it, and nothing else changes. -/
inductive Token.Substituted (params arguments : List Token) (t : Token) : Token → Prop
  | argument {i : Nat} {p a : Token} (hkind : t.kind = .identifier) (hparam : params[i]? = some p)
      (hname : p.contents = t.contents) (hargument : arguments[i]? = some a) :
      Substituted params arguments t a
  | same (hfree : t.kind = .identifier → ∀ p ∈ params, p.contents ≠ t.contents) :
      Substituted params arguments t t

/-- The labels, the name of a defined template, and what follows: a line that calls it. -/
structure SourceState.Calls (s : SourceState) (labels : Line) (head : Token) (rest : List Token)
    (t : Template) : Prop where
  labels : ∀ l ∈ labels, l.kind = .label
  name : head.kind = .identifier
  noEqu : SourceState.equLine? head rest = none
  defined : s.templates.find? head.contents = some t

/-! ## Substitution -/

namespace Template

theorem substituted_substitute {params arguments : List Token}
    (hlength : arguments.length = params.length) (t : Token) :
    t.Substituted params arguments
      (substitute ((params.map Token.contents).zip arguments) t) := by
  unfold substitute
  split
  · rename_i hkind
    cases hlookup : ((params.map Token.contents).zip arguments).lookup t.contents with
    | some a =>
      obtain ⟨i, hi⟩ := List.mem_iff_getElem?.1 (mem_of_lookup hlookup)
      obtain ⟨hname, hargument⟩ := List.getElem?_zip_eq_some.1 hi
      rw [List.getElem?_map] at hname
      obtain ⟨p, hparam, hname⟩ := Option.map_eq_some_iff.1 hname
      exact .argument hkind hparam hname hargument
    | none =>
      apply Token.Substituted.same
      intro _ p hp hname
      obtain ⟨i, hi⟩ := List.mem_iff_getElem?.1 hp
      obtain ⟨hlt, _⟩ := List.getElem?_eq_some_iff.1 hi
      have hpair : ((params.map Token.contents).zip arguments)[i]? =
          some (t.contents, arguments[i]) := by
        apply List.getElem?_zip_eq_some.2
        rw [List.getElem?_map, hi]
        exact ⟨congrArg some hname, List.getElem?_eq_getElem _⟩
      have hne := List.lookup_eq_none_iff.1 hlookup _ (List.mem_of_getElem? hpair)
      exact absurd hne (by simp)
  · rename_i hkind
    exact .same fun h => absurd h hkind

/-- The lines a call stands for are those of the body, token by token. -/
theorem forall₂_instantiate (t : Template) {arguments : List Token}
    (hlength : arguments.length = t.params.length) :
    List.Forall₂ (List.Forall₂ (Token.Substituted t.params arguments)) t.body
      (t.instantiate arguments) := by
  unfold instantiate
  rw [List.forall₂_map_right_iff]
  apply List.forall₂_same.2
  intro line _
  rw [List.forall₂_map_right_iff]
  apply List.forall₂_same.2
  intro token _
  exact substituted_substitute hlength token

end Template

theorem SourceState.expansion_eq_ok {t : Template} {call : Token} {rest : List Token}
    {lines : List Line} (h : expansion t call rest = .ok lines) : ∃ arguments,
      splitOperands rest = .ok arguments ∧ arguments.length = t.params.length ∧
      lines = t.instantiate arguments := by
  rw [expansion_eq] at h
  obtain ⟨arguments, harguments, h⟩ := bind_eq_ok.1 h
  split at h
  · cases h
  · rename_i hlength
    cases h
    exact ⟨arguments, harguments, not_not.1 hlength, rfl⟩

namespace SourceEnv

variable {env : SourceEnv} {file : Text} {outer : List Text} {depth d : Nat} {line : Line}
  {lines : List Line} {s s' : SourceState} {demand : Demand}

/-! ## Depth -/

theorem LineTaken.of_le (h : LineTaken env file outer depth line s s' demand) (hle : d ≤ depth) :
    LineTaken env file outer d line s s' demand := by
  cases h with
  | labels hline => exact .labels hline
  | equ hline hequ hdefine => exact .equ hline hequ hdefine
  | included hline hequ hkind hfile hnew hlib hread =>
    exact .included hline hequ hkind hfile hnew hlib hread
  | expanded hline hequ hkind htemplate hdepth hexpansion =>
    exact .expanded hline hequ hkind htemplate (Nat.lt_of_le_of_lt hle hdepth) hexpansion
  | plain hline hequ hkind htemplate hplain => exact .plain hline hequ hkind htemplate hplain

theorem takeLine_of_le (h : env.takeLine file outer depth line s = .ok (s', demand))
    (hle : d ≤ depth) : env.takeLine file outer d line s = .ok (s', demand) :=
  have htaken := lineTaken_of_takeLine h
  takeLine_of_lineTaken htaken.1 (htaken.2.of_le hle)

/-- Reading at a smaller depth only has fewer reasons to fail. -/
theorem readLine_and_readExpansion_of_le (env : SourceEnv) (file : Text) (outer : List Text) :
    (∀ depth line s s', env.readLine (file :: outer) depth line s = .ok s' →
      ∀ d ≤ depth, env.readLine (file :: outer) d line s = .ok s') ∧
    ∀ depth lines s s', env.readExpansion (file :: outer) depth lines s = .ok s' →
      ∀ d ≤ depth, env.readExpansion (file :: outer) d lines s = .ok s' := by
  have hcases : ReadingCases env
      (fun _ _ _ _ => True)
      (fun file outer depth line s => ∀ s', env.readLine (file :: outer) depth line s = .ok s' →
        ∀ d ≤ depth, env.readLine (file :: outer) d line s = .ok s')
      (fun file outer depth lines s =>
        ∀ s', env.readExpansion (file :: outer) depth lines s = .ok s' →
          ∀ d ≤ depth, env.readExpansion (file :: outer) d lines s = .ok s') := by
    constructor
    case ended =>
      intros
      trivial
    case collected =>
      intros
      trivial
    case read =>
      intros
      trivial
    case line =>
      intro file outer depth line s _ ihExpansion s' h d hle
      rw [readLine_eq, bind_eq_ok] at h ⊢
      obtain ⟨⟨taken, demand⟩, htake, hfulfil⟩ := h
      refine ⟨(taken, demand), takeLine_of_le htake hle, ?_⟩
      cases (lineTaken_of_takeLine htake).2 with
      | labels => exact hfulfil
      | equ => exact hfulfil
      | included => exact hfulfil
      | plain => exact hfulfil
      | expanded _ _ _ _ hdepth _ =>
        exact ihExpansion (Nat.not_le_of_lt hdepth) _ s' hfulfil (d + 1) (Nat.succ_le_succ hle)
    case left =>
      intro file outer depth s s' h d _
      rw [readExpansion] at h ⊢
      exact h
    case expanded =>
      intro file outer depth line rest s ihLine ihRest s' h d hle
      rw [readExpansion, bind_eq_ok] at h ⊢
      obtain ⟨s₁, hline, hrest⟩ := h
      exact ⟨s₁, ihLine s₁ hline d hle, ihRest s₁ s' hrest d hle⟩
  exact ⟨hcases.line_induct file outer, hcases.expansion_induct file outer⟩

theorem readLine_of_le (h : env.readLine (file :: outer) depth line s = .ok s') (hle : d ≤ depth) :
    env.readLine (file :: outer) d line s = .ok s' :=
  (env.readLine_and_readExpansion_of_le file outer).1 depth line s s' h d hle

/-- Whatever the depth, a line that is read is read in the same way. -/
theorem readLine_unique {s'' : SourceState} (h : env.readLine (file :: outer) depth line s = .ok s')
    (h' : env.readLine (file :: outer) d line s = .ok s'') : s'' = s' := by
  rcases Nat.le_total d depth with hle | hle
  · exact Except.ok.inj (h'.symm.trans (readLine_of_le h hle))
  · exact Except.ok.inj ((readLine_of_le h' hle).symm.trans h)

end SourceEnv

/-! ## Definitions -/

namespace SourceState

/-- The names that a line with this keyword exports. -/
def exported (head : Token) (rest : List Token) : List Token :=
  if head.kind = .exported then withoutCommas rest else []

/-- What a line adds that neither expands a template nor includes a file nor starts a
definition. It exports just `names`. -/
inductive Adds (m : Machine) (s : SourceState) (names : List Token) : SourceState → Prop
  | statement (c : Statement) (hnames : names = []) : Adds m s names (s.emit c)
  | constant {name value : Token} (hlabels : s.pending = [])
      (hnew : s.equNames.find? name.symbol = none)
      (hvalue : checkEquValue m s name.symbol value = .ok ()) (hnames : names = []) :
      Adds m s names { s with
        equs := s.equs.insert name.symbol value
        equNames := s.equNames.insert name.symbol name }
  | exports : Adds m s names { s with exports := s.exports ++ names }

variable {m : Machine} {s s' : SourceState} {head : Token} {rest : List Token}

namespace Adds

theorem defining {names : List Token} (h : s.Adds m names s') : s'.defining = s.defining := by
  cases h <;> rfl

theorem exports_eq {names : List Token} (h : s.Adds m names s') :
    s'.exports = s.exports ++ names := by
  cases h with
  | statement c hnames =>
    rw [hnames, List.append_nil]
    rfl
  | constant _ _ _ hnames => rw [hnames, List.append_nil]
  | exports => rfl

theorem of_defineEqu {name : Token} (h : s.defineEqu m head name rest = .ok s') : s.Adds m [] s' := by
  rw [defineEqu_eq] at h
  split at h
  · cases h
  · rename_i hlabels
    split at h
    · cases h
    · split at h
      · split at h
        · cases h
        · rename_i hnew
          simp only [bind_eq_ok, pure_eq_ok] at h
          obtain ⟨_, hvalue, rfl⟩ := h
          exact .constant hlabels hnew hvalue rfl
      · cases h

theorem of_exportNames (h : s.exportNames head rest = .ok s') :
    s.Adds m (withoutCommas rest) s' := by
  obtain ⟨names, hsplit, h⟩ := bind_eq_ok.1 h
  obtain ⟨_, rfl⟩ := splitOperands_eq_ok_iff.1 hsplit
  split at h
  · cases h
  · simp only [bind_eq_ok, pure_eq_ok] at h
    obtain ⟨_, _, rfl⟩ := h
    exact .exports

theorem of_ascii (h : s.ascii head rest = .ok s') : s.Adds m [] s' := by
  rw [ascii_eq] at h
  split at h
  · cases h
    exact .statement _ rfl
  · cases h

theorem of_values {width : Int} (h : s.values head rest width = .ok s') : s.Adds m [] s' := by
  simp only [values, bind_eq_ok, pure_eq_ok] at h
  obtain ⟨_, _, _, _, rfl⟩ := h
  exact .statement _ rfl

theorem of_sized {width : Int} (h : s.sized head rest width = .ok s') : s.Adds m [] s' := by
  unfold sized at h
  split at h
  · cases h
  · exact of_values h

theorem of_data (h : s.data head rest = .ok s') : s.Adds m [] s' := by
  rw [data_eq] at h
  split at h
  · split at h
    · cases h
    · split at h
      · split at h
        · obtain ⟨_, _, h⟩ := bind_eq_ok.1 h
          exact of_values h
        · cases h
      · cases h
  · cases h

theorem of_cellDirective {action : Action} (h : s.cellDirective head action rest = .ok s') :
    s.Adds m [] s' := by
  rw [cellDirective_eq] at h
  split at h
  · cases h
    exact .statement _ rfl
  · cases h

theorem of_instruction (h : s.instruction m head rest = .ok s') : s.Adds m [] s' := by
  unfold instruction at h
  split at h
  · cases h
  · simp only [bind_eq_ok] at h
    obtain ⟨_, _, _, _, h⟩ := h
    split at h
    · cases h
    · cases h
      exact .statement _ rfl

theorem of_plainLine (hkind : head.kind ≠ .templateStart)
    (h : s.plainLine m head rest = .ok s') : s.Adds m (exported head rest) s' := by
  by_cases hexported : head.kind = .exported
  · rw [exported, if_pos hexported]
    simp only [plainLine, hexported] at h
    exact of_exportNames h
  · rw [exported, if_neg hexported]
    unfold plainLine at h
    split at h
    · rw [equBefore_eq] at h
      split at h
      · cases h
      · exact of_defineEqu h
    · rename_i hstart
      exact absurd hstart hkind
    · cases h
    · rename_i hhead
      exact absurd hhead hexported
    · exact of_ascii h
    · exact of_data h
    · exact of_sized h
    · exact of_sized h
    · exact of_cellDirective h
    · exact of_cellDirective h
    · exact of_instruction h
    · cases h

end Adds

end SourceState

namespace SourceEnv

variable {env : SourceEnv} {file : Text} {outer : List Text} {depth d : Nat} {line : Line}
  {lines : List Line} {s s' : SourceState}

/-- The lines that are read when `lines` are read as an expansion: they themselves, and
the lines of the templates they call. -/
inductive Expands (env : SourceEnv) (file : Text) (outer : List Text) :
    Nat → List Line → SourceState → Line → Prop
  | line {depth : Nat} {l : Line} {rest : List Line} {s : SourceState} :
      Expands env file outer depth (l :: rest) s l
  | call {depth : Nat} {l l' : Line} {rest lines : List Line} {s s' : SourceState}
      (htake : env.takeLine file outer depth l s = .ok (s', .expansion lines))
      (h : Expands env file outer (depth + 1) lines s' l') :
      Expands env file outer depth (l :: rest) s l'
  | next {depth : Nat} {l l' : Line} {rest : List Line} {s s' : SourceState}
      (hread : env.readLine (file :: outer) depth l s = .ok s')
      (h : Expands env file outer depth rest s' l') :
      Expands env file outer depth (l :: rest) s l'

theorem Expands.append_right {more : List Line} {l : Line}
    (h : env.Expands file outer depth lines s l) : env.Expands file outer depth (lines ++ more) s l := by
  induction h with
  | line => exact .line
  | call htake h _ => exact .call htake h
  | next hread _ ih => exact .next hread ih

theorem defining_of_fulfil_file {name : Text} {source : SourceLines}
    (h : env.fulfil file outer depth (s, .file name source) = .ok s') : s'.defining = none := by
  obtain ⟨s₁, _, hend⟩ := bind_eq_ok.1 h
  obtain ⟨_, hclosed, rfl⟩ := SourceState.endOfFile_eq_ok hend
  exact hclosed

/-- No definition is open behind an expansion none of whose lines starts one. -/
theorem defining_of_readExpansion (hclosed : s.defining = none)
    (hplain : ∀ l, env.Expands file outer depth lines s l → l.keyword? ≠ some .templateStart)
    (h : env.readExpansion (file :: outer) depth lines s = .ok s') : s'.defining = none := by
  have hcases : ReadingCases env
      (fun _ _ _ _ => True)
      (fun file outer depth line s => s.defining = none →
        (∀ l, env.Expands file outer depth [line] s l → l.keyword? ≠ some .templateStart) →
        ∀ s', env.readLine (file :: outer) depth line s = .ok s' → s'.defining = none)
      (fun file outer depth lines s => s.defining = none →
        (∀ l, env.Expands file outer depth lines s l → l.keyword? ≠ some .templateStart) →
        ∀ s', env.readExpansion (file :: outer) depth lines s = .ok s' → s'.defining = none) := by
    constructor
    case ended =>
      intros
      trivial
    case collected =>
      intros
      trivial
    case read =>
      intros
      trivial
    case line =>
      intro file outer depth line s _ ihExpansion hclosed hplain s' h
      rw [readLine_eq, bind_eq_ok] at h
      obtain ⟨⟨taken, demand⟩, htake, hfulfil⟩ := h
      cases (lineTaken_of_takeLine htake).2 with
      | labels =>
        cases hfulfil
        exact hclosed
      | equ _ _ hdefine =>
        cases hfulfil
        exact (SourceState.Adds.of_defineEqu hdefine).defining.trans hclosed
      | included => exact defining_of_fulfil_file hfulfil
      | expanded _ _ _ _ hdepth _ =>
        exact ihExpansion (Nat.not_le_of_lt hdepth) _ hclosed
          (fun l hl => hplain l (.call htake hl)) s' hfulfil
      | plain hline _ _ _ hadds =>
        cases hfulfil
        have hkind := hplain line .line
        rw [Line.keyword?_eq hline] at hkind
        have hadds := SourceState.Adds.of_plainLine (fun hstart => hkind (congrArg some hstart)) hadds
        exact hadds.defining.trans hclosed
    case left =>
      intro file outer depth s hclosed _ s' h
      rw [readExpansion] at h
      cases h
      exact hclosed
    case expanded =>
      intro file outer depth line rest s ihLine ihRest hclosed hplain s' h
      rw [readExpansion, bind_eq_ok] at h
      obtain ⟨s₁, hline, hrest⟩ := h
      have hopen : ∀ l, env.Expands file outer depth [line] s l → l.keyword? ≠ some .templateStart :=
        fun l hl => hplain l hl.append_right
      exact ihRest s₁ (ihLine hclosed hopen s₁ hline) (fun l hl => hplain l (.next hline hl)) s' hrest
  exact hcases.expansion_induct file outer depth lines s hclosed hplain s' h

/-! ## Lines in place of a call -/

/-- Reads lines at some depth as they are read in a file, where lines of a template that
is being defined are collected. -/
def readWritten (env : SourceEnv) (file : Text) (outer : List Text) (depth : Nat) :
    List Line → SourceState → Except Stop SourceState
  | [], s => .ok s
  | line :: rest, s => do
    let s ← match s.defining with
      | some t => s.attempt (s.collect t line)
      | none => env.readLine (file :: outer) depth line s
    env.readWritten file outer depth rest s

theorem readWritten_zero (env : SourceEnv) (file : Text) (outer : List Text) (lines : List Line)
    (s : SourceState) :
    env.readWritten file outer 0 lines s = env.readLines (file :: outer) lines s := by
  induction lines generalizing s with
  | nil => rw [readWritten, readLines]
  | cons line rest ih =>
    rw [readWritten]
    cases hdefining : s.defining with
    | some t =>
      rw [readLines_of_defining hdefining]
      exact bind_congr ih
    | none =>
      rw [readLines_of_closed hdefining]
      exact bind_congr ih

/-- The lines of an expansion may as well be written one level further out. -/
theorem readWritten_of_readExpansion (hle : d ≤ depth) (hclosed : s.defining = none)
    (hplain : ∀ l, env.Expands file outer depth lines s l → l.keyword? ≠ some .templateStart)
    (h : env.readExpansion (file :: outer) depth lines s = .ok s') :
    env.readWritten file outer d lines s = .ok s' := by
  induction lines generalizing s with
  | nil =>
    rw [readExpansion] at h
    exact h
  | cons line rest ih =>
    rw [readExpansion, bind_eq_ok] at h
    obtain ⟨s₁, hline, hrest⟩ := h
    have hopen : ∀ l, env.Expands file outer depth [line] s l → l.keyword? ≠ some .templateStart :=
      fun l hl => hplain l hl.append_right
    have hfirst : env.readExpansion (file :: outer) depth [line] s = .ok s₁ := by
      rw [readExpansion, hline, ok_bind, readExpansion]
    have hclosed' : s₁.defining = none := defining_of_readExpansion hclosed hopen hfirst
    simp only [readWritten, hclosed, bind_eq_ok]
    exact ⟨s₁, readLine_of_le hline hle,
      ih hclosed' (fun l hl => hplain l (.next hline hl)) hrest⟩

theorem isLabel_of_calls {labels : Line} {head : Token} {rest : List Token} {t : Template}
    (h : s.Calls labels head rest t) : ∀ l ∈ labels, (l.kind == .label) = true := by
  intro l hl
  rw [h.labels l hl]
  rfl

theorem checkLegal_of_append {front back : Line}
    (h : SourceState.checkLegal (front ++ back) = .ok ()) :
    SourceState.checkLegal front = .ok () := by
  induction front with
  | nil => rfl
  | cons t front ih =>
    unfold SourceState.checkLegal
    rw [List.cons_append, SourceState.checkLegal] at h
    split at h
    · cases h
    · rename_i hlegal
      rw [if_neg hlegal]
      exact ih h

/-- Only the call itself is left on its line behind the labels, which wait for the first
statement of the expansion. -/
theorem expanded_of_call {labels : Line} {head : Token} {rest : List Token} {t : Template}
    {taken : SourceState} {demand : Demand} (hcall : s.Calls labels head rest t)
    (htake : env.takeLine file outer depth (labels ++ head :: rest) s = .ok (taken, demand)) :
    taken = s.addLabels labels ∧ ∃ lines, demand = .expansion lines ∧
      SourceState.expansion t head rest = .ok lines := by
  have hlabels := isLabel_of_calls hcall
  have hhead : ¬ (head.kind == .label) = true := by
    rw [hcall.name]
    decide
  have hdrop : (labels ++ head :: rest).dropWhile (·.kind == .label) = head :: rest := by
    rw [List.dropWhile_append_of_pos hlabels, List.dropWhile_cons, if_neg hhead]
  have hwait : s.addLabels (labels ++ head :: rest) = s.addLabels labels := by
    rw [SourceState.addLabels, SourceState.addLabels, List.takeWhile_append_of_pos hlabels,
      List.takeWhile_cons, List.takeWhile_eq_self_iff.2 hlabels]
    simp only [hhead, Bool.false_eq_true, if_false, List.append_nil]
  cases (lineTaken_of_takeLine htake).2 with
  | labels hline => cases hdrop.symm.trans hline
  | equ hline hequ _ =>
    cases hdrop.symm.trans hline
    cases hcall.noEqu.symm.trans hequ
  | included hline _ hkind _ _ _ _ =>
    cases hdrop.symm.trans hline
    cases hcall.name.symm.trans hkind
  | expanded hline _ _ htemplate _ hexpansion =>
    cases hdrop.symm.trans hline
    cases hcall.defined.symm.trans htemplate
    exact ⟨hwait, _, rfl, hexpansion⟩
  | plain hline _ _ htemplate _ =>
    cases hdrop.symm.trans hline
    cases hcall.defined.symm.trans (htemplate hcall.name)

/-- A line of labels only has them wait. -/
theorem readLine_labels {labels : Line} (hlabels : ∀ l ∈ labels, (l.kind == .label) = true)
    (hlegal : SourceState.checkLegal labels = .ok ()) (s : SourceState) :
    env.readLine (file :: outer) depth labels s = .ok (s.addLabels labels) := by
  have hdrop : labels.dropWhile (·.kind == .label) = [] := List.dropWhile_eq_nil_iff.2 hlabels
  rw [readLine_eq, takeLine_of_lineTaken hlegal (.labels hdrop)]
  rfl

/-- A call of a template means its body written in its place. Where a line of labels, the
name of a template and arguments is read, and no line of the expansion starts a
definition, the same is read from the labels and then the lines of the body, with every
identifier that is a parameter replaced by the argument for it; at depth zero these are
read as lines of the file. The same is read at every smaller depth, and at any depth at
which the call is read at all. -/
theorem readLine_call {labels : Line} {head : Token} {rest : List Token} {t : Template}
    (hclosed : s.defining = none) (hcall : s.Calls labels head rest t)
    (hread : env.readLine (file :: outer) depth (labels ++ head :: rest) s = .ok s')
    (hplain : ∀ l, env.Expands file outer depth [labels ++ head :: rest] s l →
      l.keyword? ≠ some .templateStart) : ∃ arguments lines,
      splitOperands rest = .ok arguments ∧ arguments.length = t.params.length ∧
      List.Forall₂ (List.Forall₂ (Token.Substituted t.params arguments)) t.body lines ∧
      env.readWritten file outer depth (labels :: lines) s = .ok s' ∧
      (depth = 0 → env.readLines (file :: outer) (labels :: lines) s = .ok s') ∧
      (∀ d ≤ depth, env.readLine (file :: outer) d (labels ++ head :: rest) s = .ok s') ∧
      ∀ d s'', env.readLine (file :: outer) d (labels ++ head :: rest) s = .ok s'' → s'' = s' := by
  have hsame : ∀ d ≤ depth, env.readLine (file :: outer) d (labels ++ head :: rest) s = .ok s' :=
    fun d hle => readLine_of_le hread hle
  have hunique : ∀ d s'', env.readLine (file :: outer) d (labels ++ head :: rest) s = .ok s'' →
      s'' = s' := fun d s'' h => readLine_unique hread h
  rw [readLine_eq, bind_eq_ok] at hread
  obtain ⟨⟨taken, demand⟩, htake, hfulfil⟩ := hread
  obtain ⟨rfl, lines, rfl, hexpansion⟩ := expanded_of_call hcall htake
  obtain ⟨arguments, harguments, hlength, rfl⟩ := SourceState.expansion_eq_ok hexpansion
  have hbody : env.readWritten file outer depth (t.instantiate arguments) (s.addLabels labels) =
      .ok s' :=
    readWritten_of_readExpansion (Nat.le_succ depth) hclosed
      (fun l hl => hplain l (.call htake hl)) hfulfil
  have hlegal := checkLegal_of_append (lineTaken_of_takeLine htake).1
  have hwritten : env.readWritten file outer depth (labels :: t.instantiate arguments) s =
      .ok s' := by
    simp only [readWritten, hclosed, readLine_labels (isLabel_of_calls hcall) hlegal, ok_bind]
    exact hbody
  refine ⟨arguments, _, harguments, hlength, t.forall₂_instantiate hlength, hwritten, ?_, hsame,
    hunique⟩
  rintro rfl
  rw [← readWritten_zero]
  exact hwritten

end SourceEnv

namespace Sample

def word (kind : TokenKind) (contents : Text) : Token where
  kind := kind
  contents := contents
  legal := true

/-- One value, with a label of its own. -/
def single : Template where
  name := word .identifier "one"
  params := [word .identifier "y"]
  body := [[word .label "at:", word .data ".data", word .constant "1", word .identifier "y"]]

/-- One value, and the other template for one more. -/
def double : Template where
  name := word .identifier "two"
  params := [word .identifier "x"]
  body := [[word .data ".data", word .constant "1", word .identifier "x"],
    [word .identifier "one", word .identifier "x"]]

def defined : SourceState where
  templates := .ofList [("one", single), ("two", double)]

def env : SourceEnv := ⟨assembler.machine, some library⟩

/-- What the call `top: two 7` is read as. -/
def called : SourceState where
  templates := defined.templates
  statements := [
    { labels := [word .label "top:"], action := .data, keyword := word .data ".data",
      operands := [word .constant "7"], width := 1 },
    { labels := [word .label "at:"], action := .data, keyword := word .data ".data",
      operands := [word .constant "7"], width := 1 }]

theorem defined_calls : defined.Calls [word .label "top:"] (word .identifier "two")
    [word .constant "7"] double where
  labels := by decide +kernel
  name := rfl
  noEqu := rfl
  defined := by decide +kernel

/-- The call of the sample. -/
def call : Line := [word .label "top:"] ++ word .identifier "two" :: [word .constant "7"]

theorem readLine_called : env.readLine ["main"] 0 call defined = .ok called := by
  have hafter : (env.after 9 (.ongoing ⟨⟨"main", [call], none, []⟩, [], defined⟩)).result? =
      some (.ok called) := by decide +kernel
  have hread := SourceEnv.eq_of_after (Progress.result?_eq_some.1 hafter)
  obtain ⟨s, hread, hend⟩ := bind_eq_ok.1 hread
  obtain ⟨_, _, rfl⟩ := SourceState.endOfFile_eq_ok hend
  rw [SourceEnv.readLines_of_closed rfl] at hread
  obtain ⟨s', hline, hrest⟩ := bind_eq_ok.1 hread
  rw [SourceEnv.readLines] at hrest
  cases hrest
  exact hline

def value : Line := [word .data ".data", word .constant "1", word .constant "7"]

def innerCall : Line := [word .identifier "one", word .constant "7"]

/-- What has been gathered before the inner call. -/
def halfway : SourceState := { called with statements := called.statements.take 1 }

/-- The sample expands to three lines, none of which starts a definition. -/
theorem keyword?_of_expands (l : Line) (h : env.Expands "main" [] 0 [call] defined l) :
    l.keyword? ≠ some .templateStart := by
  have hcall : env.takeLine "main" [] 0 call defined =
      .ok (defined.addLabels call, .expansion [value, innerCall]) := by decide +kernel
  have hvalue : env.takeLine "main" [] 1 value (defined.addLabels call) =
      .ok (halfway, .nothing) := by decide +kernel
  have hinner : env.takeLine "main" [] 1 innerCall halfway =
      .ok (halfway, .expansion [word .label "at:" :: value]) := by decide +kernel
  have hlast : env.takeLine "main" [] 2 (word .label "at:" :: value) halfway =
      .ok (called, .nothing) := by decide +kernel
  cases h with
  | line => decide +kernel
  | next _ h => cases h
  | call htake h =>
    cases hcall.symm.trans htake
    cases h with
    | line => decide +kernel
    | call htake _ => cases hvalue.symm.trans htake
    | next hread h =>
      rw [SourceEnv.readLine_eq, hvalue] at hread
      cases hread
      cases h with
      | line => decide +kernel
      | next _ h => cases h
      | call htake h =>
        cases hinner.symm.trans htake
        cases h with
        | line => decide +kernel
        | next _ h => cases h
        | call htake _ => cases hlast.symm.trans htake

/-- The call and the two values it stands for. -/
theorem readLine_called_lines : ∃ arguments lines,
    splitOperands [word .constant "7"] = .ok arguments ∧
    arguments.length = double.params.length ∧
    List.Forall₂ (List.Forall₂ (Token.Substituted double.params arguments)) double.body lines ∧
    env.readWritten "main" [] 0 ([word .label "top:"] :: lines) defined = .ok called ∧
    env.readLines ["main"] ([word .label "top:"] :: lines) defined = .ok called := by
  obtain ⟨arguments, lines, harguments, hlength, hbody, hwritten, hlines, _⟩ :=
    SourceEnv.readLine_call rfl defined_calls readLine_called keyword?_of_expands
  exact ⟨arguments, lines, harguments, hlength, hbody, hwritten, hlines rfl⟩

end Sample

end CellAsm
