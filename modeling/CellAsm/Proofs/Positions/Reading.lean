-- SUMMARY: Reading a line does not depend on the positions of tokens.
import CellAsm.Proofs.Positions.Lines
import CellAsm.Proofs.Reading
import CellAsm.Proofs.Table

/-!
# Reading without positions

Tokens carry the position they were scanned at, so that errors can show it. Nothing
else depends on it: from tokens without positions the same is read, without positions.
Whether a step fails does not depend on positions either, only the error it fails with.
-/
namespace CellAsm

/-! ## What has been gathered -/

def Template.stripped (t : Template) : Template where
  name := t.name.stripped
  params := t.params.map Token.stripped
  body := t.body.map Line.stripped

theorem Template.stripped_comp : stripped ∘ stripped = stripped := by
  funext t
  simp only [Function.comp_apply, stripped, List.map_map, Token.stripped_comp, Line.stripped_comp]
  rfl

def Statement.stripped (c : Statement) : Statement :=
  { c with
    labels := c.labels.map Token.stripped
    keyword := c.keyword.stripped
    operands := c.operands.map Token.stripped }

theorem Statement.stripped_comp : stripped ∘ stripped = stripped := by
  funext c
  simp only [Function.comp_apply, stripped, List.map_map, Token.stripped_comp]
  rfl

/-- What has been gathered, without positions and without records. -/
def SourceState.stripped (s : SourceState) : SourceState where
  statements := s.statements.map Statement.stripped
  pending := s.pending.map Token.stripped
  equs := s.equs.mapValues Token.stripped
  equNames := s.equNames.mapValues Token.stripped
  exports := s.exports.map Token.stripped
  templates := s.templates.mapValues Template.stripped
  defining := s.defining.map Template.stripped

theorem SourceState.stripped_stripped (s : SourceState) : s.stripped.stripped = s.stripped := by
  simp only [stripped, List.map_map, Table.mapValues_mapValues, Option.map_map,
    Token.stripped_comp, Template.stripped_comp, Statement.stripped_comp]

/-- The same has been gathered, apart from positions and records. -/
def SourceState.Same (s s' : SourceState) : Prop := s.stripped = s'.stripped

theorem SourceState.same_stripped (s : SourceState) : s.Same s.stripped :=
  s.stripped_stripped.symm

/-- The computation `y` fails if `x` does, and otherwise has its result without
positions. -/
abbrev Strips {ε α : Type} (strip : α → α) (x y : Except ε α) : Prop :=
  Corresponds (fun a b => b = strip a) x y

open Corresponds (ok error branch)

theorem strips_mapM {ε α β : Type} (strip : β → β) {f g : α → Except ε β} {h : α → α}
    {l : List α} (hf : ∀ a ∈ l, Strips strip (f a) (g (h a))) :
    Strips (List.map strip) (l.mapM f) ((l.map h).mapM g) := by
  induction l with
  | nil => exact ok rfl
  | cons a l ih =>
    rw [List.forall_mem_cons] at hf
    rw [List.map_cons, List.mapM_cons, List.mapM_cons]
    refine hf.1.bind ?_
    rintro b _ _ _ rfl
    refine (ih hf.2).bind ?_
    rintro bs _ _ _ rfl
    exact ok rfl

/-! ## Operands -/

def Separator.stripped : Separator → Separator
  | .start => .start
  | .operand => .operand
  | .comma t => .comma t.stripped

theorem strips_operandsAfter (before : Separator) (ts : List Token) :
    Strips (List.map Token.stripped) (operandsAfter before ts)
      (operandsAfter before.stripped (ts.map Token.stripped)) := by
  induction ts generalizing before with
  | nil =>
    cases before with
    | start => exact ok rfl
    | operand => exact ok rfl
    | comma t => exact error
  | cons t rest ih =>
    have hmore : Strips (List.map Token.stripped)
        (operandsAfter .operand rest >>= fun operands => pure (t :: operands))
        (operandsAfter .operand (rest.map Token.stripped) >>=
          fun operands => pure (t.stripped :: operands)) := by
      refine (ih .operand).bind ?_
      rintro operands _ _ _ rfl
      exact ok rfl
    cases before with
    | start => exact branch (fun _ => error) fun _ => hmore
    | operand => exact branch (fun _ => ih (.comma t)) fun _ => hmore
    | comma => exact branch (fun _ => error) fun _ => hmore

theorem strips_splitOperands (ts : List Token) :
    Strips (List.map Token.stripped) (splitOperands ts)
      (splitOperands (ts.map Token.stripped)) := by
  rw [splitOperands_eq, splitOperands_eq]
  exact strips_operandsAfter .start ts

namespace Template

theorem checkParams_stripped (name : Token) (seen : List Text) (params : List Token) :
    Corresponds Eq (checkParams name seen params)
      (checkParams name.stripped seen (params.map Token.stripped)) := by
  induction params generalizing seen with
  | nil => exact ok rfl
  | cons p rest ih =>
    apply branch
    · exact fun _ => error
    · intro _
      exact branch (fun _ => error) fun _ => ih _

theorem stripped_substitute (arguments : List (Text × Token)) (t : Token) :
    (substitute arguments t).stripped =
      substitute (arguments.map (Prod.map id Token.stripped)) t.stripped := by
  unfold substitute
  rw [Token.kind_stripped, Token.contents_stripped, Table.lookup_map]
  split
  · cases arguments.lookup t.contents with
    | none => rfl
    | some a => rfl
  · rfl

theorem stripped_instantiate (t : Template) (arguments : List Token) :
    (t.instantiate arguments).map Line.stripped =
      t.stripped.instantiate (arguments.map Token.stripped) := by
  have hpairs : ((t.stripped.params.map Token.contents).zip (arguments.map Token.stripped)) =
      ((t.params.map Token.contents).zip arguments).map (Prod.map id Token.stripped) := by
    rw [← List.zip_map, List.map_id, stripped, List.map_map]
    rfl
  simp only [instantiate, hpairs]
  simp only [stripped, List.map_map, Line.stripped, Function.comp_def, stripped_substitute]

end Template

namespace SourceState

variable (m : Machine) (s : SourceState) (keyword : Token) (rest : List Token)

theorem checkLegal_stripped (line : Line) :
    Corresponds Eq (checkLegal line) (checkLegal line.stripped) := by
  induction line with
  | nil => exact ok rfl
  | cons t rest ih => exact branch (fun _ => error) fun _ => ih

theorem checkOperands_stripped (cause : TokenKind → Cause) (operands : List Token) :
    Corresponds Eq (checkOperands cause operands)
      (checkOperands cause (operands.map Token.stripped)) := by
  induction operands with
  | nil => exact ok rfl
  | cons o rest ih => exact branch (fun _ => ih) fun _ => error

theorem stripped_emit (c : Statement) : (s.emit c).stripped = s.stripped.emit c.stripped := by
  simp only [emit, stripped, List.map_append, List.map_cons, List.map_nil, Statement.stripped]

theorem strips_emit {ε : Type} {c c' : Statement} (h : c' = c.stripped) :
    Strips stripped (.ok (s.emit c) : Except ε SourceState) (.ok (s.stripped.emit c')) := by
  rw [h]
  exact ok (s.stripped_emit c).symm

theorem strips_instruction :
    Strips stripped (s.instruction m keyword rest)
      (s.stripped.instruction m keyword.stripped (rest.map Token.stripped)) := by
  unfold instruction
  rw [Token.contents_stripped]
  cases m.instruction? keyword.contents with
  | none => exact error
  | some spec =>
    refine (strips_splitOperands rest).bind ?_
    rintro operands _ _ _ rfl
    refine (checkOperands_stripped _ operands).bind fun _ _ _ _ _ => ?_
    dsimp only
    rw [List.length_map]
    exact branch (fun _ => error) fun _ => s.strips_emit rfl

theorem checkEquValue_stripped (symbol : Text) (value : Token) :
    Corresponds Eq (checkEquValue m s symbol value)
      (checkEquValue m s.stripped symbol value.stripped) := by
  unfold checkEquValue
  rw [Token.kind_stripped]
  split
  · exact ok rfl
  · rw [Token.symbol_stripped, stripped, Table.contains_mapValues]
    exact branch (fun _ => ok rfl) fun _ => error
  · exact error

theorem strips_defineEqu (name : Token) :
    Strips stripped (s.defineEqu m keyword name rest)
      (s.stripped.defineEqu m keyword.stripped name.stripped (rest.map Token.stripped)) := by
  have hpending : s.stripped.pending = s.pending.map Token.stripped := rfl
  rw [defineEqu_eq, defineEqu_eq, hpending]
  cases s.pending with
  | cons label pending => exact error
  | nil =>
    refine branch (fun _ => error) fun _ => ?_
    rcases rest with _ | ⟨value, _ | ⟨extra, rest⟩⟩
    · exact error
    · have hnames : s.stripped.equNames.find? name.symbol =
          (s.equNames.find? name.symbol).map Token.stripped := Table.find?_mapValues _ _ _
      dsimp only [List.map_cons, List.map_nil]
      rw [Token.symbol_stripped, hnames]
      cases s.equNames.find? name.symbol with
      | some previous => exact error
      | none =>
        refine (checkEquValue_stripped m s _ value).bind fun _ _ _ _ _ => ok ?_
        simp only [stripped, Table.mapValues_insert]
    · exact error

theorem checkExports_stripped (names : List Token) :
    Corresponds Eq (checkExports keyword names)
      (checkExports keyword.stripped (names.map Token.stripped)) := by
  induction names with
  | nil => exact ok rfl
  | cons o rest ih => exact branch (fun _ => ih) fun _ => error

theorem strips_exportNames :
    Strips stripped (s.exportNames keyword rest)
      (s.stripped.exportNames keyword.stripped (rest.map Token.stripped)) := by
  refine (strips_splitOperands rest).bind ?_
  rintro names _ _ _ rfl
  rw [List.isEmpty_map]
  refine branch (fun _ => error) fun _ => ?_
  refine (checkExports_stripped keyword names).bind fun _ _ _ _ _ => ok ?_
  simp only [stripped, List.map_append]

theorem sole?_stripped (accepts : TokenKind → Bool) :
    sole? accepts (rest.map Token.stripped) = (sole? accepts rest).map Token.stripped := by
  rcases rest with _ | ⟨t, _ | ⟨extra, rest⟩⟩
  · rfl
  · by_cases h : accepts t.kind <;> simp [sole?, h]
  · rfl

theorem strips_ascii :
    Strips stripped (s.ascii keyword rest)
      (s.stripped.ascii keyword.stripped (rest.map Token.stripped)) := by
  rw [ascii_eq, ascii_eq, sole?_stripped]
  cases sole? (· == .string) rest with
  | none => exact error
  | some t => exact s.strips_emit rfl

theorem strips_values (width : Int) :
    Strips stripped (s.values keyword rest width)
      (s.stripped.values keyword.stripped (rest.map Token.stripped) width) := by
  refine (strips_splitOperands rest).bind ?_
  rintro operands _ _ _ rfl
  exact (checkOperands_stripped _ operands).bind fun _ _ _ _ _ => s.strips_emit rfl

theorem strips_sized (width : Int) :
    Strips stripped (s.sized keyword rest width)
      (s.stripped.sized keyword.stripped (rest.map Token.stripped) width) := by
  unfold sized
  rw [List.isEmpty_map]
  exact branch (fun _ => error) fun _ => s.strips_values keyword rest width

theorem strips_bracketed :
    Strips (List.map Token.stripped) (bracketed keyword rest)
      (bracketed keyword.stripped (rest.map Token.stripped)) := by
  cases rest with
  | nil => exact error
  | cons first more =>
    have hlast : ((more.map Token.stripped).getLast?.getD first.stripped) =
        (more.getLast?.getD first).stripped := by
      rw [List.getLast?_map]
      cases more.getLast? with
      | none => rfl
      | some t => rfl
    rw [bracketed_eq, bracketed_eq]
    simp only [List.map_cons, hlast, ← List.map_dropLast, List.isEmpty_map]
    refine branch (fun _ => ?_) fun _ => ?_
    · exact branch (fun _ => error) fun _ => branch (fun _ => error) fun _ => ok rfl
    · exact branch (fun _ => ok rfl) fun _ => error

theorem strips_data :
    Strips stripped (s.data keyword rest)
      (s.stripped.data keyword.stripped (rest.map Token.stripped)) := by
  rw [data_eq, data_eq]
  rcases rest with _ | ⟨count, _ | ⟨first, more⟩⟩
  · exact error
  · exact error
  · refine branch (fun _ => error) fun _ => ?_
    rw [Token.contents_stripped]
    cases count.contents.toInt? with
    | none => exact error
    | some n =>
      refine branch (fun _ => ?_) fun _ => error
      have hvalues : (if first.stripped.kind = .comma then more.map Token.stripped
          else first.stripped :: more.map Token.stripped) =
          (if first.kind = .comma then more else first :: more).map Token.stripped := by
        rw [Token.kind_stripped]
        split <;> rfl
      rw [hvalues]
      refine (strips_bracketed keyword _).bind ?_
      rintro values _ _ _ rfl
      exact s.strips_values keyword values n

theorem strips_cellDirective (action : Action) :
    Strips stripped (s.cellDirective keyword action rest)
      (s.stripped.cellDirective keyword.stripped action (rest.map Token.stripped)) := by
  rw [cellDirective_eq, cellDirective_eq, sole?_stripped]
  cases sole? (fun k => k == .constant || k == .identifier) rest with
  | none => exact error
  | some t => exact s.strips_emit rfl

theorem find?_templates_stripped (name : Text) :
    s.stripped.templates.find? name = (s.templates.find? name).map Template.stripped :=
  Table.find?_mapValues _ _ _

theorem strips_startTemplate :
    Strips stripped (s.startTemplate m keyword rest)
      (s.stripped.startTemplate m keyword.stripped (rest.map Token.stripped)) := by
  rw [startTemplate_eq, startTemplate_eq]
  cases rest with
  | nil => exact error
  | cons name rest =>
    refine branch (fun _ => error) fun _ => ?_
    rw [Token.contents_stripped, find?_templates_stripped]
    cases s.templates.find? name.contents with
    | some previous => exact error
    | none =>
      refine branch (fun _ => error) fun _ => ?_
      refine (strips_splitOperands rest).bind ?_
      rintro params _ _ _ rfl
      refine (Template.checkParams_stripped name [] params).bind fun _ _ _ _ _ => ok ?_
      rfl

theorem collect_stripped (t : Template) (line : Line) :
    Corresponds Same (s.collect t line) (s.stripped.collect t.stripped line.stripped) := by
  have hmore {ε : Type} : Corresponds Same
      (.ok { s with defining := some { t with body := t.body ++ [line] } } : Except ε SourceState)
      (.ok { s.stripped with
        defining := some { t.stripped with body := t.stripped.body ++ [line.stripped] } }) := by
    refine ok ((same_stripped _).trans (congrArg stripped ?_))
    simp only [stripped, Template.stripped, Option.map_some, List.map_append, List.map_cons,
      List.map_nil]
  rw [collect_eq, collect_eq]
  cases line with
  | nil => exact hmore
  | cons head rest =>
    simp only [Line.stripped, List.map_cons, Token.kind_stripped]
    split
    · cases rest with
      | nil =>
        -- the record of the definition is left out on both sides
        have hclosed : ({ s with
              templates := s.templates.insert t.name.contents t
              defining := none } : SourceState).stripped =
            { s.stripped with
              templates := s.stripped.templates.insert t.stripped.name.contents t.stripped
              defining := none } := by
          simp only [stripped, Table.mapValues_insert, Option.map_none]
          rfl
        have hclosed := congrArg stripped hclosed
        exact ok ((same_stripped _).trans hclosed)
      | cons extra rest => exact error
    · exact error
    · exact hmore

theorem strips_expansion (t : Template) :
    Strips (List.map Line.stripped) (expansion t keyword rest)
      (expansion t.stripped keyword.stripped (rest.map Token.stripped)) := by
  rw [expansion_eq, expansion_eq]
  refine (strips_splitOperands rest).bind ?_
  rintro arguments _ _ _ rfl
  have hparams : t.stripped.params.length = t.params.length := List.length_map _
  rw [List.length_map, hparams]
  exact branch (fun _ => error) fun _ => ok (t.stripped_instantiate arguments).symm

theorem strips_plainLine :
    Strips stripped (s.plainLine m keyword rest)
      (s.stripped.plainLine m keyword.stripped (rest.map Token.stripped)) := by
  unfold plainLine
  rw [Token.kind_stripped]
  split
  · rw [equBefore_eq, equBefore_eq]
    cases rest with
    | nil => exact error
    | cons name rest => exact strips_defineEqu m s keyword rest name
  · exact strips_startTemplate m s _ _
  · exact error
  · exact s.strips_exportNames _ _
  · exact s.strips_ascii _ _
  · exact s.strips_data _ _
  · exact s.strips_sized _ _ _
  · exact s.strips_sized _ _ _
  · exact s.strips_cellDirective _ _ _
  · exact s.strips_cellDirective _ _ _
  · exact strips_instruction m s _ _
  · exact error

theorem stripped_addLabels (line : Line) :
    (s.addLabels line).stripped = s.stripped.addLabels line.stripped := by
  have htake : line.stripped.takeWhile (·.kind == .label) =
      (line.takeWhile (·.kind == .label)).map Token.stripped := List.takeWhile_map
  simp only [addLabels, htake]
  simp only [stripped, List.map_append]

theorem equLine?_stripped :
    equLine? keyword.stripped (rest.map Token.stripped) =
      (equLine? keyword rest).map (Prod.map Token.stripped (List.map Token.stripped)) := by
  cases rest with
  | nil => rfl
  | cons name rest =>
    by_cases h : keyword.kind = .identifier ∧ name.kind = .equ <;> simp [equLine?, h]

theorem fileName?_stripped :
    fileName? (rest.map Token.stripped) = (fileName? rest).map Token.stripped :=
  sole?_stripped rest _

variable {s}

theorem attempt_same {α β : Type} {R : α → β → Prop} (s s' : SourceState) {r : Except Failure α}
    {r' : Except Failure β} (h : Corresponds R r r') :
    Corresponds R (s.attempt r) (s'.attempt r') :=
  h.mapError _ _

end SourceState

/-! ## Taking a line -/

/-- The same has to be read, apart from positions. -/
inductive Demand.Same : Demand → Demand → Prop
  | nothing : Same .nothing .nothing
  | file (name : Text) (source : SourceLines) : Same (.file name source) (.file name source)
  | expansion {lines lines' : List Line} (h : lines.map Line.stripped = lines'.map Line.stripped) :
      Same (.expansion lines) (.expansion lines')

theorem Demand.Same.join {a b c : Demand} (ha : a.Same c) (hb : b.Same c) : a.Same b := by
  cases ha with
  | nothing =>
    cases hb with
    | nothing => exact .nothing
  | file name source =>
    cases hb with
    | file => exact .file name source
  | expansion ha =>
    cases hb with
    | expansion hb => exact .expansion (ha.trans hb.symm)

namespace SourceEnv

open SourceState

theorem takeLine_stripped (env : SourceEnv) (file : Text) (outer : List Text) (depth : Nat)
    (line : Line) (s : SourceState) :
    Corresponds (fun a b => a.1.Same b.1 ∧ a.2.Same b.2)
      (env.takeLine file outer depth line s)
      (env.takeLine file outer depth line.stripped s.stripped) := by
  have hdrop : line.stripped.dropWhile (·.kind == .label) =
      (line.dropWhile (·.kind == .label)).map Token.stripped := List.dropWhile_map
  have hdone {x y : Except Stop SourceState} (h : Strips stripped x y) :
      Corresponds (fun a b : SourceState × Demand => a.1.Same b.1 ∧ a.2.Same b.2)
        (x >>= fun s => pure (s, .nothing)) (y >>= fun s => pure (s, .nothing)) := by
    refine h.bind ?_
    rintro s _ _ _ rfl
    exact ok ⟨s.same_stripped, .nothing⟩
  unfold takeLine
  refine (attempt_same _ _ (checkLegal_stripped line)).bind fun _ _ _ _ _ => ?_
  rw [hdrop, ← stripped_addLabels]
  generalize s.addLabels line = s
  cases line.dropWhile (·.kind == .label) with
  | nil => exact ok ⟨s.same_stripped, .nothing⟩
  | cons head rest =>
    rw [List.map_cons]
    dsimp only
    rw [equLine?_stripped]
    cases equLine? head rest with
    | some definition => exact hdone (attempt_same _ _ (strips_defineEqu _ s _ _ head))
    | none =>
      refine branch (fun _ => ?_) fun _ => branch (fun _ => ?_) fun _ => ?_
      · rw [fileName?_stripped]
        cases fileName? rest with
        | none => exact error
        | some t =>
          refine branch (fun _ => error) fun _ => ?_
          cases env.library with
          | none => exact error
          | some lib =>
            dsimp only [Token.contents_stripped]
            cases lib.read (Path.relativeTo file t.contents) with
            | error reason => exact error
            | ok contents => exact ok ⟨s.same_stripped, .file _ _⟩
      · rw [Token.contents_stripped, find?_templates_stripped]
        cases s.templates.find? head.contents with
        | none => exact hdone (attempt_same _ _ (strips_plainLine _ s _ _))
        | some t =>
          refine branch (fun _ => error) fun _ => ?_
          refine (attempt_same _ _ (strips_expansion head rest t)).bind ?_
          rintro lines _ _ _ rfl
          refine ok ⟨s.same_stripped, .expansion ?_⟩
          rw [List.map_map, Line.stripped_comp]
      · exact hdone (attempt_same _ _ (strips_plainLine _ s _ _))

theorem takeLine_same (env : SourceEnv) (file : Text) (outer : List Text) (depth : Nat)
    {line line' : Line} {s s' : SourceState} (hline : line.stripped = line'.stripped)
    (hs : s.Same s') :
    Corresponds (fun a b => a.1.Same b.1 ∧ a.2.Same b.2)
      (env.takeLine file outer depth line s) (env.takeLine file outer depth line' s') := by
  have h := env.takeLine_stripped file outer depth line' s'
  rw [← hline, ← hs] at h
  refine (env.takeLine_stripped file outer depth line s).join h ?_
  intro a b c ha hb
  exact ⟨ha.1.trans hb.1.symm, ha.2.join hb.2⟩

end SourceEnv

/-! ## Reading -/

namespace SourceState

variable {s s' : SourceState}

theorem collect_same {t t' : Template} {line line' : Line} (hs : s.Same s')
    (ht : t.stripped = t'.stripped) (hline : line.stripped = line'.stripped) :
    Corresponds Same (s.collect t line) (s'.collect t' line') := by
  have h := s'.collect_stripped t' line'
  rw [← hline, ← ht, ← hs] at h
  exact (s.collect_stripped t line).join h fun _ _ _ ha hb => ha.trans hb.symm

/-- Either no definition is open, or the same one. -/
theorem Same.defining (hs : s.Same s') : s.defining = none ∧ s'.defining = none ∨
    ∃ t t', s.defining = some t ∧ s'.defining = some t' ∧ t.stripped = t'.stripped := by
  have h : s.defining.map Template.stripped = s'.defining.map Template.stripped :=
    congrArg SourceState.defining hs
  cases hd : s.defining with
  | none =>
    rw [hd] at h
    exact .inl ⟨rfl, Option.map_eq_none_iff.1 h.symm⟩
  | some t =>
    rw [hd] at h
    obtain ⟨t', hd', ht⟩ := Option.map_eq_some_iff.1 h.symm
    exact .inr ⟨t, t', rfl, hd', ht.symm⟩

theorem endOfFile_same (hs : s.Same s') {e e' : Option Diagnostic} (he : e.isSome = e'.isSome) :
    Corresponds Same (s.endOfFile e) (s'.endOfFile e') := by
  cases e with
  | some d =>
    obtain ⟨d', rfl⟩ := Option.isSome_iff_exists.1 he.symm
    exact error
  | none =>
    obtain rfl := Option.not_isSome_iff_eq_none.1 (ne_true_of_eq_false he.symm)
    unfold endOfFile
    rcases hs.defining with ⟨hd, hd'⟩ | ⟨t, t', hd, hd', _⟩
    · rw [hd, hd']
      exact ok hs
    · rw [hd, hd']
      exact error

end SourceState

namespace SourceEnv

open SourceState

/-- Reading lines that differ in positions only. -/
theorem reading_same (env : SourceEnv) :
    (∀ file outer lines s, ∀ lines' s', lines.map Line.stripped = lines'.map Line.stripped →
      s.Same s' →
      Corresponds Same (env.readLines (file :: outer) lines s) (env.readLines (file :: outer) lines' s')) ∧
    (∀ file outer depth line s, ∀ line' s', line.stripped = line'.stripped → s.Same s' →
      Corresponds Same (env.readLine (file :: outer) depth line s)
        (env.readLine (file :: outer) depth line' s')) ∧
    ∀ file outer depth lines s, ∀ lines' s', lines.map Line.stripped = lines'.map Line.stripped →
      s.Same s' →
      Corresponds Same (env.readExpansion (file :: outer) depth lines s)
        (env.readExpansion (file :: outer) depth lines' s') := by
  -- the induction follows one of the two; an included file is the same in both
  apply ReadingCases.all
  constructor
  · intro file outer s lines' s' hlines hs
    obtain rfl := List.map_eq_nil_iff.1 hlines.symm
    rw [readLines, readLines]
    exact ok hs
  · intro file outer line rest s t hdefining ih lines' s' hlines hs
    obtain ⟨line', rest', rfl, hline, hrest⟩ := List.map_eq_cons_iff.1 hlines.symm
    rcases hs.defining with ⟨hd, _⟩ | ⟨t₁, t', hd, hd', ht⟩
    · rw [hdefining] at hd
      cases hd
    · rw [readLines_of_defining hd, readLines_of_defining hd']
      refine (attempt_same _ _ (collect_same hs ht hline.symm)).bind ?_
      intro s₁ s₁' _ _ hs₁
      exact ih s₁ rest' s₁' hrest.symm hs₁
  · intro file outer line rest s hdefining ihLine ihRest lines' s' hlines hs
    obtain ⟨line', rest', rfl, hline, hrest⟩ := List.map_eq_cons_iff.1 hlines.symm
    rcases hs.defining with ⟨hd, hd'⟩ | ⟨t, _, hd, _⟩
    · rw [readLines_of_closed hd, readLines_of_closed hd']
      refine (ihLine line' s' hline.symm hs).bind ?_
      intro s₁ s₁' _ _ hs₁
      exact ihRest s₁ rest' s₁' hrest.symm hs₁
    · rw [hdefining] at hd
      cases hd
  · intro file outer depth line s ihFile ihExpansion line' s' hline hs
    rw [readLine_eq, readLine_eq]
    refine (env.takeLine_same file outer depth hline hs).bind ?_
    rintro ⟨taken, demand⟩ ⟨taken', demand'⟩ htake _ ⟨htaken, hdemand⟩
    dsimp only at htaken hdemand
    have hline := (lineTaken_of_takeLine htake).2
    cases hdemand with
    | nothing => exact ok htaken
    | file name source =>
      cases hline with
      | included _ _ _ _ hnew hlib hread =>
        refine (ihFile _ hnew _ hlib _ hread _ taken' rfl htaken).bind ?_
        intro s₁ s₁' _ _ hs₁
        exact endOfFile_same hs₁ rfl
    | expansion hlines =>
      cases hline with
      | expanded _ _ _ _ hdepth _ =>
        exact ihExpansion (Nat.not_le_of_lt hdepth) _ _ taken' hlines htaken
  · intro file outer depth s lines' s' hlines hs
    obtain rfl := List.map_eq_nil_iff.1 hlines.symm
    rw [readExpansion, readExpansion]
    exact ok hs
  · intro file outer depth line rest s ihLine ihRest lines' s' hlines hs
    obtain ⟨line', rest', rfl, hline, hrest⟩ := List.map_eq_cons_iff.1 hlines.symm
    rw [readExpansion, readExpansion]
    refine (ihLine line' s' hline.symm hs).bind ?_
    intro s₁ s₁' _ _ hs₁
    exact ihRest s₁ rest' s₁' hrest.symm hs₁

end SourceEnv

end CellAsm
