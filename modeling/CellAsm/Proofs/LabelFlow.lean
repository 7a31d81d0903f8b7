-- SUMMARY: Every label of a line that is read ends up on the next statement, once.
import CellAsm.Proofs.History
import CellAsm.Proofs.Operands

/-!
# Where labels go

The labels in front of a line wait for the next statement, over lines that emit nothing,
over the ends of files and of expansions. What is left at the end of the program goes on
a statement of its own. So the labels of the statements, one after the other, are those of
the lines in the order in which they were read. When labels get their addresses, their
names are the names of the table.
-/
namespace CellAsm

/-- The labels in front of a line. -/
def Line.labels (line : Line) : List Token := line.takeWhile (·.kind == .label)

namespace Moment

/-- The labels of the line that is read. -/
def labels (m : Moment) : List Token :=
  match m.line? with
  | some line => line.labels
  | none => []

theorem labels_of_line? {m : Moment} {line : Line} (h : m.line? = some line) :
    m.labels = line.labels := by
  rw [labels, h]

theorem labels_of_none {m : Moment} (h : m.line? = none) : m.labels = [] := by
  rw [labels, h]

/-- The names that the line that is read exports. -/
def exports (m : Moment) : List Token :=
  match m.line? with
  | some line => line.exports
  | none => []

/-- The labels of the lines that are read while there are `i` statements, which makes the next
one statement `i`. -/
def labelsFor (ms : List Moment) (i : Nat) : List Token :=
  (ms.filter (·.state.statements.length = i)).flatMap labels

theorem labelsFor_append (ms : List Moment) (m : Moment) (i : Nat) :
    labelsFor (ms ++ [m]) i =
      labelsFor ms i ++ if m.state.statements.length = i then m.labels else [] := by
  unfold labelsFor
  rw [List.filter_append, List.flatMap_append, List.filter_singleton]
  congr 1
  split <;> simp_all

/-- One more statement with the labels that are meant for it. -/
theorem labels_concat {ms : List Moment} {cs : List Statement} {c : Statement}
    (hcs : ∀ {i d}, cs[i]? = some d → d.labels = labelsFor ms i)
    (hc : c.labels = labelsFor ms cs.length) {i : Nat} {d : Statement}
    (hd : (cs ++ [c])[i]? = some d) : d.labels = labelsFor ms i := by
  obtain ⟨hlt, _⟩ := List.getElem?_eq_some_iff.1 hd
  rw [List.length_append, List.length_singleton] at hlt
  rcases Nat.lt_succ_iff_lt_or_eq.1 hlt with hold | rfl
  · rw [List.getElem?_append_left hold] at hd
    exact hcs hd
  · rw [List.getElem?_concat_length] at hd
    cases hd
    exact hc

end Moment

/-! ## From line to statement -/

namespace SourceEnv

variable {env : SourceEnv} {m : Moment} {ms : List Moment} {s : SourceState}

/-- At each moment the labels of the line join those that wait, and then wait as well or go on
the one statement that the line adds. -/
theorem Moves.labels (h : env.Moves m s) :
    (s.statements = m.state.statements ∧ s.pending = m.state.pending ++ m.labels) ∨
    ∃ c, s.statements = m.state.statements ++ [c] ∧ c.labels = m.state.pending ++ m.labels ∧
      s.pending = [] := by
  cases h with
  | read hline hgains =>
    rw [Moment.labels_of_line? hline]
    cases hgains with
    | waits => exact .inl ⟨rfl, rfl⟩
    | starts => exact .inl ⟨rfl, rfl⟩
    | adds _ hadds =>
      cases hadds with
      | statement c => exact .inr ⟨_, rfl, rfl, rfl⟩
      | constant => exact .inl ⟨rfl, rfl⟩
      | exports => exact .inl ⟨rfl, rfl⟩
  | collected hcollected hcollects =>
    rw [Moment.labels_of_none (Moment.of_collected? hcollected).2.2.2, List.append_nil]
    cases hcollects with
    | closes => exact .inl ⟨rfl, rfl⟩
    | keeps => exact .inl ⟨rfl, rfl⟩
  | idle hline =>
    rw [Moment.labels_of_none hline, List.append_nil]
    exact .inl ⟨rfl, rfl⟩

/-- Only the line that is read at a moment exports names. -/
theorem Moves.exports (h : env.Moves m s) : s.exports = m.state.exports ++ m.exports := by
  cases h with
  | read hline hgains =>
    rw [Moment.exports, hline]
    exact hgains.exports
  | collected hcollected hcollects =>
    rw [Moment.exports, (Moment.of_collected? hcollected).2.2.2, List.append_nil]
    cases hcollects with
    | closes => rfl
    | keeps => rfl
  | idle hline => rw [Moment.exports, hline, List.append_nil]

/-- The exported names are those of the lines in the order in which they were read. -/
theorem Run.exports (h : env.Run m ms s) (hstart : m.state.exports = []) :
    s.exports = ms.flatMap Moment.exports := by
  have hbefore : m.state.exports = ([] : List Moment).flatMap Moment.exports := hstart
  refine h.keeps (P := fun ms s => s.exports = ms.flatMap Moment.exports) ?_ hbefore
  intro before m s hbefore hmoves
  rw [hmoves.exports, hbefore, List.flatMap_append, List.flatMap_singleton]

end SourceEnv

/-- The labels of the lines read at the moments `ms` are on the statements, or still wait. -/
structure SourceState.Carries (ms : List Moment) (s : SourceState) : Prop where
  count : ∀ m ∈ ms, m.state.statements.length ≤ s.statements.length
  labels : s.labels ++ s.pending = ms.flatMap Moment.labels
  statement : ∀ {i : Nat} {c : Statement}, s.statements[i]? = some c →
    c.labels = Moment.labelsFor ms i
  pending : s.pending = Moment.labelsFor ms s.statements.length

namespace SourceState.Carries

variable {env : SourceEnv} {m : Moment} {ms : List Moment} {s s' : SourceState}

theorem start : Carries [] {} where
  count := List.forall_mem_nil _
  labels := rfl
  statement := by
    rintro i c ⟨⟩
  pending := rfl

/-- No line is read for a statement that is further off than the next. -/
theorem labelsFor_succ (h : Carries ms s) :
    Moment.labelsFor ms (s.statements.length + 1) = [] := by
  unfold Moment.labelsFor
  rw [List.filter_eq_nil_iff.2, List.flatMap_nil]
  intro m hm
  have hle := h.count m hm
  simp only [decide_eq_true_eq]
  omega

/-- A statement that is there already takes no more labels. -/
theorem statement_append (h : Carries ms m.state) {i : Nat} {c : Statement}
    (hc : m.state.statements[i]? = some c) : c.labels = Moment.labelsFor (ms ++ [m]) i := by
  obtain ⟨hlt, _⟩ := List.getElem?_eq_some_iff.1 hc
  rw [Moment.labelsFor_append, if_neg (Nat.ne_of_gt hlt), List.append_nil]
  exact h.statement hc

/-- The labels that wait behind a moment are those of the next statement. -/
theorem pending_append (h : Carries ms m.state) :
    m.state.pending ++ m.labels = Moment.labelsFor (ms ++ [m]) m.state.statements.length := by
  rw [Moment.labelsFor_append, if_pos rfl, ← h.pending]

theorem moves (h : Carries ms m.state) (hmoves : env.Moves m s) : Carries (ms ++ [m]) s := by
  have hcount : ∀ m' ∈ ms ++ [m], m'.state.statements.length ≤ m.state.statements.length :=
    List.forall_mem_append.2 ⟨h.count, List.forall_mem_singleton.2 (Nat.le_refl _)⟩
  have hall : m.state.labels ++ (m.state.pending ++ m.labels) = (ms ++ [m]).flatMap Moment.labels := by
    rw [← List.append_assoc, h.labels, List.flatMap_append, List.flatMap_singleton]
  rcases hmoves.labels with ⟨hstatements, hpending⟩ | ⟨c, hstatements, hlabels, hpending⟩
  · refine ⟨?_, ?_, ?_, ?_⟩
    · rw [hstatements]
      exact hcount
    · rw [SourceState.labels, hstatements, hpending]
      exact hall
    · rw [hstatements]
      exact h.statement_append
    · rw [hstatements, hpending]
      exact h.pending_append
  · have hlength : s.statements.length = m.state.statements.length + 1 := by
      rw [hstatements, List.length_append, List.length_singleton]
    refine ⟨?_, ?_, ?_, ?_⟩
    · intro m' hm'
      exact hlength ▸ Nat.le_succ_of_le (hcount m' hm')
    · rw [SourceState.labels, hstatements, hpending, List.append_nil, List.flatMap_append,
        List.flatMap_singleton, hlabels]
      exact hall
    · rw [hstatements]
      exact Moment.labels_concat h.statement_append (hlabels.trans h.pending_append)
    · rw [hpending, hlength, Moment.labelsFor_append, h.labelsFor_succ,
        if_neg (Nat.ne_of_lt (Nat.lt_succ_self _))]
      rfl

end SourceState.Carries

/-- The statement that takes the labels at the end of a program, if there are any. -/
def Statement.closing : List Token → List Statement
  | [] => []
  | l :: rest => [{ labels := l :: rest, action := .data, keyword := l, width := 1 }]

theorem Statement.emittedBits_closing {ls : List Token} {c : Statement} (h : c ∈ closing ls)
    (address : UInt64) (cellSize : Int) : c.emittedBits address cellSize = .ok 0 := by
  cases ls with
  | nil => cases h
  | cons l rest =>
    rw [List.mem_singleton.1 h]
    rfl

theorem SourceState.exports_closeLabels (s : SourceState) : s.closeLabels.exports = s.exports := by
  unfold closeLabels
  split
  · rfl
  · rfl

theorem SourceState.statements_closeLabels (s : SourceState) :
    s.closeLabels.statements = s.statements ++ Statement.closing s.pending := by
  unfold closeLabels
  cases hpending : s.pending with
  | nil => exact (List.append_nil _).symm
  | cons l rest =>
    simp only [SourceState.emit, hpending, Statement.closing]

namespace SourceState.Carries

variable {ms : List Moment} {s : SourceState}

theorem labels_closeLabels (h : Carries ms s) : s.closeLabels.labels = ms.flatMap Moment.labels := by
  rw [SourceState.labels, statements_closeLabels, List.flatMap_append, ← h.labels]
  cases s.pending with
  | nil => rfl
  | cons l rest => exact congrArg _ (List.flatMap_singleton _ _)

theorem statement_closeLabels (h : Carries ms s) {i : Nat} {c : Statement}
    (hc : s.closeLabels.statements[i]? = some c) : c.labels = Moment.labelsFor ms i := by
  have hpending := h.pending
  rw [statements_closeLabels] at hc
  cases hls : s.pending with
  | nil =>
    rw [hls, Statement.closing, List.append_nil] at hc
    exact h.statement hc
  | cons l rest =>
    rw [hls, Statement.closing] at hc
    exact Moment.labels_concat h.statement (hls.symm.trans hpending) hc

/-- A label is on the statement that is emitted next after its line. -/
theorem exists_statement (h : Carries ms s) {m : Moment} (hm : m ∈ ms) {l : Token}
    (hl : l ∈ m.labels) : ∃ c, s.closeLabels.statements[m.state.statements.length]? = some c ∧
      l ∈ c.labels := by
  have hfor : l ∈ Moment.labelsFor ms m.state.statements.length := by
    refine List.mem_flatMap.2 ⟨m, List.mem_filter.2 ⟨hm, ?_⟩, hl⟩
    exact decide_eq_true rfl
  have hlt : m.state.statements.length < s.closeLabels.statements.length := by
    rw [statements_closeLabels, List.length_append]
    rcases Nat.lt_or_eq_of_le (h.count m hm) with hlt | heq
    · exact Nat.lt_add_right _ hlt
    · -- No statement followed the line, so that the label still waits at the end.
      rw [heq, ← h.pending] at hfor
      have hpos : 0 < (Statement.closing s.pending).length := by
        cases hls : s.pending with
        | nil =>
          rw [hls] at hfor
          cases hfor
        | cons => exact Nat.zero_lt_one
      omega
  have hc := List.getElem?_eq_getElem hlt
  exact ⟨_, hc, h.statement_closeLabels hc ▸ hfor⟩

end SourceState.Carries

/-! ## From statement to table -/

namespace Label

variable {address : UInt64} {labels table : Table Token} {cellSize : Int}

/-- New labels are added behind those that are there. -/
theorem names_of_define {ls : List Token} (h : define address labels ls = .ok table) :
    table.names = labels.names ++ ls.map Token.symbol := by
  induction ls generalizing labels with
  | nil =>
    cases h
    rw [List.map_nil, List.append_nil]
  | cons l rest ih =>
    unfold define at h
    split at h
    · cases h
    · rename_i hnew
      rw [ih h, Table.names_insert (Table.find?_eq_none_iff.1 hnew), List.append_assoc, List.map_cons]
      rfl

theorem names_of_assignFrom {cs : List Statement}
    (h : assignFrom cellSize address labels cs = .ok table) :
    table.names = labels.names ++ (cs.flatMap Statement.labels).map Token.symbol := by
  induction cs generalizing address labels with
  | nil =>
    cases h
    exact (List.append_nil _).symm
  | cons c rest ih =>
    obtain ⟨marked, s, hmarked, _, hrest⟩ := assignFrom_cons_eq_ok.1 h
    rw [ih hrest, names_of_define hmarked, List.flatMap_cons, List.map_append, List.append_assoc]

/-- The names of the table are those of the labels, in their order. -/
theorem names_of_assign {cs : List Statement} {start : UInt64}
    (h : assign cs start cellSize = .ok table) :
    table.names = (cs.flatMap Statement.labels).map Token.symbol :=
  names_of_assignFrom h

end Label

/-- An exported name is that of a label. -/
theorem SourceState.of_checkExported {labels : List Text} {exports : List Token}
    (h : checkExported labels exports = .ok ()) : ∀ g ∈ exports, g.symbol ∈ labels := by
  induction exports with
  | nil => exact List.forall_mem_nil _
  | cons g rest ih =>
    unfold checkExported at h
    split at h
    · rename_i hlabel
      exact List.forall_mem_cons.2 ⟨hlabel, ih h⟩
    · cases h

namespace SourceEnv

variable {env : SourceEnv} {name contents : Text} {s : SourceState}

/-- No label is lost, doubled or moved. The labels of a program, statement by statement, are
those of the lines in the order in which they were read, be it in a file, an included file or
an expansion. Each is on the statement that is emitted next after its line, or on one more
statement that emits nothing, if no other follows. When the labels get their addresses, in
these statements or in others with the same labels, their names are different from each other
and from those of the constants, the table has exactly these names, and all names that the
lines export are among them. If two labels have the same name, they do not get addresses. -/
theorem parse_attaches_labels (h : env.parse name contents = .ok s) :
    (∃ ms gathered, env.Run (env.firstMoment name contents) ms gathered ∧
      s.labels = ms.flatMap Moment.labels ∧ s.exports = ms.flatMap Moment.exports ∧
      (∀ m ∈ ms, ∀ l ∈ m.labels, ∃ c,
        s.statements[m.state.statements.length]? = some c ∧ l ∈ c.labels) ∧
      (∀ i c, s.statements[i]? = some c → c.labels = Moment.labelsFor ms i) ∧
      s.statements = gathered.statements ++ Statement.closing gathered.pending ∧
      ∀ c ∈ Statement.closing gathered.pending, ∀ address cellSize,
        c.emittedBits address cellSize = .ok 0) ∧
    (∀ cs start cellSize, cs.map Statement.labels = s.statements.map Statement.labels →
      (∀ table, Label.assign cs start cellSize = .ok table →
        (s.labels.map Token.symbol).Nodup ∧ table.names = s.labels.map Token.symbol ∧
        (∀ l ∈ s.labels, s.equs.find? l.symbol = none ∧
          ∀ g ∈ env.machine.equs, g.name ≠ l.symbol) ∧
        ∀ g ∈ s.exports, g.symbol ∈ s.labels.map Token.symbol) ∧
      (¬ (s.labels.map Token.symbol).Nodup → ∃ f, Label.assign cs start cellSize = .error f)) := by
  obtain ⟨ms, gathered, hrun, rfl, hcheck⟩ := exists_run_of_parse h
  have hcarries : gathered.Carries ms := hrun.keeps SourceState.Carries.moves SourceState.Carries.start
  simp only [SourceState.checkSymbols, bind_eq_ok] at hcheck
  obtain ⟨_, hlabels, _, _, hexports⟩ := hcheck
  refine ⟨⟨ms, gathered, hrun, hcarries.labels_closeLabels, ?_, ?_, ?_, ?_, ?_⟩, ?_⟩
  · rw [gathered.exports_closeLabels]
    exact hrun.exports rfl
  · exact fun m hm l hl => hcarries.exists_statement hm hl
  · exact fun i c hc => hcarries.statement_closeLabels hc
  · exact gathered.statements_closeLabels
  · exact fun c hc => Statement.emittedBits_closing hc
  · intro cs start cellSize hsame
    have hnames {table : Table Token} (htable : Label.assign cs start cellSize = .ok table) :
        table.names = gathered.closeLabels.labels.map Token.symbol := by
      rw [SourceState.labels, List.flatMap_def, ← hsame, ← List.flatMap_def]
      exact Label.names_of_assign htable
    refine ⟨fun table htable => ?_, fun hdouble => ?_⟩
    · exact ⟨hnames htable ▸ table.distinct, hnames htable, SourceState.of_checkLabels hlabels,
        SourceState.of_checkExported hexports⟩
    · cases htable : Label.assign cs start cellSize with
      | error f => exact ⟨f, rfl⟩
      | ok table => exact absurd (hnames htable ▸ table.distinct) hdouble

end SourceEnv

namespace Sample

/-- Labels in front of an export, a definition and a call, in an expansion, at the end of an
included file and at the end of the program. -/
def labelSource : Text :=
  "a:\n .global a\nMACRO m\nin: .data 1 7\nENDM\nb: m\n .include \"f\"\nend:\n"

/-- Two labels of the same name. -/
def doubledSource : Text := "a:\na: .data 1 1\n"

def labelEnv : SourceEnv :=
  ⟨assembler.machine, some (.ofTable (.ofList [("f", "c: .data 1 1\nd:\n")]))⟩

/-- What the source is read as. -/
def labelled : SourceState := (labelEnv.parsedAfter? "main" labelSource 16).getD {}

theorem labels_attached : labelEnv.parse "main" labelSource = .ok labelled ∧
    labelled.statements.map (fun c => c.labels.map Token.contents) =
      ([["a:", "b:", "in:"], ["c:"], ["d:", "end:"]] : List (List Text)) ∧
    (∃ ms gathered, labelEnv.Run (labelEnv.firstMoment "main" labelSource) ms gathered ∧
      labelled.labels = ms.flatMap Moment.labels ∧
      labelled.exports = ms.flatMap Moment.exports) ∧
    labelled.exports.map Token.contents = ["a"] ∧ (labelled.labels.map Token.symbol).Nodup ∧
    (∃ table, Label.assign labelled.statements 0 8 = .ok table ∧
      table.names = labelled.labels.map Token.symbol) ∧
    ∃ f, Label.assign (read doubledSource).statements 0 8 = .error f := by
  obtain ⟨hread, hlabelled, hexported, hassigned⟩ :
      labelEnv.parsedAfter? "main" labelSource 16 = some labelled ∧
      labelled.statements.map (fun c => c.labels.map Token.contents) =
        ([["a:", "b:", "in:"], ["c:"], ["d:", "end:"]] : List (List Text)) ∧
      labelled.exports.map Token.contents = ["a"] ∧
      (Label.assign labelled.statements 0 8).toOption.isSome := by decide +kernel
  have hparse := SourceEnv.parse_of_parsedAfter? hread
  obtain ⟨⟨ms, gathered, hrun, hlabels, hexports, _⟩, hassign⟩ :=
    SourceEnv.parse_attaches_labels hparse
  obtain ⟨table, htable⟩ := Option.isSome_iff_exists.1 hassigned
  have htable := toOption_eq_some.1 htable
  obtain ⟨hnodup, hnames, _⟩ := (hassign _ 0 8 rfl).1 table htable
  have hplain : (SourceState.plainParse? assembler.machine "sample" doubledSource).isSome := by
    decide +kernel
  have hdouble := SourceEnv.parse_attaches_labels (parse_eq_read hplain)
  exact ⟨hparse, hlabelled, ⟨ms, gathered, hrun, hlabels, hexports⟩, hexported, hnodup,
    ⟨table, htable, hnames⟩,
    (hdouble.2 _ 0 8 rfl).2 (by decide +kernel)⟩

end Sample

end CellAsm
