-- SUMMARY: The stages of an assembly, and what each statement goes through in them.
import CellAsm.Program
import CellAsm.Proofs.Passes

/-!
# Stages of an assembly

After reading, constants are replaced and labels get their addresses. From then on
every statement has its place, and the rest of the assembly treats each statement
on its own: its names are replaced and its cells are packed. A program that was
assembled is traced back through these stages, statement by statement.
-/
namespace CellAsm

open Statement

variable {env : SourceEnv} {name contents : Text} {start : UInt64}

/-! ## From the source to addresses -/

/-- A source that was read as `s`, with constants `equs` replaced in its statements
`cs`, and with addresses for its labels. -/
structure SourceEnv.Addressed (env : SourceEnv) (name contents : Text) (start : UInt64)
    (s : SourceState) (cs : List Statement) (equs labels : Table Token) : Prop where
  read : env.parse name contents = .ok s
  constants : Equ.resolve s.statements s.equs env.machine.equs = .ok (cs, equs)
  labels : Label.assign cs start env.machine.cellSize = .ok labels

namespace SourceEnv.Addressed

variable {s : SourceState} {cs : List Statement} {equs labels : Table Token}

theorem replaced (h : env.Addressed name contents start s cs equs labels) :
    cs = s.statements.map (Equ.replaceIn equs) :=
  have hread := (wellFormed_of_parse h.read).1
  (Equ.of_resolve hread.statements hread.equs h.constants).1

theorem wellFormed (h : env.Addressed name contents start s cs equs labels) :
    ∀ c ∈ cs, c.WellFormed env.machine :=
  have hread := (wellFormed_of_parse h.read).1
  (Equ.of_resolve hread.statements hread.equs h.constants).2.1

theorem isNumeral (h : env.Addressed name contents start s cs equs labels) :
    labels.All Token.IsNumeral :=
  Label.all_of_assignFrom h.labels (Table.All.empty _)

theorem exists_layout (h : env.Addressed name contents start s cs equs labels) :
    ∃ spans, layout env.machine.cellSize start cs = .ok spans :=
  Label.layout_of_assignFrom h.labels

/-- Once there are addresses, names are replaced and cells are packed statement by
statement. -/
theorem result_eq (h : env.Addressed name contents start s cs equs labels) {spans : List Span}
    (hlayout : layout env.machine.cellSize start cs = .ok spans) :
    (env.assemble name contents start).result = do
      let rs ← (cs.zip spans).mapM fun (c, s) => Label.replaceNames labels s.address s.next c
      let blocks ← (rs.zip spans).mapM fun (r, s) =>
        Code.block r s.address s.bits env.machine.cellSize
      return {
        blocks := blocks, statements := rs, labels := labels, equs := equs
        exports := s.exports.map Token.symbol, start := start } := by
  simp only [assemble, h.read, finish, h.constants, ok_bind, h.labels, Label.replace,
    Label.replaceFrom_eq labels hlayout]
  cases hnames : (cs.zip spans).mapM fun (c, s) => Label.replaceNames labels s.address s.next c with
  | error f => rfl
  | ok rs =>
    have hafter := layout_replaceNames h.wellFormed hlayout hnames
    simp only [ok_bind, pure_eq, Code.generate, Code.generateFrom_eq hafter]
    cases (rs.zip spans).mapM fun (r, s) => Code.block r s.address s.bits env.machine.cellSize with
    | error f => rfl
    | ok blocks => rfl

end SourceEnv.Addressed

theorem SourceEnv.addressed_of_assemble {p : Program}
    (h : (env.assemble name contents start).result = .ok p) :
    ∃ s cs, env.Addressed name contents start s cs p.equs p.labels := by
  unfold assemble at h
  split at h
  · cases h
  · rename_i s hread
    simp only [finish] at h
    split at h
    · cases h
    · rename_i rs equs labels hnamed
      simp only [bind_eq_ok, pure_eq_ok, Prod.mk.injEq] at hnamed
      obtain ⟨⟨cs, equs'⟩, hconstants, labels', hlabels, _, _, _, rfl, rfl⟩ := hnamed
      split at h
      · cases h
      · cases h
        exact ⟨s, cs, hread, hconstants, hlabels⟩

/-! ## From addresses to code -/

/-- A program whose statements come from `cs` and lie in the places `spans`. -/
structure Program.Placed (m : Machine) (start : UInt64) (cs : List Statement) (spans : List Span)
    (p : Program) : Prop where
  before : layout m.cellSize start cs = .ok spans
  after : layout m.cellSize start p.statements = .ok spans
  names : (cs.zip spans).mapM (fun (c, s) => Label.replaceNames p.labels s.address s.next c) =
    .ok p.statements
  code : (p.statements.zip spans).mapM (fun (r, s) => Code.block r s.address s.bits m.cellSize) =
    .ok p.blocks

/-- The source was read as `s` and its program is `p`, which comes from the
statements `cs` in the places `spans`. -/
structure SourceEnv.Assembled (env : SourceEnv) (name contents : Text) (start : UInt64)
    (s : SourceState) (cs : List Statement) (spans : List Span) (p : Program) : Prop where
  addressed : env.Addressed name contents start s cs p.equs p.labels
  placed : p.Placed env.machine start cs spans

theorem SourceEnv.Addressed.assembled {s : SourceState} {cs : List Statement}
    {equs labels : Table Token} (h : env.Addressed name contents start s cs equs labels)
    {spans : List Span} (hlayout : layout env.machine.cellSize start cs = .ok spans) {p : Program}
    (hp : (env.assemble name contents start).result = .ok p) :
    env.Assembled name contents start s cs spans p := by
  rw [h.result_eq hlayout] at hp
  simp only [bind_eq_ok, pure_eq_ok] at hp
  obtain ⟨rs, hnames, blocks, hcode, rfl⟩ := hp
  exact ⟨h, hlayout, layout_replaceNames h.wellFormed hlayout hnames, hnames, hcode⟩

theorem Assembler.assembleSource_snd (a : Assembler) (library : Library) (name contents : Text)
    (start : UInt64) : (a.assembleSource library name contents start).2 =
      SourceEnv.assemble ⟨a.machine, some library⟩ name contents start := by
  simp only [assembleSource]
  split <;> rfl

/-- Every program that is assembled goes through the stages. -/
theorem Assembler.assembled_of_assembleSource {a : Assembler} {library : Library} {p : Program}
    (h : (a.assembleSource library name contents start).2.result = .ok p) :
    ∃ s cs spans, SourceEnv.Assembled ⟨a.machine, some library⟩ name contents start s cs spans p := by
  rw [assembleSource_snd] at h
  obtain ⟨s, cs, haddressed⟩ := SourceEnv.addressed_of_assemble h
  obtain ⟨spans, hlayout⟩ := haddressed.exists_layout
  exact ⟨s, cs, spans, haddressed.assembled hlayout h⟩

/-- One statement on its way: `c` at the place `s` becomes `r` and fills `b`. -/
structure Statement.Trace (m : Machine) (labels : Table Token) (c r : Statement) (s : Span)
    (b : Block) : Prop where
  place : c.span m.cellSize s.address = .ok s
  names : Label.replaceNames labels s.address s.next c = .ok r
  code : Code.block r s.address s.bits m.cellSize = .ok b

namespace Program.Placed

variable {m : Machine} {cs : List Statement} {spans : List Span} {p : Program}

theorem trace_of_block (h : p.Placed m start cs spans) {i : Nat} {b : Block}
    (hi : p.blocks[i]? = some b) : ∃ c r s,
      cs[i]? = some c ∧ p.statements[i]? = some r ∧ spans[i]? = some s ∧
      Trace m p.labels c r s b := by
  obtain ⟨⟨r, s⟩, hrs, hcode⟩ := forall₂_getElem?_right (mapM_eq_ok.1 h.code) hi
  obtain ⟨hr, hs⟩ := List.getElem?_zip_eq_some.1 hrs
  obtain ⟨⟨c, s'⟩, hcs, hnames⟩ := forall₂_getElem?_right (mapM_eq_ok.1 h.names) hr
  obtain ⟨hc, hs'⟩ := List.getElem?_zip_eq_some.1 hcs
  obtain rfl : s = s' := Option.some.inj (hs.symm.trans hs')
  obtain ⟨s', hs', hplace⟩ := forall₂_getElem?_left (forall₂_of_layout h.before) hc
  obtain rfl : s = s' := Option.some.inj (hs.symm.trans hs')
  exact ⟨c, r, s, hc, hr, hs, hplace, hnames, hcode⟩

theorem lengths (h : p.Placed m start cs spans) :
    spans.length = cs.length ∧ p.statements.length = cs.length ∧ p.blocks.length = cs.length := by
  have hspans := (forall₂_of_layout h.before).length_eq
  have hnames := (mapM_eq_ok.1 h.names).length_eq
  have hcode := (mapM_eq_ok.1 h.code).length_eq
  rw [List.length_zip] at hnames hcode
  omega

theorem trace_of_statement (h : p.Placed m start cs spans) {i : Nat} {c : Statement}
    (hc : cs[i]? = some c) : ∃ r s b,
      p.statements[i]? = some r ∧ spans[i]? = some s ∧ p.blocks[i]? = some b ∧
      Trace m p.labels c r s b := by
  obtain ⟨hlt, _⟩ := List.getElem?_eq_some_iff.1 hc
  have hb := List.getElem?_eq_getElem (h.lengths.2.2.symm ▸ hlt)
  obtain ⟨c', r, s, hc', hr, hs, htrace⟩ := h.trace_of_block hb
  obtain rfl : c = c' := Option.some.inj (hc.symm.trans hc')
  exact ⟨r, s, _, hr, hs, hb, htrace⟩

end Program.Placed

end CellAsm
