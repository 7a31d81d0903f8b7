-- SUMMARY: Blocks lie one after the other, and every pass finds them at the same addresses.
import CellAsm.Proofs.PlainSource

/-!
# Placement of code

The code of a program has one block for each statement, and the blocks lie one
after the other from the first address on. Labels are addressed before names are
replaced, and code is generated after that; each of these passes counts addresses
anew. The main statement says that they agree at every statement, and that a label
therefore has the address of the block it stands on.
-/
namespace CellAsm

open Statement

/-- The cells of all blocks together. -/
def Block.total (blocks : List Block) : Nat := (blocks.map (·.cells.length)).sum

/-- The code of a program with statements `source` lies in order from `start` on. -/
structure Program.InOrder (cellSize : Int) (start : UInt64) (source : List Statement)
    (p : Program) : Prop where
  /-- The statements are those of the source with other operands. -/
  statements : List.Forall₂ (fun c r => r = { c with operands := r.operands }) source p.statements
  /-- Each statement has one block. -/
  blocks : List.Forall₂ (fun r b => b.source = r.keyword ∧ b.operands = r.operands)
    p.statements p.blocks
  /-- A block lies behind the cells of all blocks before it. -/
  address : ∀ {i b}, p.blocks[i]? = some b →
    b.address.toNat = start.toNat + Block.total (p.blocks.take i)
  length : ∀ b ∈ p.blocks, b.length = cellSize * b.cells.length
  total : start.toNat + Block.total p.blocks ≤ 2 ^ 64 - 1
  /-- A label has the address of the block it stands on. -/
  labels : ∀ {i : Nat} {c : Statement} {b : Block}, source[i]? = some c → p.blocks[i]? = some b →
    ∀ l ∈ c.labels, p.labels.find? l.symbol = some (Label.mark b.address l)

/-- The passes over the statements `cs`, whose names become those of the program,
reach each statement at the address of its block. -/
structure Program.PassesAgree (cellSize : Int) (start : UInt64) (cs : List Statement)
    (p : Program) : Prop where
  /-- Addresses counted before names are replaced. -/
  before : (layout cellSize start cs).map (·.map Span.address) = .ok (p.blocks.map Block.address)
  /-- Addresses counted after that. -/
  after : (layout cellSize start p.statements).map (·.map Span.address) =
    .ok (p.blocks.map Block.address)
  assign : ∀ {i b}, p.blocks[i]? = some b → ∃ marked,
    Label.assign (cs.take i) start cellSize = .ok marked ∧
    Label.assignFrom cellSize b.address marked (cs.drop i) = .ok p.labels
  replace : ∀ {i b}, p.blocks[i]? = some b →
    Label.replaceFrom p.labels cellSize b.address (cs.drop i) = .ok (p.statements.drop i)
  generate : ∀ {i b}, p.blocks[i]? = some b →
    Code.generateFrom cellSize b.address (p.statements.drop i) = .ok (p.blocks.drop i)

/-! ## Blocks and places -/

theorem map_eq_map_of_forall₂ {α β γ : Type} {f : α → γ} {g : β → γ} {l : List α} {r : List β}
    (h : List.Forall₂ (fun a b => f a = g b) l r) : l.map f = r.map g := by
  rw [← List.forall₂_eq_eq_eq, List.forall₂_map_left_iff, List.forall₂_map_right_iff]
  exact h

namespace Program.Placed

variable {m : Machine} {start : UInt64} {cs : List Statement} {spans : List Span} {p : Program}

/-- The block of a statement fills its place. -/
theorem forall₂_spans (hm : m.Valid) (h : p.Placed m start cs spans) :
    List.Forall₂ (fun s b => s.address = b.address ∧ s.bits = b.length ∧
      s.cells m.cellSize = b.cells.length) spans p.blocks := by
  have hlengths := h.lengths
  refine forall₂_of_getElem? (by omega) fun {i s b} hs hb => ?_
  obtain ⟨_, _, s', _, _, hs', htrace⟩ := h.trace_of_block hb
  obtain rfl : s = s' := Option.some.inj (hs.symm.trans hs')
  obtain ⟨_, _, _, hblock⟩ := Code.of_block hm htrace.code
  simp only [hblock, Packed.length_cut, Span.cells, and_self]

theorem map_address (hm : m.Valid) (h : p.Placed m start cs spans) :
    spans.map Span.address = p.blocks.map Block.address :=
  map_eq_map_of_forall₂ ((h.forall₂_spans hm).imp fun _ _ hsb => hsb.1)

theorem map_cells (hm : m.Valid) (h : p.Placed m start cs spans) :
    spans.map (Span.cells m.cellSize) = p.blocks.map (·.cells.length) :=
  map_eq_map_of_forall₂ ((h.forall₂_spans hm).imp fun _ _ hsb => hsb.2.2)

theorem span_of_block (hm : m.Valid) (h : p.Placed m start cs spans) {i : Nat} {b : Block}
    (hi : p.blocks[i]? = some b) : ∃ s, spans[i]? = some s ∧ s.address = b.address := by
  obtain ⟨s, hs, hsb⟩ := forall₂_getElem?_right (h.forall₂_spans hm) hi
  exact ⟨s, hs, hsb.1⟩

/-- Each pass reaches a statement at the address of its block. -/
theorem passesAgree (hm : m.Valid) (h : p.Placed m start cs spans)
    (hlabels : Label.assign cs start m.cellSize = .ok p.labels) :
    p.PassesAgree m.cellSize start cs where
  before := by rw [h.before, ← h.map_address hm]; rfl
  after := by rw [h.after, ← h.map_address hm]; rfl
  assign := by
    intro i b hi
    obtain ⟨s, hs, haddress⟩ := h.span_of_block hm hi
    rw [← haddress]
    exact Label.assignFrom_drop hlabels h.before hs
  replace := by
    intro i b hi
    obtain ⟨s, hs, haddress⟩ := h.span_of_block hm hi
    rw [← haddress, Label.replaceFrom_eq _ (layout_drop h.before hs), mapM_eq_ok, List.zip,
      ← List.drop_zipWith]
    exact List.forall₂_drop i (mapM_eq_ok.1 h.names)
  generate := by
    intro i b hi
    obtain ⟨s, hs, haddress⟩ := h.span_of_block hm hi
    rw [← haddress, Code.generateFrom_eq (layout_drop h.after hs), mapM_eq_ok, List.zip,
      ← List.drop_zipWith]
    exact List.forall₂_drop i (mapM_eq_ok.1 h.code)

theorem address_eq (hm : m.Valid) (h : p.Placed m start cs spans)
    (hcs : ∀ c ∈ cs, c.WellFormed m) {i : Nat} {b : Block} (hi : p.blocks[i]? = some b) :
    b.address.toNat = start.toNat + Block.total (p.blocks.take i) := by
  obtain ⟨s, hs, haddress⟩ := h.span_of_block hm hi
  rw [← haddress, address_of_layout h.before (exact_of_layout hm hcs h.before) hs, Block.total,
    List.map_take, List.map_take, h.map_cells hm]

theorem inOrder (hm : m.Valid) (h : p.Placed m start cs spans) (hcs : ∀ c ∈ cs, c.WellFormed m)
    (hlabels : Label.assign cs start m.cellSize = .ok p.labels) : p.InOrder m.cellSize start cs where
  statements := by
    refine forall₂_of_getElem? h.lengths.2.1.symm fun {i c r} hc hr => ?_
    obtain ⟨r', _, _, hr', _, _, htrace⟩ := h.trace_of_statement hc
    obtain rfl : r = r' := Option.some.inj (hr.symm.trans hr')
    exact Label.of_replaceNames htrace.names
  blocks := by
    have hlengths := h.lengths
    refine forall₂_of_getElem? (by omega) fun {i r b} hr hb => ?_
    obtain ⟨_, r', _, _, hr', _, htrace⟩ := h.trace_of_block hb
    obtain rfl : r = r' := Option.some.inj (hr.symm.trans hr')
    obtain ⟨_, _, _, hblock⟩ := Code.of_block hm htrace.code
    simp only [hblock, and_self]
  address := h.address_eq hm hcs
  length := by
    intro b hb
    obtain ⟨i, hi⟩ := List.mem_iff_getElem?.1 hb
    obtain ⟨s, hs, _, hbits, hcells⟩ := forall₂_getElem?_right (h.forall₂_spans hm) hi
    have hexact := exact_of_layout hm hcs h.before s (List.mem_of_getElem? hs)
    rw [← hbits, ← hcells]
    exact hexact.bits_eq
  total := by
    rw [Block.total, ← h.map_cells hm]
    exact total_of_layout h.before (exact_of_layout hm hcs h.before)
  labels := by
    intro i c b hc hi l hl
    obtain ⟨s, hs, haddress⟩ := h.span_of_block hm hi
    rw [← haddress]
    exact Label.find?_of_mem_labels hlabels h.before hc hs hl

end Program.Placed

/-- Replacing constants first makes no difference to the order. -/
theorem Program.InOrder.of_replaceIn {cellSize : Int} {start : UInt64} {source : List Statement}
    {equs : Table Token} {p : Program}
    (h : p.InOrder cellSize start (source.map (Equ.replaceIn equs))) :
    p.InOrder cellSize start source where
  statements := by
    refine (List.forall₂_map_left_iff.1 h.statements).imp fun c r hr => ?_
    rw [hr]
    rfl
  blocks := h.blocks
  address := h.address
  length := h.length
  total := h.total
  labels := by
    intro i c b hc hb l hl
    have hreplaced : (source.map (Equ.replaceIn equs))[i]? = some (Equ.replaceIn equs c) := by
      rw [List.getElem?_map, hc]
      rfl
    exact h.labels hreplaced hb l hl

/-- Whatever is assembled lies in order, and the passes agree on where. -/
theorem Assembler.assembleSource_placement {a : Assembler} {m : Option Machine}
    (haccept : accept m = .ok a.machine) {library : Library} {name contents : Text}
    {start : UInt64} {p : Program}
    (hrun : (a.assembleSource library name contents start).2.result = .ok p) : ∃ s cs,
      SourceEnv.parse ⟨a.machine, some library⟩ name contents = .ok s ∧
      Equ.resolve s.statements s.equs a.machine.equs = .ok (cs, p.equs) ∧
      p.InOrder a.machine.cellSize start s.statements ∧
      p.PassesAgree a.machine.cellSize start cs := by
  have hm := valid_of_accept haccept
  obtain ⟨s, cs, spans, h, hplaced⟩ := assembled_of_assembleSource hrun
  refine ⟨s, cs, h.read, h.constants, ?_, hplaced.passesAgree hm h.labels⟩
  have horder := hplaced.inOrder hm h.wellFormed h.labels
  rw [h.replaced] at horder
  exact horder.of_replaceIn

/-- The blocks of the sample, from address 5 on. -/
theorem Sample.placement : ∃ p s cs,
    (assembler.assembleSource library "sample" source 5).2.result = .ok p ∧
    p.blocks.map (·.address) = [5, 7, 8, 10, 12, 16] ∧
    SourceEnv.parse ⟨assembler.machine, some library⟩ "sample" source = .ok s ∧
    Equ.resolve s.statements s.equs assembler.machine.equs = .ok (cs, p.equs) ∧
    p.InOrder assembler.machine.cellSize 5 s.statements ∧
    p.PassesAgree assembler.machine.cellSize 5 cs := by
  have hplain : (plainAssemble? assembler.machine "sample" source 5).map
      (fun p => p.blocks.map (·.address)) = some [5, 7, 8, 10, 12, 16] := by decide +kernel
  obtain ⟨p, hp, haddresses⟩ := Option.map_eq_some_iff.1 hplain
  have hrun := Assembler.assembleSource_of_plainAssemble? library hp
  obtain ⟨s, cs, h⟩ := Assembler.assembleSource_placement accepted hrun
  exact ⟨p, s, cs, hrun, haddresses, h⟩

end CellAsm
