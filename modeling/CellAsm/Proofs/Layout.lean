-- SUMMARY: Where the statements of a program lie, counted in whole cells.
import CellAsm.Layout
import CellAsm.Proofs.Constants
import Mathlib.Algebra.Order.BigOperators.Group.List
import Mathlib.Tactic.Linarith
import Mathlib.Tactic.Positivity

/-!
# Places of statements

Statements lie one after the other. The place of a statement follows from its own
length and from the address it is put at, and the places of all statements follow
from the first address. Every length is a whole number of cells, so the address of
a statement is the first address and the cells before it, without wrapping.
-/
namespace CellAsm

/-- The place of a statement: its first cell, its bits and the cell behind it. -/
structure Span where
  address : UInt64
  bits : Int
  next : UInt64
deriving DecidableEq, Repr

/-- The cells that a place takes up. -/
def Span.cells (cellSize : Int) (s : Span) : Nat := s.bits.toNat / cellSize.toNat

/-- A place of whole cells that ends within the address space. -/
structure Span.Exact (cellSize : Int) (s : Span) : Prop where
  bits_eq : s.bits = cellSize * s.cells cellSize
  next_eq : s.next.toNat = s.address.toNat + s.cells cellSize

namespace Statement

/-- The place of a statement that is put at an address. -/
def span (cellSize : Int) (address : UInt64) (c : Statement) : Except Failure Span := do
  let n ← c.lengthInBits address cellSize
  let next ← c.advance address n cellSize
  return ⟨address, n, next⟩

/-- The places of statements that are put one after the other from an address on. -/
def layout (cellSize : Int) : UInt64 → List Statement → Except Failure (List Span)
  | _, [] => .ok []
  | address, c :: rest => do
    let s ← c.span cellSize address
    return s :: (← layout cellSize s.next rest)

theorem span_eq_ok {cellSize : Int} {address : UInt64} {c : Statement} {s : Span} :
    c.span cellSize address = .ok s ↔ s.address = address ∧
      c.lengthInBits address cellSize = .ok s.bits ∧
      c.advance address s.bits cellSize = .ok s.next := by
  simp only [span, bind_eq_ok, pure_eq_ok]
  constructor
  · rintro ⟨n, hn, next, hnext, rfl⟩
    exact ⟨rfl, hn, hnext⟩
  · rintro ⟨rfl, hn, hnext⟩
    exact ⟨s.bits, hn, s.next, hnext, rfl⟩

theorem layout_cons_eq_ok {cellSize : Int} {address : UInt64} {c : Statement}
    {rest : List Statement} {spans : List Span} :
    layout cellSize address (c :: rest) = .ok spans ↔ ∃ s more,
      c.span cellSize address = .ok s ∧ layout cellSize s.next rest = .ok more ∧
      spans = s :: more := by
  simp only [layout, bind_eq_ok, pure_eq_ok]
  constructor
  · rintro ⟨s, hs, more, hmore, rfl⟩
    exact ⟨s, more, hs, hmore, rfl⟩
  · rintro ⟨s, more, hs, hmore, rfl⟩
    exact ⟨s, hs, more, hmore, rfl⟩

/-! ## Lengths are whole numbers of cells -/

/-- The operand of an alignment or position is a constant that holds its value. -/
theorem of_soleCell {c : Statement} {o : Token} {v : UInt64} (h : c.soleCell = .ok (o, v)) :
    c.operands = [o] ∧ o.kind = .constant := by
  unfold soleCell at h
  split at h
  · rename_i o' hoperands
    split at h
    · cases h
    · rename_i hkind
      split at h
      · cases h
      · split at h
        · cases h
        · cases h
          exact ⟨hoperands, not_not.1 hkind⟩
  · cases h

/-- No more cells are filled than can be counted. -/
theorem fill_nonneg {m : Machine} (hm : m.Valid) {c : Statement} {o : Token} {cells : UInt64}
    {n : Int} (h : c.fillFor o cells m.cellSize = .ok n) : 0 ≤ n := by
  unfold fillFor at h
  split at h
  · cases h
  · rename_i hcells
    cases h
    have hle : cells.toNat * m.cellSize ≤ 2 ^ 24 * 64 := by
      have hmax : (cells.toNat : Int) ≤ 2 ^ 24 := by
        rw [maxFillCells] at hcells
        omega
      have := hm.cellSize_pos
      exact mul_le_mul hmax hm.cellSize_le (by omega) (by norm_num)
    have hnonneg : 0 ≤ cells.toNat * m.cellSize := by
      have := hm.cellSize_pos
      positivity
    rw [Int.bmod_eq_of_le (by omega) (by omega)]
    exact hnonneg

/-- An alignment or position fills cells that its operand asks for. -/
theorem of_emittedBits {c : Statement} (haction : c.action = .align ∨ c.action = .pos)
    {address : UInt64} {cellSize n : Int} (h : c.emittedBits address cellSize = .ok n) :
    ∃ o v cells, c.soleCell = .ok (o, v) ∧ c.fillFor o cells cellSize = .ok n := by
  rcases haction with haction | haction
  · rw [emittedBits_align haction, bind_eq_ok] at h
    obtain ⟨⟨o, v⟩, hv, h⟩ := h
    split at h
    · cases h
    · exact ⟨o, v, _, hv, h⟩
  · rw [emittedBits_pos haction, bind_eq_ok] at h
    obtain ⟨⟨o, v⟩, hv, h⟩ := h
    split at h
    · cases h
    · exact ⟨o, v, _, hv, h⟩

/-- The widths of data are added without wrapping. -/
theorem totalWidth_data (operands : List Token) {width : Int} (h : 1 ≤ width ∧ width ≤ 8) :
    totalWidth (operands.map fun _ => 8 * width) = operands.length * (8 * width) := by
  have hsmall : (operands.map fun _ => 8 * width).all (·.natAbs < 2 ^ 32) = true := by
    simp only [List.all_map, List.all_eq_true, Function.comp_apply, decide_eq_true_eq]
    intro _ _
    omega
  rw [totalWidth, if_pos hsmall, List.map_const', List.sum_replicate, nsmul_eq_mul]

theorem emittedBits_nonneg {m : Machine} (hm : m.Valid) {P : Token → Prop} {c : Statement}
    (hc : c.Formed m P) {address : UInt64} {n : Int} (h : c.emittedBits address m.cellSize = .ok n) : 0 ≤ n := by
  cases hc with
  | @instruction _ spec _ _ hspec =>
    obtain ⟨f, fs, hvalid⟩ := hm.instructions spec hspec
    simp only [emittedBits, Except.ok.injEq] at h
    rw [← h, hvalid.lengthInBits_eq]
    refine List.sum_nonneg (List.forall_mem_map.2 (List.forall_mem_cons.2 ⟨?_, ?_⟩))
    · exact hvalid.opcodeBits.1.le
    · exact fun g hg => (hvalid.operandBits g hg).1
  | @data _ _ operands width _ hwidth =>
    simp only [emittedBits, Except.ok.injEq] at h
    rw [← h, totalWidth_data operands hwidth]
    have := hwidth.1
    positivity
  | ascii =>
    simp only [emittedBits, Except.ok.injEq] at h
    rw [← h]
    refine List.sum_nonneg (List.forall_mem_map.2 fun _ _ => ?_)
    omega
  | cell haction =>
    obtain ⟨_, _, _, _, hfill⟩ := of_emittedBits haction h
    exact fill_nonneg hm hfill

theorem emittedBits_of_span {c : Statement} {cellSize : Int} {address : UInt64} {s : Span}
    (h : c.span cellSize address = .ok s) :
    c.emittedBits address cellSize = .ok s.bits ∧ s.bits.tmod cellSize = 0 := by
  obtain ⟨_, hbits, _⟩ := span_eq_ok.1 h
  rw [lengthInBits_eq, bind_eq_ok] at hbits
  obtain ⟨n, hn, hbits⟩ := hbits
  split at hbits
  · cases hbits
  · split at hbits
    · rename_i hwhole
      cases hbits
      exact ⟨hn, hwhole⟩
    · cases hbits

/-- The cells of a length that is not negative are counted without wrapping. -/
theorem cellCount_eq {cellSize : Int} (hpos : 0 < cellSize) {s : Span} (hnonneg : 0 ≤ s.bits) :
    (s.cells cellSize : Int) = s.bits / cellSize ∧
      cellCount s.bits cellSize = s.cells cellSize := by
  have hcells : (s.cells cellSize : Int) = s.bits / cellSize := by
    rw [Span.cells, Int.natCast_ediv, Int.toNat_of_nonneg hnonneg, Int.toNat_of_nonneg (by omega)]
  refine ⟨hcells, ?_⟩
  have hquot : s.bits.tdiv cellSize = s.cells cellSize := by
    rw [hcells, Int.tdiv_eq_ediv_of_nonneg hnonneg]
  rw [cellCount, hquot]
  exact if_neg (by omega)

/-- Every statement takes whole cells, and they end within the address space. -/
theorem exact_of_span {m : Machine} (hm : m.Valid) {P : Token → Prop} {c : Statement}
    (hc : c.Formed m P) {address : UInt64} {s : Span} (h : c.span m.cellSize address = .ok s) : s.Exact m.cellSize := by
  obtain ⟨rfl, _, hnext⟩ := span_eq_ok.1 h
  obtain ⟨hbits, hwhole⟩ := emittedBits_of_span h
  obtain ⟨hcells, hcount⟩ := cellCount_eq hm.cellSize_pos (emittedBits_nonneg hm hc hbits)
  refine ⟨?_, ?_⟩
  · rw [hcells]
    exact (Int.mul_ediv_cancel' (Int.dvd_of_tmod_eq_zero hwhole)).symm
  · rw [advance_eq hm.cellSize_ne_zero, hcount] at hnext
    split at hnext
    · rename_i hfits
      simp only [Except.ok.injEq] at hnext
      rw [← hnext, UInt64.toNat_ofNat_of_lt' (by rw [UInt64.size]; omega)]
      omega
    · cases hnext

/-! ## Addresses -/

theorem forall₂_of_layout {cellSize : Int} {start : UInt64} {cs : List Statement}
    {spans : List Span} (h : layout cellSize start cs = .ok spans) :
    List.Forall₂ (fun c s => c.span cellSize s.address = .ok s) cs spans := by
  induction cs generalizing start spans with
  | nil =>
    cases h
    exact .nil
  | cons c rest ih =>
    obtain ⟨s, more, hs, hmore, rfl⟩ := layout_cons_eq_ok.1 h
    have haddress := (span_eq_ok.1 hs).1
    exact .cons (haddress ▸ hs) (ih hmore)

theorem exact_of_layout {m : Machine} (hm : m.Valid) {start : UInt64} {cs : List Statement}
    {spans : List Span} (hcs : ∀ c ∈ cs, c.WellFormed m)
    (h : layout m.cellSize start cs = .ok spans) : ∀ s ∈ spans, s.Exact m.cellSize := by
  have hplaces := forall₂_of_layout h
  clear h
  induction hplaces with
  | nil => exact List.forall_mem_nil _
  | cons hs _ ih =>
    obtain ⟨hc, hrest⟩ := List.forall_mem_cons.1 hcs
    exact List.forall_mem_cons.2 ⟨exact_of_span hm hc hs, ih hrest⟩

section Addresses

variable {cellSize : Int} {start : UInt64} {cs : List Statement} {spans : List Span}

/-- What lies from a statement on is laid out from its address on. -/
theorem layout_drop (h : layout cellSize start cs = .ok spans) {i : Nat} {s : Span}
    (hi : spans[i]? = some s) : layout cellSize s.address (cs.drop i) = .ok (spans.drop i) := by
  induction cs generalizing start spans i with
  | nil =>
    cases h
    cases hi
  | cons c rest ih =>
    obtain ⟨s', more, hs, hmore, rfl⟩ := layout_cons_eq_ok.1 h
    cases i with
    | zero =>
      cases hi
      rw [(span_eq_ok.1 hs).1]
      exact h
    | succ i => exact ih hmore hi

/-- The address of a statement is the first address and the cells before it. -/
theorem address_of_layout (h : layout cellSize start cs = .ok spans)
    (hexact : ∀ s ∈ spans, s.Exact cellSize) {i : Nat} {s : Span} (hi : spans[i]? = some s) :
    s.address.toNat = start.toNat + ((spans.take i).map (Span.cells cellSize)).sum := by
  induction cs generalizing start spans i with
  | nil =>
    cases h
    cases hi
  | cons c rest ih =>
    obtain ⟨s', more, hs, hmore, rfl⟩ := layout_cons_eq_ok.1 h
    obtain ⟨hs', hexact⟩ := List.forall_mem_cons.1 hexact
    have haddress := (span_eq_ok.1 hs).1
    cases i with
    | zero =>
      cases hi
      rw [haddress]
      rfl
    | succ i =>
      rw [ih hmore hexact hi, hs'.next_eq, haddress, List.take_succ_cons, List.map_cons,
        List.sum_cons, Nat.add_assoc]

/-- All cells lie below the end of the address space. -/
theorem total_of_layout (h : layout cellSize start cs = .ok spans)
    (hexact : ∀ s ∈ spans, s.Exact cellSize) :
    start.toNat + (spans.map (Span.cells cellSize)).sum ≤ 2 ^ 64 - 1 := by
  induction cs generalizing start spans with
  | nil =>
    cases h
    exact Nat.le_sub_one_of_lt start.toNat_lt
  | cons c rest ih =>
    obtain ⟨s, more, hs, hmore, rfl⟩ := layout_cons_eq_ok.1 h
    obtain ⟨hs', hexact⟩ := List.forall_mem_cons.1 hexact
    have hrest := ih hmore hexact
    rw [hs'.next_eq, (span_eq_ok.1 hs).1] at hrest
    rw [List.map_cons, List.sum_cons, ← Nat.add_assoc]
    exact hrest

end Addresses

end Statement

end CellAsm
