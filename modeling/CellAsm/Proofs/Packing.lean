-- SUMMARY: Packed numbers as rows of bits, and the cells they are cut into.
import CellAsm.Code.Block
import CellAsm.Proofs.Bits
import CellAsm.Proofs.Numeral
import CellAsm.Proofs.Outcome

/-!
# Packed rows

A packed number stands for a row of bits. Appending a number that fits puts its
bits behind the row, and the cells that a row is cut into are the row again when
they are joined.
-/
namespace CellAsm

namespace Packed

/-- The number `p` stands for a row of bits, the first of them most significant. -/
def Represents (p : Packed) (row : List Bool) : Prop :=
  p.bits = row.length ∧ bitsOf row.length p.value = row

theorem represents_empty : Represents {} [] := ⟨rfl, rfl⟩

/-- Shifting and adding a number below the new bits appends those bits. -/
theorem Represents.shift_add {p : Packed} {row : List Bool} (h : p.Represents row) (width : Nat)
    {u : Nat} (hu : u < 2 ^ width) :
    Represents ⟨p.value * 2 ^ width + u, p.bits + width⟩ (row ++ bitsOf width u) := by
  obtain ⟨hbits, hrow⟩ := h
  have hpos : (0 : Int) < 2 ^ width := by positivity
  have hfits : (u : Int) < 2 ^ width := by exact_mod_cast hu
  refine ⟨by rw [hbits, List.length_append, length_bitsOf]; push_cast; rfl, ?_⟩
  have hquot : ((p.value : Int) * 2 ^ width + u) / 2 ^ width = p.value := by
    rw [add_comm, Int.add_mul_ediv_right _ _ hpos.ne', Int.ediv_eq_zero_of_lt (by omega) hfits,
      zero_add]
  have hback : bitsOf width ((p.value : Int) * 2 ^ width + u) = bitsOf width u := by
    rw [add_comm, mul_comm, bitsOf_add_mul]
  rw [List.length_append, length_bitsOf, bitsOf_add]
  push_cast
  rw [hquot, hback, hrow]

/-- Appending a number that fits puts its bits behind the row. -/
theorem Represents.append {p : Packed} {row : List Bool} (h : p.Represents row) {v width : Int}
    (hlo : -(2 ^ width.toNat) ≤ v) (hhi : v < 2 ^ width.toNat) :
    (p.append v width).Represents (row ++ bitsOf width.toNat v) := by
  unfold Packed.append
  split
  · have hzero : width.toNat = 0 := by omega
    rw [hzero, bitsOf, List.append_nil]
    exact h
  · rename_i hwidth
    dsimp only
    rw [shifted_eq]
    have hcast : p.bits + width = p.bits + (width.toNat : Int) := by omega
    rw [hcast]
    split
    · -- A negative number is packed as its two's complement.
      have hnat : (((v + 2 ^ width.toNat).toNat : Nat) : Int) = v + 2 ^ width.toNat * 1 := by
        rw [mul_one]
        exact Int.toNat_of_nonneg (by linarith)
      rw [← bitsOf_add_mul width.toNat v 1, ← hnat]
      refine h.shift_add width.toNat ?_
      zify
      rw [hnat]
      linarith
    · have hnat : ((v.toNat : Nat) : Int) = v := Int.toNat_of_nonneg (by omega)
      rw [← hnat, Int.toNat_natCast]
      refine h.shift_add width.toNat ?_
      zify
      rw [hnat]
      exact hhi

theorem Represents.appendZeros {p q : Packed} {row : List Bool} (h : p.Represents row) {width : Int}
    (hwidth : 0 ≤ width) (hq : p.appendZeros width = .ok q) :
    q.Represents (row ++ List.replicate width.toNat false) := by
  have hcast : p.bits + width = p.bits + (width.toNat : Int) := by omega
  have hshift := h.shift_add width.toNat (Nat.two_pow_pos width.toNat)
  rw [Nat.cast_zero, bitsOf_zero, Nat.add_zero, ← hcast] at hshift
  unfold Packed.appendZeros at hq
  split at hq
  · rename_i hvalue
    cases hq
    rw [hvalue, Nat.zero_mul] at hshift
    exact hshift
  · split at hq
    · cases hq
    · cases hq
      rw [shifted_eq]
      exact hshift

/-! ## Cells -/

theorem toNat_cell (p : Packed) (length i : Nat) {cellSize : Nat} (h : cellSize ≤ 64) :
    (p.cell length cellSize i).toNat = p.value / 2 ^ (length - (i + 1) * cellSize) % 2 ^ cellSize := by
  have hpow : 2 ^ cellSize ≤ 2 ^ 64 := Nat.pow_le_pow_right (by decide) h
  have hlt := Nat.mod_lt (p.value >>> (length - (i + 1) * cellSize)) (Nat.two_pow_pos cellSize)
  rw [cell, UInt64.toNat_ofNat_of_lt' (by rw [UInt64.size]; omega), Nat.shiftRight_eq_div_pow]

theorem cell_lt (p : Packed) (length : Nat) {cellSize : Nat} (h : cellSize ≤ 64) :
    ∀ c ∈ p.cut length cellSize, c.toNat < 2 ^ cellSize := by
  rw [cut_eq]
  refine List.forall_mem_map.2 fun i _ => ?_
  rw [toNat_cell p length i h]
  exact Nat.mod_lt _ (Nat.two_pow_pos cellSize)

/-- The cells of whole cells of bits, joined, are those bits. -/
theorem flatMap_cut (p : Packed) (count : Nat) {cellSize : Nat} (hpos : 0 < cellSize)
    (h : cellSize ≤ 64) :
    (p.cut (count * cellSize) cellSize).flatMap (fun c => bitsOf cellSize c.toNat) =
      bitsOf (count * cellSize) p.value := by
  rw [cut_eq, Nat.mul_div_cancel _ hpos, List.flatMap_map]
  induction count with
  | zero => rw [Nat.zero_mul, bitsOf]; rfl
  | succ count ih =>
    have hfirst : (p.cell ((count + 1) * cellSize) cellSize 0).toNat =
        p.value / 2 ^ (count * cellSize) % 2 ^ cellSize := by
      rw [toNat_cell _ _ _ h]
      congr 3
      rw [Nat.zero_add, Nat.one_mul, Nat.add_mul, Nat.one_mul, Nat.add_sub_cancel]
    -- The cells behind the first one do not depend on it.
    have hrest (i : Nat) : p.cell ((count + 1) * cellSize) cellSize (i + 1) =
        p.cell (count * cellSize) cellSize i := by
      have hshift : (count + 1) * cellSize - (i + 1 + 1) * cellSize =
          count * cellSize - (i + 1) * cellSize := by
        rw [← Nat.sub_mul, ← Nat.sub_mul]
        congr 1
        omega
      rw [cell, cell, hshift]
    rw [List.range_succ_eq_map, List.flatMap_cons, List.flatMap_map, hfirst]
    simp only [hrest]
    rw [ih, Nat.add_mul, Nat.one_mul, Nat.add_comm (count * cellSize), bitsOf_add]
    push_cast
    rw [bitsOf_emod]

/-- The cells that a row is cut into, joined, are the row. -/
theorem Represents.flatMap_cut {p : Packed} {row : List Bool} (h : p.Represents row)
    {cellSize : Nat} (hpos : 0 < cellSize) (hle : cellSize ≤ 64) (hwhole : cellSize ∣ row.length) :
    (p.cut row.length cellSize).flatMap (fun c => bitsOf cellSize c.toNat) = row := by
  have hcount := Nat.div_mul_cancel hwhole
  have hcut := p.flatMap_cut (row.length / cellSize) hpos hle
  rw [hcount, h.2] at hcut
  exact hcut

end Packed

/-! ## Bits as text -/

/-- A bit as it is shown. -/
def bitByte (b : Bool) : UInt8 := if b then '1'.toUInt8 else '0'.toUInt8

theorem digitByte_toNat (b : Bool) : digitByte b.toNat = bitByte b := by
  cases b <;> rfl

/-- The binary digits of a number, padded to a width, are its bits. -/
theorem leftpad_digits {width n : Nat} (h : n < 2 ^ (width + 1)) :
    (digits 2 n).leftpad (width + 1) 0 = (bitsOf (width + 1) n).map Bool.toNat := by
  induction width generalizing n with
  | zero =>
    obtain rfl | rfl : n = 0 ∨ n = 1 := by omega
    · rw [digits]; rfl
    · rw [digits]; rfl
  | succ width ih =>
    have hlast : bitsOf 1 n = [decide (n % 2 = 1)] := by
      simp only [bitsOf, pow_zero, Int.ediv_one]
      congr 2
      rw [eq_iff_iff]
      omega
    have hbit : (decide (n % 2 = 1)).toNat = n % 2 := by
      rcases Nat.mod_two_eq_zero_or_one n with hn | hn <;> simp [hn]
    have hsplit : (bitsOf (width + 1 + 1) n).map Bool.toNat =
        (bitsOf (width + 1) ((n / 2 : Nat) : Int)).map Bool.toNat ++ [n % 2] := by
      rw [bitsOf_add (width + 1) 1, hlast, List.map_append, List.map_singleton, hbit]
      push_cast
      rfl
    rw [hsplit, digits]
    split
    · have hhalf : n / 2 = 0 := by omega
      have hself : n % 2 = n := by omega
      rw [hhalf, hself, Nat.cast_zero, bitsOf_zero, List.map_replicate]
      rfl
    · rw [← ih (by omega)]
      simp only [List.leftpad, List.length_append, List.length_singleton, Nat.add_sub_add_right,
        List.append_assoc]

namespace Block

/-- All bits of a block, one cell behind the other. -/
def row (b : Block) : List Bool := b.cells.flatMap fun c => bitsOf b.cellSize.toNat c.toNat

theorem cellBits_eq_leftpad (cellSize : Nat) (c : UInt64) :
    cellBits cellSize c = (Text.numeral 2 c.toNat).leftpad cellSize '0'.toUInt8 := by
  unfold cellBits List.leftpad
  dsimp only
  split
  · rw [copies, Int.toNat_sub]
  · rename_i hlong
    rw [Nat.sub_eq_zero_of_le (by omega)]
    rfl

theorem cellBits_eq {cellSize : Nat} (hpos : 0 < cellSize) {c : UInt64}
    (h : c.toNat < 2 ^ cellSize) :
    cellBits cellSize c = (bitsOf cellSize c.toNat).map bitByte := by
  obtain ⟨width, rfl⟩ := Nat.exists_eq_add_of_lt hpos
  rw [Nat.zero_add] at h ⊢
  have hmap : cellBits (width + 1 : Nat) c =
      ((digits 2 c.toNat).leftpad (width + 1) 0).map digitByte := by
    simp only [cellBits_eq_leftpad, Text.numeral, List.leftpad, List.length_map, List.map_append,
      List.map_replicate]
    rfl
  rw [hmap, leftpad_digits h, List.map_map]
  exact List.map_congr_left fun b _ => digitByte_toNat b

/-- The bits of a block are shown as zeros and ones. -/
theorem bits_eq_row {b : Block} (hpos : 1 ≤ b.cellSize) (hle : b.cellSize ≤ 64)
    (hlength : b.length = b.cellSize * b.cells.length)
    (hcells : ∀ c ∈ b.cells, c.toNat < 2 ^ b.cellSize.toNat) :
    b.bits = .ok (b.row.map bitByte) := by
  have hnonneg : 0 ≤ b.length := by
    rw [hlength]
    positivity
  have hstated : b.overstated = false := by
    rw [overstated, decide_eq_false_iff_not]
    rintro ⟨_, hne⟩
    exact hne (hlength.trans (mul_comm _ _))
  have hlimit : ¬(b.cells ≠ [] ∧ bitsLimit ≤ b.cellSize) := by
    rw [bitsLimit]
    omega
  rw [bits, if_neg (by rw [hstated]; simp; omega), if_neg hlimit, row, List.map_flatMap]
  congr 1
  refine List.flatMap_congr fun c hc => ?_
  have hsize : (b.cellSize.toNat : Int) = b.cellSize := Int.toNat_of_nonneg (by omega)
  rw [← cellBits_eq (by omega) (hcells c hc), hsize]

end Block

end CellAsm
