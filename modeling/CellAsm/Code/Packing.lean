-- SUMMARY: Packing numbers into a row of bits and cutting it into cells.
import CellAsm.Field

/-!
# Packing

Fields are packed one after the other, the most significant bit first. The packed
bits are kept as one number and a length, and cut into cells at the end.
-/
namespace CellAsm

/-- Packed bits: the first one packed is the most significant bit of `value`. -/
structure Packed where
  value : Nat := 0
  bits : Int := 0
deriving DecidableEq, Repr

namespace Packed

/-- The value with `width` zero bits behind it. No bits are stored for zero, so it
can be shifted by any width. -/
def shifted (p : Packed) (width : Nat) : Nat := if p.value = 0 then 0 else p.value * 2 ^ width

theorem shifted_eq (p : Packed) (width : Nat) : p.shifted width = p.value * 2 ^ width := by
  unfold shifted
  split
  · rename_i h
    rw [h, Nat.zero_mul]
  · rfl

/-- Appends `v` in `width` bits, a negative number in two's complement. Nothing is
appended if there is no width. -/
def append (p : Packed) (v width : Int) : Packed :=
  if width ≤ 0 then p
  else
    let u := if v < 0 then v + 2 ^ width.toNat else v
    ⟨p.shifted width.toNat + u.toNat, p.bits + width⟩

/-- Appends `width` zero bits. As long as all bits are zero, the width may be
anything, and a negative one takes bits back. -/
def appendZeros (p : Packed) (width : Int) : Except Fault Packed :=
  if p.value = 0 then .ok ⟨0, p.bits + width⟩
  else if width < 0 ∨ bitsLimit ≤ width then .error .sizeOutOfRange
  else .ok ⟨p.shifted width.toNat, p.bits + width⟩

/-- The cell with index `i` of those that `length` bits are cut into. A cell
holds at most 64 bits. -/
def cell (p : Packed) (length cellSize : Nat) (i : Nat) : UInt64 :=
  UInt64.ofNat ((p.value >>> (length - (i + 1) * cellSize)) % 2 ^ cellSize)

/-- The cells that `length` bits are cut into. Zero bits give zero cells. -/
def cut (p : Packed) (length cellSize : Nat) : List UInt64 :=
  if p.value = 0 then List.replicate (length / cellSize) 0
  else (List.range (length / cellSize)).map (p.cell length cellSize)

theorem cut_eq (p : Packed) (length cellSize : Nat) :
    p.cut length cellSize = (List.range (length / cellSize)).map (p.cell length cellSize) := by
  unfold cut
  split
  · rename_i h
    have hcell : p.cell length cellSize = fun _ => 0 := by
      funext i
      simp only [cell, h, Nat.zero_shiftRight, Nat.zero_mod]
      rfl
    rw [hcell, List.map_const', List.length_range]
  · rfl

/-- Cuts `length` packed bits into cells. -/
def cells (p : Packed) (length cellSize : Int) : Except Fault (List UInt64) :=
  if cellSize = 0 then .error .divisionByZero
  else if cellSize < 0 ∨ bitsLimit ≤ cellSize ∨ length < 0 then .error .sizeOutOfRange
  else .ok (p.cut length.toNat cellSize.toNat)

end Packed

end CellAsm
