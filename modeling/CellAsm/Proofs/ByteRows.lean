-- SUMMARY: Cells that are written bit by bit fill bytes, eight bits to a byte.
import CellAsm.Image
import CellAsm.Proofs.Bits

/-!
# Bits in bytes

The bits of cells are taken one by one, and every eighth completes a byte. At any
moment the bits taken so far are those of the full bytes and behind them the few
that wait in the accumulator. So the bytes are the row of all bits, cut into
eights, and only the last is filled up.
-/
namespace CellAsm

theorem natOfBits_append (front back : List Bool) :
    natOfBits (front ++ back) = natOfBits front * 2 ^ back.length + natOfBits back := by
  induction front with
  | nil => simp [natOfBits]
  | cons b front ih =>
    rw [List.cons_append, natOfBits, natOfBits, ih, List.length_append, pow_add]
    ring

namespace Store

/-! ## Rows cut into eights -/

/-- The bits eight at a time; the last byte is filled up with zeros. -/
def packBytes : List Bool → Text
  | [] => []
  | b :: rest =>
    UInt8.ofNat (natOfBits (((b :: rest).take 8).rightpad 8 false)) :: packBytes (rest.drop 7)
termination_by bits => bits.length
decreasing_by simp only [List.length_drop, List.length_cons]; omega

theorem packBytes_nil : packBytes [] = [] := by
  rw [packBytes]

/-- Whole bytes in front are cut off first. -/
theorem packBytes_append {front : List Bool} (h : 8 ∣ front.length) (back : List Bool) :
    packBytes (front ++ back) = packBytes front ++ packBytes back := by
  fun_induction packBytes front with
  | case1 => rfl
  | case2 b rest ih =>
    rw [List.length_cons] at h
    have hwhole : 7 ≤ rest.length := by omega
    have hrest : 8 ∣ (rest.drop 7).length := by
      rw [List.length_drop]
      omega
    rw [List.cons_append, packBytes, ← List.cons_append,
      List.take_append_of_le_length (by rw [List.length_cons]; omega),
      List.drop_append_of_le_length hwhole, ih hrest, List.cons_append]

/-- Up to eight bits make one byte. -/
theorem packBytes_of_length_le {bits : List Bool} (hpos : 0 < bits.length) (hle : bits.length ≤ 8) :
    packBytes bits = [UInt8.ofNat (natOfBits bits * 2 ^ (8 - bits.length))] := by
  cases bits with
  | nil => cases hpos
  | cons b rest =>
    have hzeros (n : Nat) : natOfBits (List.replicate n false) = 0 := by
      induction n with
      | zero => rfl
      | succ n ih => simp [List.replicate_succ, natOfBits, ih]
    rw [List.length_cons] at hle
    rw [packBytes, List.drop_of_length_le (by omega), packBytes_nil,
      List.take_of_length_le (by rw [List.length_cons]; omega), List.rightpad, natOfBits_append,
      List.length_replicate, hzeros, Nat.add_zero]

theorem flatMap_packBytes (bits : List Bool) :
    (packBytes bits).flatMap (fun b => bitsOf 8 b.toNat) =
      bits ++ List.replicate ((8 - bits.length % 8) % 8) false := by
  fun_induction packBytes bits with
  | case1 => rfl
  | case2 b rest ih =>
    have hlength : (((b :: rest).take 8).rightpad 8 false).length = 8 := by
      simp only [List.rightpad, List.length_append, List.length_replicate, List.length_take]
      omega
    have hbyte : (UInt8.ofNat (natOfBits (((b :: rest).take 8).rightpad 8 false))).toNat =
        natOfBits (((b :: rest).take 8).rightpad 8 false) := by
      have hlt := natOfBits_lt (((b :: rest).take 8).rightpad 8 false)
      rw [hlength] at hlt
      rw [UInt8.toNat_ofNat', Nat.mod_eq_of_lt hlt]
    have hchunk := bitsOf_natOfBits (((b :: rest).take 8).rightpad 8 false)
    rw [hlength] at hchunk
    rw [List.flatMap_cons, hbyte, hchunk, ih, List.rightpad, List.length_drop, List.length_cons]
    rcases Nat.lt_or_ge rest.length 7 with hlast | hmore
    · -- The last byte: it is not full, and nothing is left behind it.
      rw [List.take_of_length_le (by rw [List.length_cons]; omega),
        List.drop_of_length_le (by omega), List.length_cons, List.nil_append]
      have hfill : (8 - (rest.length - 7) % 8) % 8 = 0 := by omega
      have hmissing : (8 - (rest.length + 1) % 8) % 8 = 8 - (rest.length + 1) := by omega
      rw [hfill, hmissing, List.replicate_zero, List.append_nil]
    · have hfull : 8 - (List.take 8 (b :: rest)).length = 0 := by
        rw [List.length_take, List.length_cons]
        omega
      have hsame : (8 - (rest.length - 7) % 8) % 8 = (8 - (rest.length + 1) % 8) % 8 := by omega
      rw [hfull, hsame, List.replicate_zero, List.append_nil, List.take_succ_cons, List.cons_append,
        ← List.append_assoc, List.take_append_drop, List.cons_append]

/-! ## Filling bytes -/

theorem toNat_bitAt (c : UInt64) (i : Nat) :
    (bitAt c i).toNat = (decide ((c.toNat : Int) / 2 ^ i % 2 = 1)).toNat := by
  have hle : c.toNat >>> i < 2 ^ 64 := by
    rw [Nat.shiftRight_eq_div_pow]
    exact (Nat.div_le_self _ _).trans_lt c.toNat_lt
  have hbit := toNat_decide_emod_two ((c.toNat : Int) / 2 ^ i)
  rw [bitAt, UInt64.toNat_and, UInt64.toNat_ofNat_of_lt' hle, Nat.shiftRight_eq_div_pow,
    UInt64.toNat_one, Nat.and_one_is_mod]
  zify
  exact hbit.symm

/-- A number is shifted by multiplying it as long as it keeps all its bits. -/
theorem toNat_shiftLeft_of_lt {a : UInt64} {k : Nat} (hk : k < 64) (h : a.toNat * 2 ^ k < 2 ^ 64) :
    (a <<< UInt64.ofNat k).toNat = a.toNat * 2 ^ k := by
  rw [UInt64.toNat_shiftLeft, UInt64.toNat_ofNat_of_lt' (hk.trans (by decide)), Nat.mod_eq_of_lt hk,
    Nat.shiftLeft_eq, Nat.mod_eq_of_lt h]

namespace Packer

/-- The packer has filled whole bytes with the bits in `full`, and those in `rest` wait. -/
structure Holds (p : Packer) (full rest : List Bool) : Prop where
  out : p.out.toList = packBytes full
  whole : 8 ∣ full.length
  count : rest.length = p.count
  lt : p.count < 8
  acc : p.acc.toNat = natOfBits rest

theorem holds_empty : Holds {} [] [] where
  out := packBytes_nil.symm
  whole := Nat.dvd_zero 8
  count := rfl
  lt := by decide
  acc := rfl

variable {p : Packer} {full rest : List Bool}

theorem Holds.natOfBits_lt (h : p.Holds full rest) : natOfBits rest < 2 ^ p.count :=
  h.count ▸ CellAsm.natOfBits_lt rest

/-- A bit is put behind those that wait. -/
theorem Holds.toNat_acc (h : p.Holds full rest) {bit : UInt64} {b : Bool}
    (hbit : bit.toNat = b.toNat) :
    (p.acc <<< 1 ||| bit).toNat = natOfBits (rest ++ [b]) := by
  have hlt : natOfBits rest < 2 ^ 8 :=
    h.natOfBits_lt.trans (Nat.pow_lt_pow_right (by decide) h.lt)
  have hshift : (p.acc <<< 1).toNat = p.acc.toNat * 2 ^ 1 :=
    toNat_shiftLeft_of_lt (k := 1) (by decide) (by rw [h.acc]; omega)
  have hb : b.toNat < 2 ^ 1 := b.toNat_lt
  rw [UInt64.toNat_or, hshift, hbit, h.acc, Nat.mul_comm, ← Nat.two_pow_add_eq_or_of_lt hb,
    natOfBits_append]
  simp [natOfBits, Nat.mul_comm]

theorem Holds.push (h : p.Holds full rest) {bit : UInt64} {b : Bool} (hbit : bit.toNat = b.toNat) :
    ∃ full' rest', (p.push bit).Holds full' rest' ∧ full' ++ rest' = full ++ rest ++ [b] := by
  have hacc := h.toNat_acc hbit
  have hcount := h.count
  have hlength : (rest ++ [b]).length = p.count + 1 := by
    rw [List.length_append, h.count, List.length_singleton]
  unfold Packer.push
  dsimp only
  split
  · rename_i height
    -- The byte is full: the waiting bits become part of those that are written.
    have hbyte : (p.acc <<< 1 ||| bit).toUInt8 = UInt8.ofNat (natOfBits (rest ++ [b])) := by
      rw [← hacc]
      rfl
    refine ⟨full ++ (rest ++ [b]), [], ⟨?_, ?_, rfl, Nat.succ_pos 7, rfl⟩, ?_⟩
    · have hpos : 0 < (rest ++ [b]).length := by omega
      have hpack := packBytes_of_length_le hpos (by omega)
      rw [hlength, height, Nat.sub_self, pow_zero, Nat.mul_one] at hpack
      rw [Array.toList_push, h.out, packBytes_append h.whole, hpack, hbyte]
    · rw [List.length_append, hlength, height]
      exact Nat.dvd_add h.whole (Nat.dvd_refl 8)
    · rw [List.append_nil, List.append_assoc]
  · refine ⟨full, rest ++ [b], ⟨h.out, h.whole, hlength, ?_, hacc⟩, (List.append_assoc _ _ _).symm⟩
    have hlt := h.lt
    dsimp only
    omega

theorem Holds.pushCell (h : p.Holds full rest) (c : UInt64) (width : Nat) :
    ∃ full' rest', (p.pushCell c width).Holds full' rest' ∧
      full' ++ rest' = full ++ rest ++ bitsOf width c.toNat := by
  induction width generalizing p full rest with
  | zero => exact ⟨full, rest, h, by rw [bitsOf, List.append_nil]⟩
  | succ width ih =>
    obtain ⟨full₁, rest₁, hpush, hbits₁⟩ := h.push (toNat_bitAt c width)
    obtain ⟨full₂, rest₂, hcell, hbits₂⟩ := ih hpush
    refine ⟨full₂, rest₂, hcell, ?_⟩
    rw [hbits₂, hbits₁, bitsOf, List.append_assoc, List.singleton_append]

theorem Holds.foldl (h : p.Holds full rest) (width : Nat) (cells : List UInt64) :
    ∃ full' rest', (cells.foldl (fun p c => p.pushCell c width) p).Holds full' rest' ∧
      full' ++ rest' = full ++ rest ++ cells.flatMap fun c => bitsOf width c.toNat := by
  induction cells generalizing p full rest with
  | nil => exact ⟨full, rest, h, by rw [List.flatMap_nil, List.append_nil]⟩
  | cons c cells ih =>
    obtain ⟨full₁, rest₁, hcell, hbits₁⟩ := h.pushCell c width
    obtain ⟨full₂, rest₂, hcells, hbits₂⟩ := ih hcell
    refine ⟨full₂, rest₂, hcells, ?_⟩
    rw [hbits₂, hbits₁, List.flatMap_cons, List.append_assoc]

/-- The bytes are those of all bits that were taken. -/
theorem Holds.bytes_eq (h : p.Holds full rest) : p.bytes = packBytes (full ++ rest) := by
  rw [packBytes_append h.whole, ← h.out]
  unfold bytes
  split
  · rename_i hpos
    have hlt := h.lt
    have hfits : p.acc.toNat * 2 ^ (8 - p.count) < 2 ^ 8 := by
      have hmul := Nat.mul_lt_mul_of_pos_right h.natOfBits_lt (Nat.two_pow_pos (8 - p.count))
      rwa [← pow_add, Nat.add_sub_cancel' hlt.le, ← h.acc] at hmul
    have hbyte : (p.acc <<< UInt64.ofNat (8 - p.count)).toUInt8 =
        UInt8.ofNat (natOfBits rest * 2 ^ (8 - rest.length)) := by
      rw [h.count, ← h.acc, ← toNat_shiftLeft_of_lt (by omega) (hfits.trans (by decide))]
      rfl
    rw [packBytes_of_length_le (by rw [h.count]; exact hpos) (by rw [h.count]; omega),
      Array.toList_push, hbyte]
  · rename_i hzero
    have hnil : rest = [] := List.length_eq_zero_iff.1 (by rw [h.count]; omega)
    rw [hnil, packBytes_nil, List.append_nil]

end Packer

/-- The bytes of some cells are the row of their bits, cut into eights. -/
theorem bytes_of_slice {s : Store} {first stop : Int} {cells : List UInt64}
    (h : s.slice first stop = .ok cells) :
    s.bytes first stop = .ok (packBytes (cells.flatMap fun c => bitsOf s.cellSize c.toNat)) := by
  obtain ⟨full, rest, hholds, hbits⟩ := Packer.holds_empty.foldl s.cellSize cells
  rw [List.nil_append, List.nil_append] at hbits
  rw [bytes, h, ← hbits, ← hholds.bytes_eq]
  rfl

end Store

end CellAsm
