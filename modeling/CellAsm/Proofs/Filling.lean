-- SUMMARY: Alignments and positions go exactly to the address that they ask for.
import CellAsm.Proofs.Layout
import Mathlib.Order.Bounds.Basic

/-!
# Filling up to an address

An alignment fills zero cells up to the next multiple of its operand, and a position up
to its operand. The cells are counted in unsigned words and their bits in signed ones,
and neither count wraps, whatever the address and the operand are. So the two fail only
where there is no address to go to, where it lies too far ahead, or where it is no word
any more, and such a failure blames the operand or the directive.
-/
namespace CellAsm

/-! ## The next multiple -/

/-- The remainder that is missing leads to the least multiple. -/
theorem isLeast_multiple {v : Int} (hv : 1 ≤ v) (a : Int) :
    IsLeast {k | v ∣ k ∧ a ≤ k} (a + (v - a % v) % v) := by
  have hnonneg := Int.emod_nonneg a (by omega : v ≠ 0)
  have hlt := Int.emod_lt_of_pos a (by omega : 0 < v)
  have hdivision := Int.emod_add_mul_ediv a v
  by_cases hr : a % v = 0
  · rw [hr, sub_zero, Int.emod_self, add_zero]
    exact ⟨⟨Int.dvd_of_emod_eq_zero hr, le_refl a⟩, fun k hk => hk.2⟩
  · have hmissing : (v - a % v) % v = v - a % v := Int.emod_eq_of_lt (by omega) (by omega)
    have hsum : a + (v - a % v) = v * (a / v + 1) := by
      rw [mul_add, mul_one]
      omega
    rw [hmissing]
    refine ⟨⟨⟨a / v + 1, hsum⟩, by omega⟩, ?_⟩
    rintro _ ⟨⟨q, rfl⟩, hle⟩
    -- the multiple is behind the last one that is not above `a`
    have hq : a / v < q := lt_of_mul_lt_mul_left (by omega : v * (a / v) < v * q) (by omega)
    rw [hsum]
    exact mul_le_mul_of_nonneg_left hq (by omega)

namespace Statement

/-! ## Where a filling statement leads -/

/-- A statement at `address` fills cells up to a target. It has a place exactly if a target
is allowed, it then leads to one, and otherwise it is blamed for an operand. -/
structure Fills (cellSize : Int) (address : UInt64) (c : Statement) (Allowed : Int → Prop) :
    Prop where
  succeeds : (∃ s, c.span cellSize address = .ok s) ↔ ∃ target, Allowed target
  leads : ∀ s, c.span cellSize address = .ok s → s.address = address ∧ Allowed s.next.toNat ∧
    s.bits = (s.next.toNat - address.toNat) * cellSize ∧ 0 ≤ s.bits ∧ s.bits < 2 ^ 63
  fails : ∀ f, c.span cellSize address = .error f →
    ∃ t cause, f = .blame t cause ∧ cause.errorClass = .operand

/-- The operand `v` as a word, and the words that are computed from it, hold the exact
numbers. -/
structure ExactWords (c : Statement) (o : Token) (v : Int) (address w : UInt64) : Prop where
  sole : c.operands = [o]
  operand : c.cellOperand = .ok w
  value : (w.toNat : Int) = v
  remainder : w ≠ 0 → ((address % w).toNat : Int) = address.toNat % v
  missing : w ≠ 0 → ((w - address % w).toNat : Int) = v - address.toNat % v
  padding : w ≠ 0 → (((w - address % w) % w).toNat : Int) = (v - address.toNat % v) % v
  distance : address ≤ w → ((w - address).toNat : Int) = v - address.toNat

variable {c : Statement} {o : Token} {v cellSize : Int} {address w : UInt64}

theorem Fills.congr {P Q : Int → Prop} (h : c.Fills cellSize address P)
    (heq : ∀ target, P target ↔ Q target) : c.Fills cellSize address Q where
  succeeds := h.succeeds.trans (exists_congr heq)
  leads s hs := by
    obtain ⟨haddress, hallowed, hbits⟩ := h.leads s hs
    exact ⟨haddress, (heq _).1 hallowed, hbits⟩
  fails := h.fails

theorem fills_of_ok {s : Span} (h : c.span cellSize address = .ok s) {P : Int → Prop}
    (hnext : P s.next.toNat) (hbits : s.bits = (s.next.toNat - address.toNat) * cellSize)
    (hword : 0 ≤ s.bits ∧ s.bits < 2 ^ 63) : c.Fills cellSize address P where
  succeeds := ⟨fun _ => ⟨_, hnext⟩, fun _ => ⟨s, h⟩⟩
  leads := by
    intro s' hs'
    obtain rfl := Except.ok.inj (h.symm.trans hs')
    exact ⟨(span_eq_ok.1 h).1, hnext, hbits, hword⟩
  fails := by
    intro f hf
    rw [h] at hf
    cases hf

theorem fills_of_error {t : Token} {cause : Cause} {P : Int → Prop}
    (h : c.span cellSize address = .error (.blame t cause))
    (hclass : cause.errorClass = .operand) (hnone : ∀ target, ¬P target) :
    c.Fills cellSize address P where
  succeeds := by
    refine ⟨?_, fun ⟨target, htarget⟩ => absurd htarget (hnone target)⟩
    rintro ⟨s, hs⟩
    rw [h] at hs
    cases hs
  leads := by
    intro s hs
    rw [h] at hs
    cases hs
  fails := by
    intro f hf
    rw [h] at hf
    cases hf
    exact ⟨t, cause, rfl, hclass⟩

theorem span_of_emittedBits_error {f : Failure} (h : c.emittedBits address cellSize = .error f) :
    c.span cellSize address = .error f := by
  rw [span, lengthInBits_eq, h]
  rfl

/-! ## Cells that are filled -/

section Cells

variable {cells : UInt64}

/-- The bits of the cells that may be filled are far from the end of a signed word. -/
theorem bits_le_of_cells_le (hpos : 1 ≤ cellSize) (hle : cellSize ≤ 64)
    (hcells : cells.toNat ≤ 2 ^ 24) :
    0 ≤ cells.toNat * cellSize ∧ cells.toNat * cellSize ≤ 2 ^ 24 * 64 := by
  have hmax : (cells.toNat : Int) ≤ 2 ^ 24 := by exact_mod_cast hcells
  exact ⟨by positivity, mul_le_mul hmax hle (by omega) (by norm_num)⟩

theorem fillFor_eq (hpos : 1 ≤ cellSize) (hle : cellSize ≤ 64) (c : Statement) (o : Token)
    (hcells : cells.toNat ≤ 2 ^ 24) : c.fillFor o cells cellSize = .ok (cells.toNat * cellSize) := by
  have hbits := bits_le_of_cells_le hpos hle hcells
  rw [fillFor, maxFillCells, if_neg (by omega), Int.bmod_eq_of_le (by omega) (by omega)]

theorem cellCount_mul (hpos : 1 ≤ cellSize) (n : Nat) : cellCount (n * cellSize) cellSize = n := by
  rw [cellCount, Int.mul_tdiv_cancel _ (by omega : cellSize ≠ 0)]
  exact if_neg (by omega)

/-- The place of a statement that emits whole cells. -/
theorem span_of_emittedBits (hpos : 1 ≤ cellSize) {n : Nat}
    (h : c.emittedBits address cellSize = .ok (n * cellSize)) :
    c.span cellSize address =
      if address.toNat + n < 2 ^ 64 then
        .ok ⟨address, n * cellSize, UInt64.ofNat (address.toNat + n)⟩
      else .error (.blame c.keyword (.addressOverflow address)) := by
  have hlength : c.lengthInBits address cellSize = .ok (n * cellSize) := by
    rw [lengthInBits_eq, h, ok_bind, if_neg (by omega), if_pos (Int.mul_tmod_left _ _)]
  have hsize : cellSize ≠ 0 := by omega
  simp only [span, hlength, ok_bind, advance_eq hsize, cellCount_mul hpos, ← Nat.cast_add]
  by_cases hend : address.toNat + n < 2 ^ 64
  · rw [if_pos (by exact_mod_cast hend), if_pos hend, Int.toNat_natCast]
    rfl
  · rw [if_neg (by exact_mod_cast hend), if_neg hend]
    rfl

/-- Cells that are counted by a word are filled unless they are too many or pass the end of
the address space. -/
theorem fills_of_fillFor (hpos : 1 ≤ cellSize) (hle : cellSize ≤ 64)
    (h : c.emittedBits address cellSize = c.fillFor o cells cellSize) :
    c.Fills cellSize address fun target => target = address.toNat + cells.toNat ∧
      cells.toNat ≤ 2 ^ 24 ∧ target ≤ 2 ^ 64 - 1 := by
  by_cases hcells : cells.toNat ≤ 2 ^ 24
  · rw [fillFor_eq hpos hle c o hcells] at h
    have hspan := span_of_emittedBits hpos h
    have hbits := bits_le_of_cells_le hpos hle hcells
    by_cases hend : address.toNat + cells.toNat < 2 ^ 64
    · have hnext : (UInt64.ofNat (address.toNat + cells.toNat)).toNat =
          address.toNat + cells.toNat := UInt64.toNat_ofNat_of_lt' hend
      rw [if_pos hend] at hspan
      refine fills_of_ok hspan ?_ ?_ ⟨hbits.1, hbits.2.trans_lt (by norm_num)⟩
      · rw [hnext, Nat.cast_add]
        exact ⟨rfl, hcells, by omega⟩
      · rw [hnext, Nat.cast_add, add_sub_cancel_left]
    · rw [if_neg hend] at hspan
      refine fills_of_error hspan rfl ?_
      rintro target ⟨rfl, _, hlast⟩
      omega
  · rw [fillFor, maxFillCells, if_pos (by omega)] at h
    exact fills_of_error (span_of_emittedBits_error h) rfl fun target htarget => hcells htarget.2.1

end Cells

/-! ## Operands -/

theorem soleCell_of_lt (hoperands : c.operands = [o]) (hkind : o.kind = .constant)
    (hv : o.integer? = some v) (hnonneg : 0 ≤ v) (hlt : v < 2 ^ 64) :
    c.soleCell = .ok (o, UInt64.ofNat v.toNat) := by
  rw [Token.integer?] at hv
  simp only [soleCell, hoperands, hkind, hv]
  rw [if_neg (by simp), if_neg (by omega)]

theorem soleCell_of_outside (hoperands : c.operands = [o]) (hkind : o.kind = .constant)
    (hv : o.integer? = some v) (houtside : ¬(0 ≤ v ∧ v < 2 ^ 64)) :
    c.soleCell = .error (.blame o (.outOfRange o.contents)) := by
  rw [Token.integer?] at hv
  simp only [soleCell, hoperands, hkind, hv]
  rw [if_neg (by simp), if_pos (by omega)]

/-- An operand that is no word leads nowhere. -/
theorem fills_of_outside (haction : c.action = .align ∨ c.action = .pos)
    (hoperands : c.operands = [o]) (hkind : o.kind = .constant) (hv : o.integer? = some v)
    (houtside : ¬(0 ≤ v ∧ v < 2 ^ 64)) {P : Int → Prop} (hnone : ∀ target, ¬P target) :
    c.Fills cellSize address P := by
  have hoperand := soleCell_of_outside hoperands hkind hv houtside
  have hbits : c.emittedBits address cellSize = .error (.blame o (.outOfRange o.contents)) := by
    rcases haction with haction | haction
    · rw [emittedBits_align haction, hoperand]
      rfl
    · rw [emittedBits_pos haction, hoperand]
      rfl
  exact fills_of_error (span_of_emittedBits_error hbits) rfl hnone

/-- The words on the way to an alignment or a position hold the exact numbers. -/
theorem exists_exactWords (hoperands : c.operands = [o]) (hkind : o.kind = .constant)
    (hv : o.integer? = some v) (hnonneg : 0 ≤ v) (hlt : v < 2 ^ 64) (address : UInt64) :
    ∃ w, c.ExactWords o v address w := by
  have hoperand := soleCell_of_lt hoperands hkind hv hnonneg hlt
  have hvalue : ((UInt64.ofNat v.toNat).toNat : Int) = v := by
    rw [UInt64.toNat_ofNat_of_lt' (by rw [UInt64.size]; omega), Int.toNat_of_nonneg hnonneg]
  generalize UInt64.ofNat v.toNat = w at hoperand hvalue
  subst hvalue
  have hremainder : ((address % w).toNat : Int) = address.toNat % w.toNat := by
    rw [UInt64.toNat_mod, Int.natCast_emod]
  have hmissing (hw : w ≠ 0) :
      ((w - address % w).toNat : Int) = w.toNat - address.toNat % w.toNat := by
    have hle : address % w ≤ w := UInt64.le_of_lt (UInt64.mod_lt address (UInt64.pos_iff_ne_zero.2 hw))
    rw [UInt64.toNat_sub_of_le _ _ hle, Int.natCast_sub (UInt64.le_iff_toNat_le.1 hle), hremainder]
  refine ⟨w, hoperands, ?_, rfl, fun _ => hremainder, hmissing, fun hw => ?_, fun hle => ?_⟩
  · rw [cellOperand_eq, hoperand]
    rfl
  · rw [UInt64.toNat_mod, Int.natCast_emod, hmissing hw]
  · rw [UInt64.toNat_sub_of_le _ _ hle, Int.natCast_sub (UInt64.le_iff_toNat_le.1 hle)]

theorem ExactWords.soleCell (h : c.ExactWords o v address w) : c.soleCell = .ok (o, w) := by
  have hoperand := h.operand
  rw [cellOperand_eq] at hoperand
  obtain ⟨⟨o', w'⟩, hcell, hw⟩ := bind_eq_ok.1 hoperand
  obtain rfl := pure_eq_ok.1 hw
  have hsole := h.sole
  rw [operands_of_soleCell hcell] at hsole
  cases hsole
  exact hcell

theorem ExactWords.ne_zero_iff (h : c.ExactWords o v address w) : w ≠ 0 ↔ 1 ≤ v := by
  have hvalue := h.value
  rw [← UInt64.pos_iff_ne_zero, UInt64.lt_iff_toNat_lt, UInt64.toNat_zero]
  omega

/-! ## Alignments and positions -/

/-- An alignment goes to the next multiple of its operand. -/
theorem fills_align (haction : c.action = .align) (hoperands : c.operands = [o])
    (hkind : o.kind = .constant) (hv : o.integer? = some v) (hpos : 1 ≤ cellSize)
    (hle : cellSize ≤ 64) : c.Fills cellSize address fun target =>
      (1 ≤ v ∧ v < 2 ^ 64) ∧ IsLeast {k | v ∣ k ∧ (address.toNat : Int) ≤ k} target ∧
      target - address.toNat ≤ 2 ^ 24 ∧ target ≤ 2 ^ 64 - 1 := by
  by_cases hrange : 0 ≤ v ∧ v < 2 ^ 64
  · obtain ⟨w, hw⟩ := exists_exactWords hoperands hkind hv hrange.1 hrange.2 address
    have hbits : c.emittedBits address cellSize =
        if w = 0 then .error (.blame o .zeroAlignment)
        else c.fillFor o ((w - address % w) % w) cellSize := by
      rw [emittedBits_align haction, hw.soleCell, ok_bind]
    by_cases hzero : w = 0
    · rw [if_pos hzero] at hbits
      exact fills_of_error (span_of_emittedBits_error hbits) rfl
        fun target htarget => hw.ne_zero_iff.2 htarget.1.1 hzero
    · rw [if_neg hzero] at hbits
      have hv' := hw.ne_zero_iff.1 hzero
      have hleast := isLeast_multiple hv' address.toNat
      rw [← hw.padding hzero] at hleast
      refine (fills_of_fillFor hpos hle hbits).congr fun target => ⟨?_, ?_⟩
      · rintro ⟨rfl, hcells, hend⟩
        exact ⟨⟨hv', hrange.2⟩, hleast, by omega, hend⟩
      · rintro ⟨_, htarget, hcells, hend⟩
        obtain rfl := htarget.unique hleast
        exact ⟨rfl, by omega, hend⟩
  · refine fills_of_outside (.inl haction) hoperands hkind hv hrange ?_
    rintro target ⟨⟨_, _⟩, _⟩
    omega

/-- A position goes to its operand. -/
theorem fills_pos (haction : c.action = .pos) (hoperands : c.operands = [o])
    (hkind : o.kind = .constant) (hv : o.integer? = some v) (hpos : 1 ≤ cellSize)
    (hle : cellSize ≤ 64) : c.Fills cellSize address fun target =>
      (0 ≤ v ∧ v < 2 ^ 64) ∧ address.toNat ≤ v ∧ v - address.toNat ≤ 2 ^ 24 ∧ target = v := by
  by_cases hrange : 0 ≤ v ∧ v < 2 ^ 64
  · obtain ⟨w, hw⟩ := exists_exactWords hoperands hkind hv hrange.1 hrange.2 address
    have hvalue := hw.value
    have hbits : c.emittedBits address cellSize =
        if w < address then .error (.blame o (.positionBehind w address))
        else c.fillFor o (w - address) cellSize := by
      rw [emittedBits_pos haction, hw.soleCell, ok_bind]
    by_cases hbehind : w < address
    · rw [if_pos hbehind] at hbits
      refine fills_of_error (span_of_emittedBits_error hbits) rfl ?_
      rintro target ⟨_, hahead, _⟩
      rw [UInt64.lt_iff_toNat_lt] at hbehind
      omega
    · rw [if_neg hbehind] at hbits
      have hdistance := hw.distance (UInt64.not_lt.1 hbehind)
      refine (fills_of_fillFor hpos hle hbits).congr fun target => ⟨?_, ?_⟩
      · rintro ⟨rfl, hcells, _⟩
        exact ⟨hrange, by omega, by omega, by omega⟩
      · rintro ⟨_, hahead, hcells, rfl⟩
        exact ⟨by omega, by omega, by omega⟩
  · exact fills_of_outside (.inr haction) hoperands hkind hv hrange
      fun target htarget => hrange htarget.1

/-- An alignment or a position with the operand `v` goes exactly to the address that it
asks for. It fails only if there is none, if it is too far ahead, or if it is no word, and
nothing wraps on the way. -/
theorem fills_exactly (hoperands : c.operands = [o]) (hkind : o.kind = .constant)
    (hv : o.integer? = some v) (hpos : 1 ≤ cellSize) (hle : cellSize ≤ 64) (address : UInt64) :
    (c.action = .align → c.Fills cellSize address fun target =>
      (1 ≤ v ∧ v < 2 ^ 64) ∧ IsLeast {k | v ∣ k ∧ (address.toNat : Int) ≤ k} target ∧
      target - address.toNat ≤ 2 ^ 24 ∧ target ≤ 2 ^ 64 - 1) ∧
    (c.action = .pos → c.Fills cellSize address fun target =>
      (0 ≤ v ∧ v < 2 ^ 64) ∧ address.toNat ≤ v ∧ v - address.toNat ≤ 2 ^ 24 ∧ target = v) ∧
    (0 ≤ v → v < 2 ^ 64 → ∃ w, c.ExactWords o v address w) :=
  ⟨fun haction => fills_align haction hoperands hkind hv hpos hle,
    fun haction => fills_pos haction hoperands hkind hv hpos hle,
    fun hnonneg hlt => exists_exactWords hoperands hkind hv hnonneg hlt address⟩

end Statement

namespace Sample

def sixteen : Token := { kind := .constant, contents := "0x10", legal := true }

def alignment : Statement := { action := .align, operands := [sixteen] }

/-- The last multiple of sixteen is reached, and behind it there is none. -/
theorem aligned_at_end : sixteen.integer? = some 16 ∧
    (∃ s, alignment.span 64 0xffffffffffffffe1 = .ok s ∧ s.next = 0xfffffffffffffff0 ∧
      s.bits = 15 * 64) ∧
    ∃ t cause, alignment.span 64 0xfffffffffffffff1 = .error (.blame t cause) ∧
      cause.errorClass = .operand := by
  have hinteger : sixteen.integer? = some 16 := by decide +kernel
  have hpos : (1 : Int) ≤ 64 := by decide
  have hfills (address : UInt64) := (Statement.fills_exactly (c := alignment) rfl rfl hinteger hpos
    (by decide) address).1 rfl
  have hleast : IsLeast {k | (16 : Int) ∣ k ∧ 0xffffffffffffffe1 ≤ k} 0xfffffffffffffff0 :=
    ⟨⟨by decide, by decide⟩, fun k ⟨hmultiple, hle⟩ => by omega⟩
  refine ⟨hinteger, ?_, ?_⟩
  · obtain ⟨s, hs⟩ := (hfills 0xffffffffffffffe1).succeeds.2
      ⟨0xfffffffffffffff0, ⟨by decide, by decide⟩, hleast, by decide, by decide⟩
    obtain ⟨_, ⟨_, hnext, _⟩, hbits, _⟩ := (hfills 0xffffffffffffffe1).leads s hs
    have hnext := hnext.unique hleast
    refine ⟨s, hs, UInt64.toNat_inj.1 (by exact_mod_cast hnext), ?_⟩
    rw [hbits, hnext]
    rfl
  · cases hspan : alignment.span 64 0xfffffffffffffff1 with
    | ok s =>
      obtain ⟨_, ⟨_, ⟨⟨hmultiple, hle⟩, _⟩, _, hend⟩, _⟩ := (hfills 0xfffffffffffffff1).leads s hspan
      have haddress : ((0xfffffffffffffff1 : UInt64).toNat : Int) = 0xfffffffffffffff1 := rfl
      omega
    | error f =>
      obtain ⟨t, cause, rfl, hclass⟩ := (hfills 0xfffffffffffffff1).fails f hspan
      exact ⟨t, cause, rfl, hclass⟩

end Sample

end CellAsm
