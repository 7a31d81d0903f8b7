-- SUMMARY: Integers as rows of bits, and the numbers that rows of bits denote.
import CellAsm.Field
import Mathlib.Tactic.Linarith
import Mathlib.Tactic.Positivity
import Mathlib.Tactic.Ring

/-!
# Rows of bits

What is packed into cells is a row of bits. A row is written from an integer and a
width, in two's complement and with the most significant bit first, and it is read
as an unsigned or as a signed number. A field that holds an integer gives it back.
-/
namespace CellAsm

/-- The lowest `width` bits of an integer, the most significant first. -/
def bitsOf : Nat → Int → List Bool
  | 0, _ => []
  | width + 1, v => decide (v / 2 ^ width % 2 = 1) :: bitsOf width v

/-- The number a row of bits denotes. -/
def natOfBits : List Bool → Nat
  | [] => 0
  | b :: bits => b.toNat * 2 ^ bits.length + natOfBits bits

/-- The number a row of bits denotes in two's complement: its first bit counts
negatively. -/
def intOfBits : List Bool → Int
  | [] => 0
  | b :: bits => natOfBits bits - b.toNat * 2 ^ bits.length

@[simp] theorem length_bitsOf (width : Nat) (v : Int) : (bitsOf width v).length = width := by
  induction width with
  | zero => rfl
  | succ width ih => rw [bitsOf, List.length_cons, ih]

/-! ## Joining rows -/

/-- A row splits into the bits of the quotient and those of the number itself. -/
theorem bitsOf_add (front back : Nat) (v : Int) :
    bitsOf (front + back) v = bitsOf front (v / 2 ^ back) ++ bitsOf back v := by
  induction front with
  | zero => rw [Nat.zero_add, bitsOf, List.nil_append]
  | succ front ih =>
    have hquot : v / 2 ^ back / 2 ^ front = v / 2 ^ (front + back) := by
      rw [Int.ediv_ediv_of_nonneg (by positivity), ← pow_add, Nat.add_comm]
    rw [Nat.succ_add, bitsOf, bitsOf, hquot, ih, List.cons_append]

/-- Bits beyond the width of a row do not show in it. -/
theorem bitsOf_add_mul (width : Nat) (v k : Int) : bitsOf width (v + 2 ^ width * k) = bitsOf width v := by
  induction width generalizing k with
  | zero => rfl
  | succ width ih =>
    have hsplit : v + 2 ^ (width + 1) * k = v + 2 ^ width * (2 * k) := by ring
    have hquot : (v + 2 ^ width * (2 * k)) / 2 ^ width = v / 2 ^ width + 2 * k :=
      Int.add_mul_ediv_left _ _ (by positivity)
    rw [bitsOf, bitsOf, hsplit, hquot, ih, Int.add_mul_emod_self_left]

theorem bitsOf_emod (width : Nat) (v : Int) : bitsOf width (v % 2 ^ width) = bitsOf width v := by
  have h := bitsOf_add_mul width (v % 2 ^ width) (v / 2 ^ width)
  rw [Int.emod_add_mul_ediv] at h
  exact h.symm

@[simp] theorem bitsOf_zero (width : Nat) : bitsOf width 0 = List.replicate width false := by
  induction width with
  | zero => rfl
  | succ width ih => simp [bitsOf, ih, List.replicate_succ]

/-! ## Reading rows -/

theorem toNat_decide_emod_two (n : Int) : ((decide (n % 2 = 1)).toNat : Int) = n % 2 := by
  rcases Int.emod_two_eq_zero_or_one n with h | h
  · simp [h]
  · simp [h]

/-- The remainder by twice a power: the next bit, and the bits below it. -/
theorem emod_two_pow_succ (v : Int) (width : Nat) :
    v % 2 ^ (width + 1) = v / 2 ^ width % 2 * 2 ^ width + v % 2 ^ width := by
  have hpos : (0 : Int) < 2 ^ width := by positivity
  have hlo := Int.emod_nonneg v hpos.ne'
  have hhi := Int.emod_lt_of_pos v hpos
  have hquot := Int.emod_add_mul_ediv v (2 ^ width)
  have hhalf := Int.emod_add_mul_ediv (v / 2 ^ width) 2
  have hsum : v / 2 ^ width % 2 * 2 ^ width + v % 2 ^ width
      + 2 ^ (width + 1) * (v / 2 ^ width / 2) = v := by
    calc v / 2 ^ width % 2 * 2 ^ width + v % 2 ^ width + 2 ^ (width + 1) * (v / 2 ^ width / 2)
        = v % 2 ^ width + 2 ^ width * (v / 2 ^ width % 2 + 2 * (v / 2 ^ width / 2)) := by ring
      _ = v := by rw [hhalf, hquot]
  have hbit : v / 2 ^ width % 2 = 0 ∨ v / 2 ^ width % 2 = 1 := Int.emod_two_eq_zero_or_one _
  refine ((Int.ediv_emod_unique (by positivity)).2 ⟨hsum, ?_, ?_⟩).2
  · rcases hbit with h | h <;> rw [h] <;> linarith
  · rw [pow_succ]
    rcases hbit with h | h <;> rw [h] <;> linarith

/-- A row of bits denotes the integer it was written from, up to the width. -/
theorem natOfBits_bitsOf (width : Nat) (v : Int) : (natOfBits (bitsOf width v) : Int) = v % 2 ^ width := by
  induction width with
  | zero => simp [bitsOf, natOfBits]
  | succ width ih =>
    rw [bitsOf, natOfBits, length_bitsOf]
    push_cast
    rw [toNat_decide_emod_two, ih, emod_two_pow_succ]

theorem natOfBits_lt (bits : List Bool) : natOfBits bits < 2 ^ bits.length := by
  induction bits with
  | nil => decide
  | cons b bits ih =>
    have hb : b.toNat * 2 ^ bits.length ≤ 2 ^ bits.length := by
      cases b <;> simp
    rw [natOfBits, List.length_cons, pow_succ]
    omega

/-- A row of bits is written again from the number it denotes. -/
theorem bitsOf_natOfBits (bits : List Bool) : bitsOf bits.length (natOfBits bits) = bits := by
  induction bits with
  | nil => rfl
  | cons b bits ih =>
    have hlt : (natOfBits bits : Int) < 2 ^ bits.length := by exact_mod_cast natOfBits_lt bits
    have hpos : (0 : Int) < 2 ^ bits.length := by positivity
    have hnumber : ((natOfBits (b :: bits) : Nat) : Int) =
        natOfBits bits + 2 ^ bits.length * b.toNat := by
      rw [natOfBits]
      push_cast
      ring
    have hquot : ((natOfBits bits : Int) + 2 ^ bits.length * b.toNat) / 2 ^ bits.length = b.toNat := by
      rw [Int.add_mul_ediv_left _ _ hpos.ne', Int.ediv_eq_zero_of_lt (by positivity) hlt, zero_add]
    have hbit : decide ((b.toNat : Int) % 2 = 1) = b := by cases b <;> rfl
    rw [List.length_cons, bitsOf, hnumber, hquot, hbit, bitsOf_add_mul, ih]

/-- Read as signed, a row of bits gives back every integer that fits. -/
theorem intOfBits_bitsOf {width : Nat} {v : Int} (hlo : -(2 ^ width) ≤ v) (hhi : v ≤ 2 ^ width - 1) :
    intOfBits (bitsOf (width + 1) v) = v := by
  rw [bitsOf, intOfBits, length_bitsOf, toNat_decide_emod_two, natOfBits_bitsOf]
  by_cases hneg : v < 0
  · have hquot : v / 2 ^ width = -1 := by
      rw [Int.ediv_eq_iff_of_pos (by positivity)]
      constructor
      · linarith
      · linarith
    have hdiv := Int.emod_add_mul_ediv v (2 ^ width)
    rw [hquot] at hdiv ⊢
    norm_num
    linarith
  · have hquot : v / 2 ^ width = 0 := Int.ediv_eq_zero_of_lt (by omega) (by linarith)
    have hmod : v % 2 ^ width = v := Int.emod_eq_of_lt (by omega) (by linarith)
    rw [hquot, hmod]
    norm_num

/-! ## Fields -/

namespace Field

/-- The integer that the bits of a field stand for. -/
def decode (f : Field) (bits : List Bool) : Int :=
  if f.signed then intOfBits bits else natOfBits bits

/-- The three kinds of fields and what they hold. -/
theorem holds_cases {f : Field} {v : Int} (h : f.holds v) :
    (f.bits ≤ 0 ∧ v = 0) ∨
    (0 < f.bits ∧ f.signed ∧ -(2 ^ (f.bits.toNat - 1)) ≤ v ∧ v ≤ 2 ^ (f.bits.toNat - 1) - 1) ∨
    (0 < f.bits ∧ f.signed = false ∧ 0 ≤ v ∧ v ≤ 2 ^ f.bits.toNat - 1) := by
  unfold holds at h
  obtain ⟨hlo, hhi⟩ := of_decide_eq_true h
  unfold lo at hlo
  unfold hi at hhi
  by_cases hbits : f.bits ≤ 0
  · rw [if_pos hbits] at hlo hhi
    exact .inl ⟨hbits, by omega⟩
  · rw [if_neg hbits] at hlo hhi
    cases hsigned : f.signed with
    | true =>
      rw [hsigned, if_pos rfl] at hlo hhi
      exact .inr (.inl ⟨by omega, rfl, hlo, hhi⟩)
    | false =>
      rw [hsigned, if_neg (by decide)] at hlo hhi
      exact .inr (.inr ⟨by omega, rfl, hlo, hhi⟩)

/-- A field gives back every integer that it holds. -/
theorem decode_bitsOf {f : Field} {v : Int} (h : f.holds v) :
    f.decode (bitsOf f.bits.toNat v) = v := by
  unfold decode
  rcases holds_cases h with ⟨hbits, rfl⟩ | ⟨hbits, hsigned, hlo, hhi⟩ | ⟨hbits, hsigned, hlo, hhi⟩
  · have hwidth : f.bits.toNat = 0 := by omega
    rw [hwidth]
    split <;> rfl
  · have hwidth : f.bits.toNat = f.bits.toNat - 1 + 1 := by omega
    rw [if_pos hsigned, hwidth]
    exact intOfBits_bitsOf hlo hhi
  · rw [hsigned, if_neg (by decide), natOfBits_bitsOf]
    exact Int.emod_eq_of_lt hlo (by linarith)

/-- Whatever the bits of a field are, the field holds what they stand for. -/
theorem holds_decode {f : Field} {bits : List Bool} (h : bits.length = f.bits.toNat) :
    f.holds (f.decode bits) := by
  have hlt := natOfBits_lt bits
  unfold holds
  refine decide_eq_true ?_
  unfold lo hi decode
  by_cases hbits : f.bits ≤ 0
  · have hnil : bits = [] := List.length_eq_zero_iff.1 (by omega)
    rw [hnil, if_pos hbits, if_pos hbits]
    cases f.signed <;> decide
  · rw [if_neg hbits, if_neg hbits]
    cases f.signed with
    | true =>
      cases bits with
      | nil => simp only [List.length_nil] at h; omega
      | cons b bits =>
        have hrest := natOfBits_lt bits
        have hwidth : f.bits.toNat - 1 = bits.length := by
          rw [List.length_cons] at h
          omega
        rw [if_pos rfl, if_pos rfl, if_pos rfl, hwidth, intOfBits]
        zify at hrest
        cases b <;> constructor <;> simp <;> linarith
    | false =>
      rw [h] at hlt
      zify at hlt
      constructor
      · exact Int.natCast_nonneg _
      · exact Int.le_sub_one_of_lt hlt

/-- What a field holds fits its width, as a signed or as an unsigned number. -/
theorem bounds_of_holds {f : Field} {v : Int} (h : f.holds v) :
    -(2 ^ f.bits.toNat) ≤ v ∧ v < 2 ^ f.bits.toNat := by
  have hpos : (0 : Int) < 2 ^ f.bits.toNat := by positivity
  rcases holds_cases h with ⟨_, rfl⟩ | ⟨_, _, hlo, hhi⟩ | ⟨_, _, hlo, hhi⟩
  · constructor <;> linarith
  · have hhalf : (2 : Int) ^ (f.bits.toNat - 1) ≤ 2 ^ f.bits.toNat :=
      pow_le_pow_right₀ (by norm_num) (by omega)
    constructor <;> linarith
  · constructor <;> linarith

end Field

end CellAsm
