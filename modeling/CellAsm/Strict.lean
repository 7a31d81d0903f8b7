-- SUMMARY: Operations that have a result only for some of their arguments.
import CellAsm.Fault

/-!
# Strict operations

An index or a slice has to lie within its list, a divisor is not zero, and a count
is not negative. The operations here stop with a fault where that is not so; they
never make up a result. Functions that can not fail take the operations that ask
for a proof instead.
-/
namespace CellAsm

/-- Errors that a fault can be one of. -/
class OfFault (ε : Type) where
  ofFault : Fault → ε

instance : OfFault Fault := ⟨id⟩

/-- The elements from index `i` up to but not with `j`, both of which lie within the list. -/
def within {α : Type} (l : List α) (i j : Nat) (_h : i ≤ j ∧ j ≤ l.length) : List α :=
  (l.take j).drop i

/-- As many copies of an element, and not fewer than none. -/
def copies {α : Type} (n : Int) (a : α) (_h : 0 ≤ n) : List α := List.replicate n.toNat a

namespace Strict

variable {α ε : Type} [OfFault ε]

def fail (f : Fault) : Except ε α := .error (OfFault.ofFault f)

/-- The element at an index. -/
def get (l : List α) (i : Int) : Except ε α :=
  if h : 0 ≤ i ∧ i.toNat < l.length then .ok (l.get ⟨i.toNat, h.2⟩) else fail .outOfRange

/-- The elements from index `i` up to but not with `j`. -/
def slice (l : List α) (i j : Int) : Except ε (List α) :=
  if h : 0 ≤ i ∧ i ≤ j ∧ j ≤ l.length then
    .ok (within l i.toNat j.toNat (by omega))
  else fail .outOfRange

/-- The elements from index `i` on. -/
def suffix (l : List α) (i : Int) : Except ε (List α) :=
  if 0 ≤ i ∧ i ≤ l.length then .ok (l.drop i.toNat) else fail .outOfRange

/-- What is referred to. -/
def deref : Option α → Except ε α
  | some a => .ok a
  | none => fail .absent

/-- The remainder of a word. -/
def wordMod (a b : UInt64) : Except ε UInt64 :=
  if b = 0 then fail .divisionByZero else .ok (a % b)

/-- The remainder of a number, with the sign of that number. -/
def mod (a b : Int) : Except ε Int := if b = 0 then fail .divisionByZero else .ok (a.tmod b)

/-- The quotient of two numbers, cut off towards zero. -/
def div (a b : Int) : Except ε Int := if b = 0 then fail .divisionByZero else .ok (a.tdiv b)

-- ---------------------------------------------------------------------------
-- Where the operations have a result
-- ---------------------------------------------------------------------------

theorem get_of_getElem? {l : List α} {n : Nat} {a : α} (h : l[n]? = some a) :
    get l n = (.ok a : Except ε α) := by
  obtain ⟨hlt, rfl⟩ := List.getElem?_eq_some_iff.1 h
  unfold get
  rw [dif_pos (by omega)]
  rfl

@[simp] theorem get_cons_zero (a : α) (l : List α) : get (a :: l) 0 = (.ok a : Except ε α) :=
  get_of_getElem? rfl

@[simp] theorem get_cons_one (a b : α) (l : List α) :
    get (a :: b :: l) 1 = (.ok b : Except ε α) :=
  get_of_getElem? rfl

/-- The last element. -/
theorem get_last {l : List α} {a : α} (h : l.getLast? = some a) :
    get l (l.length - 1) = (.ok a : Except ε α) := by
  have hpos : 0 < l.length := by
    cases l with
    | nil => cases h
    | cons => exact Nat.succ_pos _
  rw [List.getLast?_eq_getElem?] at h
  rw [← Int.natCast_one, ← Int.natCast_sub hpos]
  exact get_of_getElem? h

theorem slice_eq {l : List α} {i j : Nat} (hi : i ≤ j) (hj : j ≤ l.length) :
    slice l i j = (.ok ((l.take j).drop i) : Except ε (List α)) := by
  unfold slice
  rw [dif_pos (by omega)]
  rfl

/-- The elements between the first and the last. -/
theorem slice_inner (a : α) {l : List α} (h : l ≠ []) :
    slice (a :: l) 1 ((a :: l).length - 1) = (.ok l.dropLast : Except ε (List α)) := by
  have hpos := List.length_pos_iff.2 h
  have hend : ((a :: l).length - 1 : Int) = (l.length : Nat) := by simp
  rw [hend, ← Int.natCast_one, slice_eq hpos (by simp)]
  cases l with
  | nil => cases hpos
  | cons b l => simp [List.dropLast_eq_take]

theorem suffix_eq {l : List α} {i : Nat} (hi : i ≤ l.length) :
    suffix l i = (.ok (l.drop i) : Except ε (List α)) := by
  rw [suffix, if_pos (by omega)]
  rfl

@[simp] theorem suffix_cons_one (a : α) (l : List α) :
    suffix (a :: l) 1 = (.ok l : Except ε (List α)) :=
  suffix_eq (by simp)

theorem length_lt_of_suffix {l r : List α} {i : Int} (hi : 0 < i)
    (h : suffix l i = (.ok r : Except ε (List α))) : r.length < l.length := by
  unfold suffix at h
  split at h
  · cases h
    rw [List.length_drop]
    omega
  · cases h

@[simp] theorem deref_some (a : α) : deref (some a) = (.ok a : Except ε α) := rfl

/-- A step that is followed by others has a result if they have one. -/
theorem exists_of_bind {ε α β : Type} {x : Except ε α} {f : α → Except ε β} {b : β}
    (h : x >>= f = .ok b) : ∃ a, x = .ok a ∧ f a = .ok b := by
  cases x with
  | error => cases h
  | ok a => exact ⟨a, rfl, h⟩

theorem wordMod_eq {b : UInt64} (h : b ≠ 0) (a : UInt64) :
    wordMod a b = (.ok (a % b) : Except ε UInt64) :=
  if_neg h

theorem mod_eq {b : Int} (h : b ≠ 0) (a : Int) : mod a b = (.ok (a.tmod b) : Except ε Int) :=
  if_neg h

theorem div_eq {b : Int} (h : b ≠ 0) (a : Int) : div a b = (.ok (a.tdiv b) : Except ε Int) :=
  if_neg h

end Strict

end CellAsm
