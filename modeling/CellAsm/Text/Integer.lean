-- SUMMARY: Integer literals: decimal, hexadecimal and binary, with an optional sign.
import CellAsm.Strict
import CellAsm.Text.Basic

/-!
# Integer literals

A literal is an optional sign and then one or more decimal digits, or `0x` and
one or more hexadecimal digits, or `0b` and one or more binary digits. The
letters may have either case. Nothing else is a literal; in particular a blank
before or after the digits is not allowed.

The digits are read by a reader of integers in general, which takes a sign as well.
So what may stand behind the sign and the marker of the base is checked apart.
-/
namespace CellAsm

/-- The value of a digit byte, if it is a digit of the base. -/
def digitValue? (base : Nat) (b : UInt8) : Option Nat :=
  let n := b.toNat
  let value :=
    if 48 ≤ n ∧ n ≤ 57 then n - 48
    else if 97 ≤ n ∧ n ≤ 102 then n - 87
    else if 65 ≤ n ∧ n ≤ 70 then n - 55
    else base
  if value < base then some value else none

/-- Reads digits after those already read as `acc`. -/
def readDigits? (base : Nat) : Nat → Text → Option Nat
  | acc, [] => some acc
  | acc, b :: rest =>
    match digitValue? base b with
    | some d => readDigits? base (acc * base + d) rest
    | none => none

namespace Text

/-- The number that one or more digits of the base denote. -/
def ofDigits? (base : Nat) : Text → Option Nat
  | [] => none
  | b :: rest => readDigits? base 0 (b :: rest)

end Text

-- ---------------------------------------------------------------------------
-- Signs and markers
-- ---------------------------------------------------------------------------

/-- Starts with a minus or a plus. -/
def isSigned (t : Text) : Bool := t.head? == some 0x2D || t.head? == some 0x2B

theorem length_pos_of_isSigned {t : Text} (h : isSigned t) : 1 ≤ t.length := by
  cases t with
  | nil => cases h
  | cons => exact Nat.succ_pos _

/-- The sign of a numeral, if it has one, and the rest. -/
def splitSign (t : Text) : Text × Text :=
  if h : isSigned t then
    (within t 0 1 ⟨Nat.zero_le 1, length_pos_of_isSigned h⟩,
      within t 1 t.length ⟨length_pos_of_isSigned h, Nat.le_refl _⟩)
  else ([], t)

/-- The integer with the given sign in front. -/
def applySign (sign : Text) (v : Int) : Int := if sign = [0x2D] then -v else v

/-- Starts with a zero and the letter of a base, in either case. -/
def isMarked (lower upper : UInt8) (t : Text) : Bool :=
  t.head? == some 0x30 && (t[1]? == some lower || t[1]? == some upper)

theorem length_of_isMarked {lower upper : UInt8} {t : Text} (h : isMarked lower upper t) :
    2 ≤ t.length := by
  match t with
  | [] => cases h
  | [_] => simp [isMarked] at h
  | _ :: _ :: _ => simp

/-- The base of an unsigned numeral, and what stands behind its marker. -/
def splitBase (t : Text) : Nat × Text :=
  if h : isMarked 0x78 0x58 t then (16, within t 2 t.length ⟨length_of_isMarked h, Nat.le_refl _⟩)
  else if h : isMarked 0x62 0x42 t then
    (2, within t 2 t.length ⟨length_of_isMarked h, Nat.le_refl _⟩)
  else (10, t)

-- ---------------------------------------------------------------------------
-- Literals
-- ---------------------------------------------------------------------------

namespace Text

/-- Reads an integer of a base as numbers are read in general: a sign, or none,
and then one or more digits up to the end. -/
def ofSigned? (base : Nat) (t : Text) : Option Int :=
  (ofDigits? base (splitSign t).2).map fun (n : Nat) => applySign (splitSign t).1 n

/-- The characters that a number may have in general, but not the digits of a
literal: signs, and the underscore. -/
def isForeign (b : UInt8) : Bool := b == 0x2B || b == 0x2D || b == 0x5F

/-- The integer a literal denotes. -/
def toInt? (t : Text) : Option Int :=
  let (sign, magnitude) := splitSign t
  let (base, ds) := splitBase magnitude
  match ofSigned? base ds with
  | some v => if ds = [] ∨ ds.any isForeign then none else some (applySign sign v)
  | none => none

end Text

end CellAsm
