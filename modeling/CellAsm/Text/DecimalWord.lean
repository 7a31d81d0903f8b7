-- SUMMARY: Decimal numbers that must fit in a signed word of 64 bits.
import CellAsm.Text.Integer

/-!
# Decimal words

A decimal word is an optional sign and one or more decimal digits. Its digits are
read from the left, and reading stops at the first problem: a byte that is no
digit, or a magnitude that no longer fits in 64 bits.
-/
namespace CellAsm

/-- Why a text is no decimal word. -/
inductive WordError
  | syntactic
  | outOfRange
deriving DecidableEq, Repr

def WordError.message : WordError → Text
  | syntactic => "invalid syntax"
  | outOfRange => "value out of range"

/-- Reads digits after those already read as `acc`. -/
def readMagnitude : Nat → Text → Except WordError Nat
  | acc, [] => .ok acc
  | acc, b :: rest =>
    match digitValue? 10 b with
    | none => .error .syntactic
    | some d =>
      if 2 ^ 64 ≤ acc * 10 + d then .error .outOfRange else readMagnitude (acc * 10 + d) rest

namespace Text

/-- The magnitude of a decimal word. -/
def toMagnitude : Text → Except WordError Nat
  | [] => .error .syntactic
  | b :: rest => readMagnitude 0 (b :: rest)

/-- The number with the given sign, if it is a signed word. -/
def checkWord (n : Int) : Except WordError Int :=
  if -(2 ^ 63) ≤ n ∧ n < 2 ^ 63 then .ok n else .error .outOfRange

/-- The number a decimal word denotes. -/
def toWord : Text → Except WordError Int
  | 0x2D :: t => do checkWord (-(← toMagnitude t))
  | 0x2B :: t => do checkWord (← toMagnitude t)
  | t => do checkWord (← toMagnitude t)

end Text

end CellAsm
