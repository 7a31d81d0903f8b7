-- SUMMARY: Character classes as sorted lists of code point ranges.
import CellAsm.Text.Utf8

/-!
# Character classes

A class is a list of ranges of code points, both ends included, in increasing
order and apart from each other.
-/
namespace CellAsm

abbrev CharClass := List (Nat × Nat)

namespace CharClass

/-- Looks at the first range that does not end before `n`. -/
def hasCode : CharClass → Nat → Bool
  | [], _ => false
  | (lo, hi) :: rest, n => if n ≤ hi then decide (lo ≤ n) else hasCode rest n

def contains (k : CharClass) (c : Char) : Bool := k.hasCode c.toNat

end CharClass

end CellAsm
