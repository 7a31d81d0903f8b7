-- SUMMARY: Reasons for which an operation on unchecked data has no result.

/-!
# Faults

The passes and the memory image also take data that no description or source
could have produced: a cell size of zero, an instruction without fields, a field
of negative width. Where such data leaves an operation without a meaning, it
stops with a fault, which is not an error of the program being assembled.
-/
namespace CellAsm

inductive Fault
  /-- A length was divided by a cell size of zero. -/
  | divisionByZero
  /-- An element outside its list was asked for. -/
  | outOfRange
  /-- A width or size is negative or beyond any storage. -/
  | sizeOutOfRange
  /-- There is no object to work on yet. -/
  | absent
deriving DecidableEq, Repr

end CellAsm
