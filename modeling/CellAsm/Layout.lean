-- SUMMARY: How many bits a statement takes at an address, and which address follows it.
import CellAsm.Diagnostic
import CellAsm.Statement
import CellAsm.Text.Integer

/-!
# Layout

Statements are laid out one after the other in a store of cells. The length of a
statement may depend on the address it is placed at, and is always a whole number
of cells.
-/
namespace CellAsm.Statement

/-- The value of the sole operand of an alignment or position. -/
def cellOperand (s : Statement) : Except Failure UInt64 :=
  if s.operands.length ≠ 1 then .error (.blame s.keyword (.soleOperand s.keyword.contents))
  else do
    let o ← Strict.get s.operands 0
    if o.kind ≠ .constant then
      .error (.blame o (.constantNeeded s.keyword.contents o.contents))
    else match o.contents.trim.toInt? with
      | none => .error (.blame o (.malformedInteger o.contents))
      | some v =>
        if v < 0 ∨ 2 ^ 64 ≤ v then .error (.blame o (.outOfRange o.contents))
        else .ok (UInt64.ofNat v.toNat)

/-- The bits of a number of zero cells that the operand asks for. -/
def fill (s : Statement) (cells : UInt64) (cellSize : Int) : Except Failure Int :=
  if maxFillCells < cells.toNat then do
    let o ← Strict.get s.operands 0
    .error (.blame o (.fillTooLong s.keyword.contents o.contents cells))
  else .ok ((cells.toNat * cellSize).bmod (2 ^ 64))

/-- The bits that a statement at `address` emits, which need not fill whole cells. -/
def emittedBits (s : Statement) (address : UInt64) (cellSize : Int) : Except Failure Int :=
  match s.action with
  | .instruction =>
    match s.instruction with
    | some spec => .ok spec.lengthInBits
    | none => .error (.blame s.keyword .noInstruction)
  | .data => .ok (totalWidth (s.operands.map fun _ => 8 * s.width))
  | .ascii => .ok (s.operands.map fun o => 8 * (o.contents.length : Int)).sum
  | .align => do
    let v ← s.cellOperand
    if v = 0 then
      let o ← Strict.get s.operands 0
      .error (.blame o .zeroAlignment)
    else
      let past ← Strict.wordMod address v
      s.fill (← Strict.wordMod (v - past) v) cellSize
  | .pos => do
    let v ← s.cellOperand
    if v < address then
      let o ← Strict.get s.operands 0
      .error (.blame o (.positionBehind v address))
    else s.fill (v - address) cellSize
  | .unnamed _ => .error (.blame s.keyword (.unknownAction s.action.text))

/-- The length in bits of a statement at `address`: a multiple of the cell size. -/
def lengthInBits (s : Statement) (address : UInt64) (cellSize : Int) : Except Failure Int := do
  let n ← s.emittedBits address cellSize
  if (← Strict.mod n cellSize) = 0 then .ok n
  else .error (.blame s.keyword (.partialCell n cellSize))

/-- A number of cells as an unsigned word. -/
def cellWord (cells : Int) : Int := if cells < 0 then cells + 2 ^ 64 else cells

/-- The address after a statement of `n` bits. It must not run past the end of
the address space. -/
def advance (s : Statement) (address : UInt64) (n cellSize : Int) : Except Failure UInt64 := do
  let next := address.toNat + cellWord (← Strict.div n cellSize)
  if next < 2 ^ 64 then .ok (UInt64.ofNat next.toNat)
  else .error (.blame s.keyword (.addressOverflow address))

end CellAsm.Statement
