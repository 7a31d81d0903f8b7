-- SUMMARY: The code of a program: for each statement the cells it fills.
import CellAsm.Code.Packing
import CellAsm.Layout

/-!
# Code

Each statement with numbers for operands becomes a block: a run of cells at an
address. A number that does not fit where it has to go is an error.
-/
namespace CellAsm

/-- The code of one statement. -/
structure Block where
  /-- The first cell. -/
  address : UInt64 := 0
  /-- The length in bits. -/
  length : Int := 0
  cells : List UInt64 := []
  cellSize : Int := 0
  source : Token := {}
  operands : List Token := []
deriving DecidableEq, Repr

namespace Block

/-- A cell as zeros and ones. -/
def cellBits (cellSize : Int) (c : UInt64) : Text :=
  let digits := Text.numeral 2 c.toNat
  if h : digits.length < cellSize then
    copies (cellSize - digits.length) '0'.toUInt8 (by omega) ++ digits
  else digits

/-- The stated length is beyond any storage, and not because of the cells. -/
def overstated (b : Block) : Bool :=
  decide (bitsLimit ≤ b.length ∧ b.length ≠ b.cells.length * b.cellSize)

/-- All cells as zeros and ones. Room is made for the stated length first. -/
def bits (b : Block) : Except Fault Text :=
  if b.length < 0 ∨ b.overstated then .error .sizeOutOfRange
  else if b.cells ≠ [] ∧ bitsLimit ≤ b.cellSize then .error .sizeOutOfRange
  else .ok (b.cells.flatMap (cellBits b.cellSize))

end Block

-- ---------------------------------------------------------------------------
-- Packing a statement
-- ---------------------------------------------------------------------------

namespace Code

/-- The number an operand holds. -/
def operandValue (o : Token) : Except Failure Int :=
  if o.kind = .constant then
    match o.contents.trim.toInt? with
    | some v => .ok v
    | none => .error (.blame o (.malformedInteger o.contents.trim))
  else .error (.blame o (.unresolvedOperand o.contents))

def fault {α : Type} (r : Except Fault α) : Except Failure α := r.mapError .fault

/-- Packs the fields at the given positions, and the operands from position `next`
on. A field that takes no operand, or whose operand is left out, is zero. -/
def packPositions (spec : Instruction) (operands : List Token) :
    List Nat → Nat → Packed → Except Failure Packed
  | [], _, p => .ok p
  | i :: rest, next, p => do
    let f ← Strict.get spec.fields i
    if !f.takesOperand ∨ operands.length ≤ next then
      let p ← fault (p.appendZeros f.bits)
      packPositions spec operands rest next p
    else
      let o ← Strict.get operands next
      let v ← operandValue o
      fault (checkBits f.bits)
      if f.holds v then packPositions spec operands rest (next + 1) (p.append v f.bits)
      else
        .error (.blame o (.valueTooWide v (Instruction.fieldLabel f i) spec.name f.bits f.signed
          f.lo f.hi))

def packInstruction (spec : Instruction) (operands : List Token) : Except Failure Packed := do
  let f ← Strict.get spec.fields 0
  packPositions spec operands (List.range' 1 (spec.fields.length - 1)) 0
    (Packed.append {} spec.opcode.toNat f.bits)

/-- Packs each operand in `bits` bits. A number may be meant as signed or as
unsigned. -/
def packValues (bits width : Int) : List Token → Packed → Except Failure Packed
  | [], p => .ok p
  | o :: rest, p => do
    let v ← operandValue o
    if -(2 ^ (bits.toNat - 1)) ≤ v ∧ v ≤ 2 ^ bits.toNat - 1 then
      packValues bits width rest (p.append v bits)
    else .error (.blame o (.dataTooWide v width))

def packData (width : Int) (operands : List Token) : Except Failure Packed :=
  let bits := (8 * width).bmod (2 ^ 64)
  if bits ≤ 0 ∨ bitsLimit ≤ bits then .error (.fault .sizeOutOfRange)
  else packValues bits width operands {}

/-- Packs the bytes of all operands. -/
def packBytes (operands : List Token) : Packed :=
  (operands.flatMap Token.contents).foldl (fun (p : Packed) b => p.append b.toNat 8) {}

/-- Packs a statement that takes `n` bits. -/
def pack (c : Statement) (n : Int) : Except Failure Packed :=
  match c.action with
  | .instruction =>
    match c.instruction with
    | some spec => packInstruction spec c.operands
    | none => Strict.fail .absent
  | .data => packData c.width c.operands
  | .ascii => .ok (packBytes c.operands)
  | .align | .pos => fault (Packed.appendZeros {} n)
  | .unnamed _ => .error (.blame c.keyword (.unknownAction c.action.text))

/-- A number of packed bits, as a signed word unless it is the expected one. -/
def countedBits (bits expected : Int) : Int :=
  if bits = expected then expected else bits.bmod (2 ^ 64)

/-- A statement has a field of a width that no number can be stored in. -/
def hasVastField (c : Statement) : Bool :=
  c.instruction.any fun spec => spec.fields.any fun f => decide (bitsLimit ≤ f.bits)

/-- The cells of `n` bits can be stored. Only a vast field can make them too many. -/
def checkStorage (c : Statement) (n : Int) : Except Fault Unit :=
  if hasVastField c then checkBits n else .ok ()

/-- The code of a statement at `address` that takes `n` bits. -/
def block (c : Statement) (address : UInt64) (n cellSize : Int) : Except Failure Block := do
  let packed ← pack c n
  let found := countedBits packed.bits n
  if found ≠ n then .error (.blame c.keyword (.packedLength found n))
  else
    fault (checkStorage c n)
    let cells ← fault (packed.cells n cellSize)
    return {
      address := address, length := n, cells := cells, cellSize := cellSize
      source := c.keyword, operands := c.operands }

/-- The code of all statements, the first of them at `address`. -/
def generateFrom (cellSize : Int) : UInt64 → List Statement → Except Failure (List Block)
  | _, [] => .ok []
  | address, c :: rest => do
    let n ← c.lengthInBits address cellSize
    let b ← block c address n cellSize
    let next ← c.advance address n cellSize
    return b :: (← generateFrom cellSize next rest)

def generate (statements : List Statement) (start : UInt64) (cellSize : Int) :
    Except Failure (List Block) :=
  generateFrom cellSize start statements

end Code

end CellAsm
