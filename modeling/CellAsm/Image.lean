-- SUMMARY: A store of cells that code is loaded into, and its byte and hex images.
import CellAsm.Code.Block
import CellAsm.Output

/-!
# Images

A store holds a number of cells of one size, all zero at first. Code is loaded
into it block by block, and the result is written as a stream of bytes or as
lines of hexadecimal numbers. Only what was loaded is kept, so a store may be
large as long as little is written to it.
-/
namespace CellAsm

/-- Cells written from an address on. -/
structure Run where
  address : Nat
  cells : Array UInt64
deriving DecidableEq, Repr

/-- The cell that a run has written at an address. -/
def Run.get? (r : Run) (i : Nat) : Option UInt64 :=
  if r.address ≤ i then r.cells[i - r.address]? else none

structure Store where
  cellSize : Nat
  /-- The number of cells. -/
  size : Nat
  /-- What was written, the last first. -/
  runs : List Run := []
deriving DecidableEq, Repr

inductive StoreError
  | cellSize (bits : Int)
  | negativeSize (size : Int)
  | otherCellSize (address : UInt64) (bits : Int) (expected : Nat)
  | pastEnd (address stop : UInt64) (size : Nat)
  /-- The block has no meaning as part of a store. -/
  | fault (f : Fault)
deriving DecidableEq, Repr

def StoreError.message : StoreError → Text
  | cellSize bits => Text.join ["cell size ", Text.decimal bits, " outside 1..64"]
  | negativeSize size => Text.join ["negative size ", Text.decimal size]
  | otherCellSize address bits expected =>
    Text.join ["instruction at ", Text.decimal address.toNat, " has ", Text.decimal bits,
      "-bit cells, RAM has ", Text.decimal expected]
  | pastEnd address stop size =>
    Text.join ["instruction at ", Text.decimal address.toNat, " ends at ",
      Text.decimal stop.toNat, ", past the end of RAM (", Text.decimal size, " cells)"]
  | fault _ => []

namespace Store

/-- No store has more cells than this. -/
def maxSize : Int := 2 ^ 45

/-- A store of zero cells. -/
def create (size cellSize : Int) : Except StoreError Store :=
  if cellSize < 1 ∨ 64 < cellSize then .error (.cellSize cellSize)
  else if size < 0 then .error (.negativeSize size)
  else if maxSize < size then .error (.fault .sizeOutOfRange)
  else .ok { cellSize := cellSize.toNat, size := size.toNat }

/-- The cell at an address: what was written there last, or zero. -/
def get (s : Store) (i : Nat) : UInt64 := (s.runs.findSome? (·.get? i)).getD 0

/-- All cells in order. -/
def cells (s : Store) : List UInt64 := (List.range s.size).map s.get

/-- Writes cells from an address on. -/
def write (s : Store) (address : Nat) (cells : List UInt64) : Store :=
  { s with runs := ⟨address, cells.toArray⟩ :: s.runs }

/-- The address behind a block, as a word. -/
def stopOf (b : Block) : UInt64 := b.address + UInt64.ofNat b.cells.length

/-- Writes one block to its address. -/
def loadBlock (s : Store) (b : Block) : Except StoreError Store :=
  if b.cellSize ≠ s.cellSize then
    .error (.otherCellSize b.address b.cellSize s.cellSize)
  else if s.size < (stopOf b).toNat then
    .error (.pastEnd b.address (stopOf b) s.size)
  else if stopOf b < b.address then .error (.fault .outOfRange)
  else .ok (s.write b.address.toNat b.cells)

/-- Writes the blocks in order up to the first that fails. What was written
before stays. -/
def load (s : Store) : List Block → Store × Option StoreError
  | [] => (s, none)
  | b :: rest =>
    match s.loadBlock b with
    | .ok s => s.load rest
    | .error e => (s, some e)

/-- Sets a single cell. -/
def set (s : Store) (i : Int) (value : UInt64) : Except Fault Store :=
  if 0 ≤ i ∧ i < s.size then .ok (s.write i.toNat [value])
  else .error .outOfRange

-- ---------------------------------------------------------------------------
-- Bytes
-- ---------------------------------------------------------------------------

/-- Bytes that are filled bit by bit. -/
structure Packer where
  /-- The bytes that are full. -/
  out : Array UInt8 := #[]
  /-- The bits of the next byte so far. -/
  acc : UInt64 := 0
  /-- How many they are. -/
  count : Nat := 0

/-- The bit of a cell at a position. -/
def bitAt (c : UInt64) (i : Nat) : UInt64 := UInt64.ofNat (c.toNat >>> i) &&& 1

namespace Packer

/-- Takes one bit. The eighth completes a byte. -/
def push (p : Packer) (bit : UInt64) : Packer :=
  let acc := p.acc <<< 1 ||| bit
  if p.count + 1 = 8 then { out := p.out.push acc.toUInt8 }
  else { p with acc := acc, count := p.count + 1 }

/-- Takes the lowest bits of a cell, the most significant first. -/
def pushCell (c : UInt64) : Nat → Packer → Packer
  | 0, p => p
  | i + 1, p => pushCell c i (p.push (bitAt c i))

/-- All bytes; the last is filled up with zeros. -/
def bytes (p : Packer) : Text :=
  if 0 < p.count then (p.out.push (p.acc <<< UInt64.ofNat (8 - p.count)).toUInt8).toList
  else p.out.toList

end Packer

/-- The cells from `first` up to but not with `stop`, as far as they exist. -/
def slice (s : Store) (first stop : Int) : Except Fault (List UInt64) :=
  let first := max first 0
  let stop := min stop s.size
  if stop < first then .error .outOfRange
  else .ok ((List.range' first.toNat (stop - first).toNat).map s.get)

/-- A range of cells as a stream of bits, in bytes. -/
def bytes (s : Store) (first stop : Int) : Except Fault Text := do
  let cells ← s.slice first stop
  return (cells.foldl (fun p c => p.pushCell c s.cellSize) ({} : Packer)).bytes

-- ---------------------------------------------------------------------------
-- Hexadecimal lines
-- ---------------------------------------------------------------------------

/-- The digits that a cell takes. -/
def hexDigits (s : Store) : Nat := (s.cellSize + 3) / 4

/-- Address and value of a cell. -/
def hexLine (s : Store) (address : Nat) : Text :=
  Text.join [Text.hex 8 address, ": ", Text.hex s.hexDigits (s.get address).toNat, "\n"]

/-- A line for each cell from `first` up to but not with `stop`. -/
def hexLines (s : Store) (first stop : Int) : List (Except Fault Text) :=
  let stop := min stop s.size
  if stop ≤ first then []
  else if first < 0 then [.error .outOfRange]
  else (List.range (stop - first).toNat).map fun i => .ok (s.hexLine (first.toNat + i))

def writeHex (s : Store) (w : Writer) (first stop : Int) : Except Fault Written :=
  w.write "write hex" (s.hexLines first stop)

end Store

-- ---------------------------------------------------------------------------
-- Extent
-- ---------------------------------------------------------------------------

/-- The first cell that code takes and the one behind its last. -/
def extent (code : List Block) : UInt64 × UInt64 :=
  match code with
  | [] => (0, 0)
  | b :: _ =>
    (code.foldl (fun first c => min first c.address) b.address,
      code.foldl (fun stop c => max stop (Store.stopOf c)) 0)

/-- A word as a signed number. -/
def signed (n : UInt64) : Int := n.toInt64.toInt

/-- The store just large enough for the code, loaded with it, and the extent of
the code. -/
def loadImage (code : List Block) (cellSize : Int) : Except StoreError (Store × UInt64 × UInt64) :=
  do
  let (first, stop) := extent code
  let store ← Store.create (signed stop) cellSize
  match store.load code with
  | (store, none) => return (store, first, stop)
  | (_, some e) => .error e

end CellAsm
