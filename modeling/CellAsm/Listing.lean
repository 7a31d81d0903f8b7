-- SUMMARY: Listings: code next to the source lines it comes from.
import CellAsm.Code.Block
import CellAsm.Output
import CellAsm.Table

/-!
# Listings

A listing has one line per block: its address, its cells in hexadecimal, its
bits, and the source line it comes from, if the source is at hand.
-/
namespace CellAsm.Listing

/-- The text with every carriage return in front of a newline removed. -/
def unixLines : Text → Text
  | 0x0D :: 0x0A :: rest => 0x0A :: unixLines rest
  | b :: rest => b :: unixLines rest
  | [] => []

/-- The trimmed line a position lies on; empty if the source is not known. -/
def sourceLine (sources : Table Text) (p : Position) : Text :=
  match sources.find? p.file with
  | none => []
  | some contents =>
    let lines := (unixLines contents).splitAtByte '\n'.toUInt8
    if h : 1 ≤ p.line ∧ p.line ≤ lines.length then
      Text.trim (lines.get ⟨(p.line - 1).toNat, by omega⟩)
    else []

/-- The widest column a cell is set in. -/
def maxColumn : Int := 1000000

/-- A cell in hexadecimal, in the given number of digits. A negative number sets
it in a column of that width, from the left; one that is too large is noted. -/
def cellText (digits : Int) (c : UInt64) : Text :=
  if maxColumn < digits ∨ digits < -maxColumn then
    Text.ofString "%!(BADWIDTH)" ++ Text.hex 0 c.toNat
  else if digits < 0 then (Text.hex 0 c.toNat).rightpad digits.natAbs ' '.toUInt8
  else Text.hex digits.toNat c.toNat

def line (sources : Table Text) (b : Block) : Except Fault Text := do
  let digits := (b.cellSize + 3).tdiv 4
  let cells := Text.joinWith " " (b.cells.map (cellText digits))
  let bits ← if b.cells.isEmpty then pure [] else (b.bits).map (Text.ofString "  " ++ ·)
  let source := sourceLine sources b.source.position
  let source := if source = [] then [] else '\t'.toUInt8 :: source
  return Text.join [Text.hex 8 b.address.toNat, " ", cells, bits, source, "\n"]

/-- The lines of a listing. -/
def lines (code : List Block) (sources : Table Text) : List (Except Fault Text) :=
  code.map (line sources)

def write (w : Writer) (code : List Block) (sources : Table Text) : Except Fault Written :=
  w.write "write listing" (lines code sources)

end CellAsm.Listing
