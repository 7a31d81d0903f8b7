-- SUMMARY: Operand fields of an instruction: widths, ranges and named values.
import CellAsm.Fault
import CellAsm.Text.Fold

/-!
# Fields

An instruction is a row of bit fields. The first holds the opcode, each other
one an operand, or zero when none is written for it.
-/
namespace CellAsm

/-- A number that has no name where one is needed. -/
inductive NameError
  | relativity (code : Int)
  | presence (code : Int)
deriving DecidableEq, Repr

def NameError.message : NameError → Text
  | relativity n => Text.join ["invalid relativity ", Text.decimal n]
  | presence n => Text.join ["invalid field type ", Text.decimal n]

/-- What a label operand is measured from. -/
inductive Relativity
  | absolute
  /-- The address of the instruction itself. -/
  | preIncrement
  /-- The address of the following instruction. -/
  | postIncrement
  /-- A number that stands for none of the above. -/
  | unnamed (code : Int)
deriving DecidableEq, Repr

namespace Relativity

def ofCode : Int → Relativity
  | 0 => absolute
  | 1 => preIncrement
  | 2 => postIncrement
  | n => unnamed n

def code : Relativity → Int
  | absolute => 0
  | preIncrement => 1
  | postIncrement => 2
  | unnamed n => n

def name? : Relativity → Option String
  | absolute => some "absolute"
  | preIncrement => some "pcRelativePreIncrement"
  | postIncrement => some "pcRelativePostIncrement"
  | unnamed _ => none

def text : Relativity → Text
  | unnamed n => Text.join ["relativity(", Text.decimal n, ")"]
  | r => Text.ofString (r.name?.getD "")

/-- The name as it is written in a description. -/
def written (r : Relativity) : Except NameError Text :=
  match r.name? with
  | some n => .ok (Text.ofString n)
  | none => .error (.relativity r.code)

/-- Reads a name without regard to case. -/
def ofName? (t : Text) : Option Relativity :=
  [absolute, preIncrement, postIncrement].find? fun r => r.name?.any t.foldsTo

end Relativity

/-- Whether an operand is written for a field. -/
inductive Presence
  | required
  /-- May be left out at the end of a line, and is zero then. -/
  | optional
  /-- Never written, and always zero. -/
  | ignored
  /-- A number that stands for none of the above. -/
  | unnamed (code : Int)
deriving DecidableEq, Repr

namespace Presence

def ofCode : Int → Presence
  | 0 => required
  | 1 => optional
  | 2 => ignored
  | n => unnamed n

def code : Presence → Int
  | required => 0
  | optional => 1
  | ignored => 2
  | unnamed n => n

def name? : Presence → Option String
  | required => some "required"
  | optional => some "optional"
  | ignored => some "ignored"
  | unnamed _ => none

def text : Presence → Text
  | unnamed n => Text.join ["fieldtype(", Text.decimal n, ")"]
  | p => Text.ofString (p.name?.getD "")

/-- The name as it is written in a description. -/
def written (p : Presence) : Except NameError Text :=
  match p.name? with
  | some n => .ok (Text.ofString n)
  | none => .error (.presence p.code)

/-- Reads a name without regard to case. -/
def ofName? (t : Text) : Option Presence :=
  [required, optional, ignored].find? fun p => p.name?.any t.foldsTo

end Presence

/-- An integer with a name: a value of a restricted field, or a constant of the
machine. -/
structure NamedValue where
  name : Text := []
  value : Int := 0
deriving DecidableEq, Repr

structure Field where
  name : Text := []
  bits : Int := 0
  relativity : Relativity := .absolute
  presence : Presence := .required
  signed : Bool := false
  values : List NamedValue := []
deriving DecidableEq, Repr

namespace Field

/-- Only the named values are accepted. -/
def restricted (f : Field) : Bool := !f.values.isEmpty

/-- The first value with exactly this name. -/
def lookup (f : Field) (name : Text) : Option NamedValue := f.values.find? (·.name == name)

/-- The least number the field holds. A field without bits holds only zero. -/
def lo (f : Field) : Int :=
  if f.bits ≤ 0 then 0 else if f.signed then -(2 ^ (f.bits.toNat - 1)) else 0

/-- The greatest number the field holds. -/
def hi (f : Field) : Int :=
  if f.bits ≤ 0 then 0
  else if f.signed then 2 ^ (f.bits.toNat - 1) - 1 else 2 ^ f.bits.toNat - 1

def holds (f : Field) (v : Int) : Bool := decide (f.lo ≤ v ∧ v ≤ f.hi)

/-- Whether an operand is written in the source for this field. -/
def takesOperand (f : Field) : Bool := decide (0 < f.bits) && f.presence != .ignored

end Field

/-- No number of this many bits can be stored. -/
def bitsLimit : Int := 2 ^ 40

/-- A width that the bounds of a field or the packed bits of a statement can be
computed for. -/
def checkBits (n : Int) : Except Fault Unit :=
  if n < bitsLimit then .ok () else .error .sizeOutOfRange

end CellAsm
