-- SUMMARY: Machine descriptions and what makes one usable.
import CellAsm.Instruction
import CellAsm.Punctuation

/-!
# Machines

A machine description lists the instructions, the size of a code cell, constants
that every program may use, and the roles of punctuation characters. It may hold
anything; `Machine.validate` says whether programs can be assembled for it.
-/
namespace CellAsm

structure Machine where
  name : Text := []
  cellSize : Int := 0
  /-- The instructions as listed; a description may also lack the list. -/
  instructionList : Option (List Instruction) := none
  equs : List NamedValue := []
  punctuation : Option Punctuation := none
deriving DecidableEq, Repr

namespace Machine

def instructions (m : Machine) : List Instruction := m.instructionList.getD []

/-- The first instruction with exactly this name. -/
def instruction? (m : Machine) (name : Text) : Option Instruction :=
  m.instructions.find? (·.name == name)

/-- The first constant with exactly this name. -/
def equ? (m : Machine) (name : Text) : Option NamedValue := m.equs.find? (·.name == name)

/-- The punctuation in force, which is the standard one unless the description
has its own. -/
def punctuationTable (m : Machine) : Punctuation := m.punctuation.getD .standard

/-- The description an assembler keeps: no list is missing, and the punctuation
is spelled out. -/
def snapshot (m : Machine) : Machine :=
  { m with
    instructionList := some (m.instructions.map fun s => { s with fieldList := some s.fields })
    punctuation := some m.punctuationTable }

end Machine

-- ---------------------------------------------------------------------------
-- Validity of an instruction
-- ---------------------------------------------------------------------------

/-- A name that can be written as one word. -/
def isPlainName (name : Text) : Bool :=
  !name.isEmpty && !name.contains ' '.toUInt8 && !name.contains '\t'.toUInt8

namespace Instruction

inductive Defect
  | name (name : Text)
  | noOpcodeField
  | opcodeWidth (bits : Int)
  | opcodeField
  | opcodeTooLarge (opcode : UInt64) (bits : Int)
  | fieldWidth (position : Nat) (bits : Int)
  | duplicateValue (position : Nat) (name : Text)
  | valueTooLarge (position : Nat) (value : NamedValue) (bits : Int)
  | length (bits cellSize : Int)
deriving DecidableEq, Repr

def Defect.message : Defect → Text
  | name n => Text.join ["invalid name ", n.quoted]
  | noOpcodeField => "no opcode field"
  | opcodeWidth bits => Text.join ["opcode field width ", Text.decimal bits, " outside 1..64"]
  | opcodeField => "opcode field must be absolute, required and unrestricted"
  | opcodeTooLarge opcode bits =>
    Text.join ["opcode 0x", Text.hex 0 opcode.toNat, " does not fit in ", Text.decimal bits, " bits"]
  | fieldWidth i bits =>
    Text.join ["field ", Text.decimal i, " width ", Text.decimal bits, " outside 0..64"]
  | duplicateValue i n => Text.join ["field ", Text.decimal i, ": duplicate value name ", n]
  | valueTooLarge i v bits =>
    Text.join ["field ", Text.decimal i, ": value ", v.name, "=", Text.decimal v.value,
      " does not fit in ", Text.decimal bits, " bits"]
  | length bits cellSize =>
    Text.join ["length ", Text.decimal bits, " bits is not a multiple of the ",
      Text.decimal cellSize, "-bit cell size"]

/-- The named values of the field at position `i` have different names and fit. -/
def checkValues (f : Field) (i : Nat) : List Text → List NamedValue → Except Defect Unit
  | _, [] => .ok ()
  | seen, v :: rest =>
    if seen.contains v.name then .error (.duplicateValue i v.name)
    else if f.holds v.value then checkValues f i (v.name :: seen) rest
    else .error (.valueTooLarge i v f.bits)

/-- An operand field. -/
def checkField (f : Field) (i : Nat) : Except Defect Unit :=
  if f.bits < 0 ∨ 64 < f.bits then .error (.fieldWidth i f.bits)
  else checkValues f i [] f.values

def checkOpcode (opcode : UInt64) (f : Field) : Except Defect Unit :=
  if f.bits ≤ 0 ∨ 64 < f.bits then .error (.opcodeWidth f.bits)
  else if f.relativity ≠ .absolute ∨ f.presence ≠ .required ∨ f.restricted then
    .error .opcodeField
  else if 2 ^ f.bits.toNat ≤ opcode.toNat then .error (.opcodeTooLarge opcode f.bits)
  else .ok ()

def validate (cellSize : Int) (s : Instruction) : Except Defect Unit :=
  if isPlainName s.name then
    match s.fields with
    | [] => .error .noOpcodeField
    | opcodeField :: operands => do
      checkOpcode s.opcode opcodeField
      (operands.zipIdx 1).forM fun (f, i) => checkField f i
      if s.lengthInBits.tmod cellSize = 0 then .ok ()
      else .error (.length s.lengthInBits cellSize)
  else .error (.name s.name)

end Instruction

-- ---------------------------------------------------------------------------
-- Validity of a machine
-- ---------------------------------------------------------------------------

namespace Machine

inductive Defect
  | cellSize (bits : Int)
  | punctuation (defect : Punctuation.Defect)
  | instruction (name : Text) (defect : Instruction.Defect)
  | duplicateInstruction (name : Text)
  | equName (name : Text)
  | duplicateEqu (name : Text)
deriving DecidableEq, Repr

def Defect.message : Defect → Text
  | cellSize bits => Text.join ["cell size ", Text.decimal bits, " outside 1..64"]
  | punctuation d => d.message
  | instruction name d => Text.join ["instruction ", name, ": ", d.message]
  | duplicateInstruction name => Text.join ["duplicate instruction ", name]
  | equName name => Text.join ["invalid EQU name ", name.quoted]
  | duplicateEqu name => Text.join ["duplicate EQU ", name]

def checkInstructions (cellSize : Int) : List Text → List Instruction → Except Defect Unit
  | _, [] => .ok ()
  | seen, s :: rest => do
    (s.validate cellSize).mapError (.instruction s.name)
    if seen.contains s.name then .error (.duplicateInstruction s.name)
    else checkInstructions cellSize (s.name :: seen) rest

def checkEqus : List Text → List NamedValue → Except Defect Unit
  | _, [] => .ok ()
  | seen, e :: rest =>
    if !isPlainName e.name then .error (.equName e.name)
    else if seen.contains e.name then .error (.duplicateEqu e.name)
    else checkEqus (e.name :: seen) rest

/-- The first defect of a description, if it has any. -/
def validate (m : Machine) : Except Defect Unit := do
  if m.cellSize < 1 ∨ 64 < m.cellSize then .error (.cellSize m.cellSize)
  match m.punctuation with
  | some p => p.validate.mapError .punctuation
  | none => .ok ()
  checkInstructions m.cellSize [] m.instructions
  checkEqus [] m.equs

end Machine

end CellAsm
