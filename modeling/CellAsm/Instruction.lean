-- SUMMARY: Machine instructions: their fields, length and operand slots.
import CellAsm.Field

/-!
# Instructions

The first field of an instruction is its opcode field. The operands written in
the source go to the other fields that take one, in order; operands of optional
fields at the end may be left out.
-/
namespace CellAsm

/-- A sum of widths. It is exact as long as every width is below `2 ^ 32`; wider
ones are added as signed words of 64 bits. -/
def totalWidth (widths : List Int) : Int :=
  if widths.all (·.natAbs < 2 ^ 32) then widths.sum else widths.sum.bmod (2 ^ 64)

structure Instruction where
  name : Text := []
  opcode : UInt64 := 0
  /-- The fields as listed; a description may also lack the list. -/
  fieldList : Option (List Field) := none
deriving DecidableEq, Repr

namespace Instruction

def fields (s : Instruction) : List Field := s.fieldList.getD []

def lengthInBits (s : Instruction) : Int := totalWidth (s.fields.map (·.bits))

/-- The fields an operand is written for, with their positions. -/
def operandSlots (s : Instruction) : List (Field × Nat) :=
  (s.fields.zipIdx.drop 1).filter (·.1.takesOperand)

/-- The positions of the fields an operand is written for. -/
def operandFields (s : Instruction) : List Nat := s.operandSlots.map (·.2)

theorem lt_of_mem_operandFields {s : Instruction} {i : Nat} (h : i ∈ s.operandFields) :
    i < s.fields.length := by
  obtain ⟨slot, hslot, rfl⟩ := List.mem_map.1 h
  have hmem := List.mem_of_mem_drop (List.mem_filter.1 hslot).1
  have hlt := List.snd_lt_add_of_mem_zipIdx hmem
  omega

/-- How many of the first `n` operands may not be left out if the others are. -/
def leastOf (s : Instruction) : (n : Nat) → n ≤ s.operandFields.length → Nat
  | 0, _ => 0
  | n + 1, h =>
    let i := s.operandFields.get ⟨n, h⟩
    let f := s.fields.get ⟨i, lt_of_mem_operandFields (List.get_mem _ _)⟩
    if f.presence = .optional then s.leastOf n (Nat.le_of_succ_le h) else n + 1

/-- The number of operands that may not be left out. -/
def minOperands (s : Instruction) : Nat := s.leastOf s.operandFields.length (Nat.le_refl _)

/-- What a message calls the field at position `i`. -/
def fieldLabel (f : Field) (i : Nat) : Text :=
  if f.name = [] then Text.join ["#", Text.decimal i] else f.name

end Instruction

end CellAsm
