-- SUMMARY: What acceptance of a machine description promises about its instructions.
import CellAsm.Machine.Basic
import CellAsm.Proofs.Outcome
import CellAsm.Session

/-!
# Valid machines

A description is checked once, when an assembler takes it over. The passes rely on
what was checked: cells and fields of at most 64 bits, an opcode that fits its
field, named values that fit theirs, and instructions of whole cells.
-/
namespace CellAsm

/-- What the passes rely on in an instruction with the given opcode field and
operand fields. -/
structure Instruction.Valid (cellSize : Int) (s : Instruction) (opcodeField : Field)
    (operands : List Field) : Prop where
  fields : s.fields = opcodeField :: operands
  opcodeBits : 0 < opcodeField.bits ∧ opcodeField.bits ≤ 64
  opcode : s.opcode.toNat < 2 ^ opcodeField.bits.toNat
  operandBits : ∀ f ∈ operands, 0 ≤ f.bits ∧ f.bits ≤ 64
  values : ∀ f ∈ operands, ∀ v ∈ f.values, f.holds v.value
  wholeCells : s.lengthInBits.tmod cellSize = 0

/-- What the passes rely on in a machine. -/
structure Machine.Valid (m : Machine) : Prop where
  cellSize_pos : 1 ≤ m.cellSize
  cellSize_le : m.cellSize ≤ 64
  instructions : ∀ s ∈ m.instructions, ∃ f fs, s.Valid m.cellSize f fs

theorem Machine.Valid.cellSize_ne_zero {m : Machine} (h : m.Valid) : m.cellSize ≠ 0 := by
  have := h.cellSize_pos
  omega

/-! ## Instructions -/

namespace Instruction

theorem holds_of_checkValues {f : Field} {i : Nat} {seen : List Text} {values : List NamedValue}
    (h : checkValues f i seen values = .ok ()) : ∀ v ∈ values, f.holds v.value := by
  induction values generalizing seen with
  | nil => intro v hv; cases hv
  | cons w rest ih =>
    unfold checkValues at h
    split at h
    · cases h
    · split at h
      · rename_i hw
        exact List.forall_mem_cons.2 ⟨hw, ih h⟩
      · cases h

theorem of_checkField {f : Field} {i : Nat} (h : checkField f i = .ok ()) :
    (0 ≤ f.bits ∧ f.bits ≤ 64) ∧ ∀ v ∈ f.values, f.holds v.value := by
  unfold checkField at h
  split at h
  · cases h
  · rename_i hbits
    exact ⟨by omega, holds_of_checkValues h⟩

theorem of_checkOpcode {opcode : UInt64} {f : Field} (h : checkOpcode opcode f = .ok ()) :
    (0 < f.bits ∧ f.bits ≤ 64) ∧ opcode.toNat < 2 ^ f.bits.toNat := by
  unfold checkOpcode at h
  split at h
  · cases h
  · rename_i hbits
    split at h
    · cases h
    · split at h
      · cases h
      · rename_i hopcode
        exact ⟨by omega, by omega⟩

theorem valid_of_validate {cellSize : Int} {s : Instruction} (h : s.validate cellSize = .ok ()) :
    ∃ f fs, s.Valid cellSize f fs := by
  unfold validate at h
  split at h
  · split at h
    · cases h
    · rename_i opcodeField operands hfields
      simp only [bind_eq_ok] at h
      obtain ⟨_, hopcode, _, hoperands, hlength⟩ := h
      obtain ⟨hopcodeBits, hopcodeFits⟩ := of_checkOpcode hopcode
      have hfield : ∀ f ∈ operands, (0 ≤ f.bits ∧ f.bits ≤ 64) ∧ ∀ v ∈ f.values, f.holds v.value := by
        intro f hf
        obtain ⟨i, hi⟩ := List.mem_iff_getElem?.1 hf
        have hmem : (f, 1 + i) ∈ operands.zipIdx 1 := List.mk_add_mem_zipIdx_iff_getElem?.2 hi
        exact of_checkField (forM_eq_ok.1 hoperands _ hmem)
      refine ⟨opcodeField, operands, hfields, hopcodeBits, hopcodeFits, fun f hf => (hfield f hf).1,
        fun f hf => (hfield f hf).2, ?_⟩
      split at hlength
      · assumption
      · cases hlength
  · cases h

/-- The widths of a valid instruction are added without wrapping. -/
theorem Valid.lengthInBits_eq {cellSize : Int} {s : Instruction} {f : Field} {fs : List Field}
    (h : s.Valid cellSize f fs) : s.lengthInBits = ((f :: fs).map (·.bits)).sum := by
  have hsmall : ((f :: fs).map (·.bits)).all (·.natAbs < 2 ^ 32) = true := by
    simp only [List.all_map, List.all_eq_true, Function.comp_apply, decide_eq_true_eq]
    intro g hg
    rcases List.mem_cons.1 hg with rfl | hg
    · have := h.opcodeBits
      omega
    · have := h.operandBits g hg
      omega
  rw [Instruction.lengthInBits, h.fields, totalWidth, if_pos hsmall]

end Instruction

/-! ## Machines -/

namespace Machine

theorem valid_of_checkInstructions {cellSize : Int} {seen : List Text} {l : List Instruction}
    (h : checkInstructions cellSize seen l = .ok ()) :
    ∀ s ∈ l, ∃ f fs, s.Valid cellSize f fs := by
  induction l generalizing seen with
  | nil => intro s hs; cases hs
  | cons s rest ih =>
    simp only [checkInstructions, bind_eq_ok, mapError_eq_ok] at h
    obtain ⟨_, hs, hrest⟩ := h
    split at hrest
    · cases hrest
    · exact List.forall_mem_cons.2 ⟨Instruction.valid_of_validate hs, ih hrest⟩

theorem valid_of_validate {m : Machine} (h : m.validate = .ok ()) : m.Valid := by
  unfold validate at h
  by_cases hcell : m.cellSize < 1 ∨ 64 < m.cellSize
  · rw [if_pos hcell] at h
    split at h <;> cases h
  · rw [if_neg hcell] at h
    have hinstructions : checkInstructions m.cellSize [] m.instructions = .ok () := by
      split at h
      · simp only [bind_eq_ok] at h
        obtain ⟨_, _, _, hinstructions, _⟩ := h
        exact hinstructions
      · simp only [bind_eq_ok] at h
        obtain ⟨_, _, _, hinstructions, _⟩ := h
        exact hinstructions
    exact ⟨by omega, by omega, valid_of_checkInstructions hinstructions⟩

theorem instruction?_mem {m : Machine} {name : Text} {spec : Instruction}
    (h : m.instruction? name = some spec) : spec ∈ m.instructions :=
  List.mem_of_find?_eq_some h

end Machine

/-- The machine that an assembler keeps is valid. -/
theorem Assembler.valid_of_accept {m : Option Machine} {kept : Machine}
    (h : Assembler.accept m = .ok kept) : kept.Valid := by
  unfold Assembler.accept at h
  split at h
  · cases h
  · simp only [bind_eq_ok, mapError_eq_ok, pure_eq_ok] at h
    obtain ⟨_, hvalid, rfl⟩ := h
    exact Machine.valid_of_validate hvalid

end CellAsm
