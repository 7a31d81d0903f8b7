-- SUMMARY: Which operand each field of an instruction gets, and which fields may go without one.
import CellAsm.Proofs.Decoding
import CellAsm.Proofs.Separators
import Mathlib.Order.Bounds.Basic

/-!
# Slots of operands

Names are replaced operand by operand, each for the field whose position is listed for it.
Packing goes along all fields instead and counts the operands it has used. Both find the
same operand for every field. Operands can be left out only at the end, and only if every
field that is left without one is optional. The least number of operands is the least one
for which this holds.
-/
namespace CellAsm

namespace Instruction

/-- The operands that packing has used when it comes to the field at position `i`: one for
each field behind the opcode field that takes an operand. -/
def operandsBefore (s : Instruction) (i : Nat) : Nat :=
  ((s.fields.take i).drop 1).countP Field.takesOperand

/-- The number of the operand that packing takes for the field at position `i` when there
are `k` operands. The opcode field takes none. -/
def operandIndex? (s : Instruction) (k i : Nat) : Option Nat :=
  if 0 < i ∧ (s.fields.getD i {}).takesOperand ∧ s.operandsBefore i < k then
    some (s.operandsBefore i)
  else none

/-- The operand that packing takes for the field at position `i`. -/
def operandAt? (s : Instruction) (operands : List Token) (i : Nat) : Option Token :=
  (s.operandIndex? operands.length i).bind (operands[·]?)

end Instruction

namespace Code

/-- Packs a single field with its operand, or with zero if there is none. -/
def packField (spec : Instruction) (f : Field) (i : Nat) (operand : Option Token) (p : Packed) :
    Except Failure Packed :=
  match operand with
  | some o => do
    let v ← operandValue o
    fault (checkBits f.bits)
    if f.holds v then return p.append v f.bits
    else
      .error (.blame o (.valueTooWide v (Instruction.fieldLabel f i) spec.name f.bits f.signed
        f.lo f.hi))
  | none => fault (p.appendZeros f.bits)

/-- Packs an instruction when the operand for each position is given. -/
def packGiven (spec : Instruction) (given : Nat → Option Token) : Except Failure Packed :=
  match spec.fields.zipIdx with
  | [] => .error (.fault .outOfRange)
  | opcode :: fields =>
    fields.foldlM (fun p slot => packField spec slot.1 slot.2 (given slot.2) p)
      (Packed.append {} spec.opcode.toNat opcode.1.bits)

end Code

/-! ## Positions of fields -/

namespace Instruction

variable {s : Instruction} {f : Field} {i j k : Nat}

theorem getElem?_of_takesOperand (h : (s.fields.getD i {}).takesOperand) :
    s.fields[i]? = some (s.fields.getD i {}) := by
  rw [List.getD_eq_getElem?_getD] at h ⊢
  cases hfield : s.fields[i]? with
  | none =>
    rw [hfield] at h
    exact absurd h (by decide)
  | some f => rfl

theorem getD_of_getElem? (h : s.fields[i]? = some f) : s.fields.getD i {} = f := by
  rw [List.getD_eq_getElem?_getD, h]
  rfl

/-- Every position is listed with its own field. -/
theorem operandSlots_eq_map (s : Instruction) :
    s.operandSlots = s.operandFields.map fun i => (s.fields.getD i {}, i) := by
  rw [operandFields, List.map_map]
  refine (List.map_id _).symm.trans (List.map_congr_left fun slot hslot => ?_)
  exact Prod.ext (getD_of_getElem? (getElem?_of_mem_operandSlots hslot)).symm rfl

theorem getElem?_operandSlots (h : s.operandFields[j]? = some i) :
    s.operandSlots[j]? = some (s.fields.getD i {}, i) := by
  rw [operandSlots_eq_map, List.getElem?_map, h]
  rfl

theorem operandsBefore_succ (hi : 0 < i) (hf : s.fields[i]? = some f) :
    s.operandsBefore (i + 1) = s.operandsBefore i + if f.takesOperand then 1 else 0 := by
  have hlt := (List.getElem?_eq_some_iff.1 hf).1
  have hfirst : 1 ≤ (s.fields.take i).length := by
    rw [List.length_take]
    omega
  rw [operandsBefore, List.take_add_one, hf, List.drop_append_of_le_length hfirst,
    List.countP_append, Option.toList_some, List.countP_singleton]
  rfl

theorem length_filter_drop_zipIdx (fs : List Field) :
    ((fs.zipIdx.drop 1).filter (·.1.takesOperand)).length = (fs.drop 1).countP Field.takesOperand := by
  have hfs : fs.drop 1 = (fs.zipIdx.drop 1).map Prod.fst := by
    rw [List.map_drop, List.zipIdx_map_fst]
  rw [hfs, List.countP_map, List.countP_eq_length_filter]
  rfl

/-- A field that takes an operand is listed behind the fields before it that do. -/
theorem getElem?_operandsBefore (hi : 0 < i) (hf : s.fields[i]? = some f) (htakes : f.takesOperand) :
    s.operandFields[s.operandsBefore i]? = some i := by
  obtain ⟨hlt, rfl⟩ := List.getElem?_eq_some_iff.1 hf
  have hlength : (s.fields.take i).length = i := List.length_take_of_le hlt.le
  have hsplit : s.fields.zipIdx = (s.fields.take i).zipIdx ++
      (s.fields[i], i) :: (s.fields.drop (i + 1)).zipIdx (i + 1) := by
    conv_lhs => rw [← List.take_append_drop i s.fields, List.zipIdx_append, hlength, Nat.zero_add,
      List.drop_eq_getElem_cons hlt, List.zipIdx_cons]
  have hfirst : 1 ≤ (s.fields.take i).zipIdx.length := by
    rw [List.length_zipIdx, hlength]
    exact hi
  have hbefore : s.operandsBefore i =
      (((s.fields.take i).zipIdx.drop 1).filter (·.1.takesOperand)).length :=
    (length_filter_drop_zipIdx _).symm
  rw [operandFields, List.getElem?_map, operandSlots, hsplit, List.drop_append_of_le_length hfirst,
    List.filter_append, List.filter_cons, if_pos htakes, hbefore, List.getElem?_append_right le_rfl,
    Nat.sub_self]
  rfl

/-- The listed positions are those at which packing finds its operands. -/
theorem getElem?_operandFields_iff : s.operandFields[j]? = some i ↔
    0 < i ∧ (s.fields.getD i {}).takesOperand ∧ s.operandsBefore i = j := by
  constructor
  · intro h
    have hslot := getElem?_operandSlots h
    have htakes : (s.fields.getD i {}).takesOperand :=
      (List.mem_filter.1 (List.mem_of_getElem? hslot)).2
    obtain ⟨hf, hne⟩ := of_operandSlots hslot
    have hi : 0 < i := Nat.pos_of_ne_zero hne
    refine ⟨hi, htakes, ?_⟩
    -- no position is listed twice
    have hcount := getElem?_operandsBefore hi hf htakes
    have hlt := (List.getElem?_eq_some_iff.1 hcount).1
    exact (List.getElem?_inj hlt s.nodup_operandFields).1 (hcount.trans h.symm)
  · rintro ⟨hi, htakes, rfl⟩
    exact getElem?_operandsBefore hi (getElem?_of_takesOperand htakes) htakes

theorem operandIndex?_eq_some_iff :
    s.operandIndex? k i = some j ↔ j < k ∧ s.operandFields[j]? = some i := by
  rw [getElem?_operandFields_iff, operandIndex?]
  split
  · rename_i h
    obtain ⟨hi, htakes, hlt⟩ := h
    simp only [Option.some.injEq, hi, htakes, true_and]
    constructor
    · rintro rfl
      exact ⟨hlt, rfl⟩
    · exact fun h => h.2
  · rename_i h
    simp only [reduceCtorEq, false_iff]
    rintro ⟨hlt, hi, htakes, rfl⟩
    exact h ⟨hi, htakes, hlt⟩

/-- The next operand goes to a field if the field takes one. -/
theorem operandAt?_eq (hi : 0 < i) (hf : s.fields[i]? = some f) (operands : List Token) :
    s.operandAt? operands i = if f.takesOperand then operands[s.operandsBefore i]? else none := by
  rw [operandAt?, operandIndex?, getD_of_getElem? hf]
  by_cases htakes : f.takesOperand
  · by_cases hlt : s.operandsBefore i < operands.length
    · rw [if_pos ⟨hi, htakes, hlt⟩, if_pos htakes, Option.bind_some]
    · rw [if_neg fun h => hlt h.2.2, if_pos htakes, Option.bind_none,
        List.getElem?_eq_none (Nat.le_of_not_lt hlt)]
  · rw [if_neg fun h => htakes h.2.1, if_neg htakes, Option.bind_none]

end Instruction

/-! ## Packing along the fields -/

namespace Code

/-- One field is packed with the operand at the head, if it takes one. -/
theorem packFields_cons (spec : Instruction) (f : Field) (i : Nat) (fields : List (Field × Nat))
    (operands : List Token) (p : Packed) :
    packFields spec ((f, i) :: fields) operands p =
      packField spec f i (if f.takesOperand then operands.head? else none) p >>=
        packFields spec fields (if f.takesOperand then operands.tail else operands) := by
  cases operands with
  | nil =>
    rw [packFields, List.head?_nil, List.tail_nil, ite_self, ite_self]
    rfl
  | cons o rest =>
    rw [packFields]
    split
    · simp only [packField, List.head?_cons, List.tail_cons, bind_assoc]
      refine bind_congr fun v => bind_congr fun _ => ?_
      split
      · rfl
      · rfl
    · rfl

/-- From any field on, packing gives every field the operand for its position. -/
theorem packFields_eq_foldlM {s : Instruction} (operands : List Token) {rest : List Field} {n : Nat}
    (hn : 0 < n) (hrest : s.fields.drop n = rest) (p : Packed) :
    packFields s (rest.zipIdx n) (operands.drop (s.operandsBefore n)) p =
      (rest.zipIdx n).foldlM
        (fun p slot => packField s slot.1 slot.2 (s.operandAt? operands slot.2) p) p := by
  induction rest generalizing n p with
  | nil =>
    rw [List.zipIdx_nil, packFields]
    rfl
  | cons f rest ih =>
    have hf : s.fields[n]? = some f := by
      rw [← List.head?_drop, hrest]
      rfl
    have hnext : s.fields.drop (n + 1) = rest := by
      rw [← List.tail_drop, hrest]
      rfl
    -- the operands ahead are those that no field before has used
    have hused : (if f.takesOperand then (operands.drop (s.operandsBefore n)).tail
        else operands.drop (s.operandsBefore n)) = operands.drop (s.operandsBefore (n + 1)) := by
      rw [Instruction.operandsBefore_succ hn hf, List.tail_drop]
      split
      · rfl
      · rfl
    rw [List.zipIdx_cons, packFields_cons, List.foldlM_cons, List.head?_drop, hused,
      Instruction.operandAt?_eq hn hf]
    exact bind_congr fun q => ih (Nat.succ_pos n) hnext q

theorem packInstruction_eq_packGiven (s : Instruction) (operands : List Token) :
    packInstruction s operands = packGiven s (s.operandAt? operands) := by
  rw [packInstruction_eq, packGiven]
  cases hfields : s.fields with
  | nil => rfl
  | cons opcode rest =>
    have hrest : s.fields.drop 1 = rest := by
      rw [hfields]
      rfl
    have hnone : s.operandsBefore 1 = 0 := by
      rw [Instruction.operandsBefore, hfields]
      rfl
    have hrun := packFields_eq_foldlM operands Nat.one_pos hrest
      (Packed.append {} s.opcode.toNat opcode.bits)
    rw [hnone, List.drop_zero] at hrun
    exact hrun

end Code

/-! ## Replacing names operand by operand -/

theorem Label.replaceNames_eq_mapM {s : Instruction} {c : Statement} (labels : Table Token)
    (address next : UInt64) (hs : c.instruction = some s)
    (hmost : c.operands.length ≤ s.operandFields.length) :
    replaceNames labels address next c = do
      let operands ← (s.operandFields.zip c.operands).mapM fun slot =>
        replaceOperand s labels address next (s.fields.getD slot.1 {}) slot.1 slot.2
      return { c with operands := operands } := by
  rw [s.length_operandFields] at hmost
  rw [replaceNames_of_instruction hs hmost, s.operandSlots_eq_map, List.zip_map_left, List.mapM_map]
  rfl

/-! ## Operands that may be left out -/

namespace Instruction

variable {s : Instruction} {k : Nat}

/-- So many operands are enough exactly if all fields behind them are optional. -/
theorem minOperands_le_iff : s.minOperands ≤ k ↔
    ∀ i ∈ s.operandFields.drop k, ∃ f, s.fields[i]? = some f ∧ f.presence = .optional := by
  rw [minOperands, leastOf_le_iff]
  constructor
  · intro h i hi
    obtain ⟨j, hj⟩ := List.getElem?_of_mem hi
    rw [List.getElem?_drop] at hj
    obtain ⟨slot, hslot, hoptional⟩ :=
      h (k + j) (Nat.le_add_right k j) (List.getElem?_eq_some_iff.1 hj).1
    cases (getElem?_operandSlots hj).symm.trans hslot
    exact ⟨_, (of_operandSlots hslot).1, hoptional⟩
  · intro h j hk hj
    have hi := List.getElem?_eq_getElem hj
    obtain ⟨f, hf, hoptional⟩ := h s.operandFields[j] (List.mem_of_getElem? (i := j - k) (by
      rw [List.getElem?_drop, Nat.add_sub_cancel' hk]
      exact hi))
    refine ⟨_, getElem?_operandSlots hi, ?_⟩
    rw [getD_of_getElem? hf]
    exact hoptional

end Instruction

theorem SourceState.checkOperands_eq_ok {cause : TokenKind → Cause} {operands : List Token}
    (h : ∀ o ∈ operands, o.kind = .identifier ∨ o.kind = .constant) :
    checkOperands cause operands = .ok () := by
  induction operands with
  | nil => rfl
  | cons o rest ih =>
    obtain ⟨ho, hrest⟩ := List.forall_mem_cons.1 h
    rw [checkOperands, if_pos ho]
    exact ih hrest

/-- A line is taken exactly if the number of its operands is one that the instruction
takes. -/
theorem SourceState.instruction_taken_iff {m : Machine} {s : Instruction} {head : Token}
    (hs : m.instruction? head.contents = some s) {rest operands : List Token}
    (hsplit : splitOperands rest = .ok operands)
    (hkinds : ∀ o ∈ operands, o.kind = .identifier ∨ o.kind = .constant) (st : SourceState) :
    (∃ st', st.instruction m head rest = .ok st') ↔
      s.minOperands ≤ operands.length ∧ operands.length ≤ s.operandFields.length := by
  simp only [instruction, hs, hsplit, checkOperands_eq_ok hkinds, ok_bind, s.length_operandFields]
  split
  · simp only [reduceCtorEq, exists_false, false_iff]
    omega
  · simp only [pure_eq_ok, exists_eq', true_iff]
    omega

/-- With `k` operands, every operand goes to one field, and every field that is left takes
none or may go without. -/
structure Instruction.Distributes (s : Instruction) (k : Nat) : Prop where
  /-- Counting along the fields gives operand `j` to the field at position
  `operandFields[j]`. -/
  counted : ∀ i j, s.operandIndex? k i = some j ↔ j < k ∧ s.operandFields[j]? = some i
  /-- Names are replaced in each operand for the field at the position listed for it. -/
  replaced : ∀ (labels : Table Token) (address next : UInt64) (c : Statement),
    c.instruction = some s → c.operands.length = k →
    Label.replaceNames labels address next c = do
      let operands ← (s.operandFields.zip c.operands).mapM fun slot =>
        Label.replaceOperand s labels address next (s.fields.getD slot.1 {}) slot.1 slot.2
      return { c with operands := operands }
  /-- Each field is packed with the operand that counting gives to it. -/
  packed : ∀ operands : List Token, operands.length = k → Code.packInstruction s operands =
    Code.packGiven s fun i => (s.operandIndex? k i).bind (operands[·]?)
  /-- A field that an operand is missing for is optional. -/
  optional : ∀ i ∈ s.operandFields, s.operandIndex? k i = none →
    ∃ f, s.fields[i]? = some f ∧ f.presence = .optional

namespace Instruction

theorem distributes {s : Instruction} {k : Nat} (hleast : s.minOperands ≤ k)
    (hmost : k ≤ s.operandFields.length) : s.Distributes k where
  counted _ _ := operandIndex?_eq_some_iff
  replaced labels address next c hs hk :=
    Label.replaceNames_eq_mapM labels address next hs (hk ▸ hmost)
  packed operands hk := by
    rw [Code.packInstruction_eq_packGiven, ← hk]
    rfl
  optional i hi hnone := by
    obtain ⟨j, hj⟩ := List.getElem?_of_mem hi
    have hbehind : k ≤ j := by
      by_contra hlt
      rw [operandIndex?_eq_some_iff.2 ⟨Nat.lt_of_not_le hlt, hj⟩] at hnone
      cases hnone
    refine minOperands_le_iff.1 hleast i (List.mem_of_getElem? (i := j - k) ?_)
    rw [List.getElem?_drop, Nat.add_sub_cancel' hbehind]
    exact hj

/-- The least number of operands is the least from which on all fields are optional. A line
is taken from this number on, up to one operand for each field that takes any. For all
these numbers, names are replaced and fields are packed with the same operand for each
field, and only optional fields are left without one. -/
theorem minOperands_exact (s : Instruction) :
    IsLeast {k | ∀ i ∈ s.operandFields.drop k,
      ∃ f, s.fields[i]? = some f ∧ f.presence = .optional} s.minOperands ∧
    (∀ (m : Machine) (st : SourceState) (head : Token) (rest operands : List Token),
      m.instruction? head.contents = some s → splitOperands rest = .ok operands →
      (∀ o ∈ operands, o.kind = .identifier ∨ o.kind = .constant) →
      ((∃ st', st.instruction m head rest = .ok st') ↔
        s.minOperands ≤ operands.length ∧ operands.length ≤ s.operandFields.length)) ∧
    ∀ k, s.minOperands ≤ k → k ≤ s.operandFields.length → s.Distributes k := by
  refine ⟨⟨minOperands_le_iff.1 le_rfl, fun k hk => minOperands_le_iff.2 hk⟩, ?_, ?_⟩
  · intro m st head rest operands hs hsplit hkinds
    exact SourceState.instruction_taken_iff hs hsplit hkinds st
  · intro k hleast hmost
    exact distributes hleast hmost

end Instruction

namespace Sample

/-- An optional field comes before one that is not, with two between them that take no
operand. -/
def spread : Instruction where
  name := "spr"
  opcode := 3
  fieldList := some [{ bits := 8 }, { bits := 4, presence := .optional },
    { bits := 4, presence := .ignored }, {}, { bits := 8, signed := true },
    { bits := 8, presence := .optional }]

def spreadMachine : Machine where
  cellSize := 8
  instructionList := some [spread]

def number (digits : Text) : Token where
  kind := .constant
  contents := digits

/-- Two operands go to the fields at positions 1 and 4, and the last field is left without
one. A single operand is refused, although the field it would go to is optional. -/
theorem spread_operands : spread.operandFields = [1, 4, 5] ∧ spread.minOperands = 2 ∧
    IsLeast {k | ∀ i ∈ spread.operandFields.drop k,
      ∃ f, spread.fields[i]? = some f ∧ f.presence = .optional} 2 ∧
    (∃ st, SourceState.instruction spreadMachine {} (argument "spr")
      [number "3", comma, number "-1"] = .ok st) ∧
    (¬∃ st, SourceState.instruction spreadMachine {} (argument "spr") [number "3"] = .ok st) ∧
    spread.Distributes 2 ∧
    (List.range 6).map (spread.operandIndex? 2) = [none, some 0, none, none, some 1, none] ∧
    Code.packInstruction spread [number "3", number "-1"] = .ok ⟨0x0330ff00, 32⟩ := by
  have hfields : spread.operandFields = [1, 4, 5] := by decide
  have hmin : spread.minOperands = 2 := by decide
  have hspread : spreadMachine.instruction? (argument "spr").contents = some spread := by decide
  obtain ⟨hleast, htaken, hdistributes⟩ := Instruction.minOperands_exact spread
  have htwo : spread.Distributes 2 := hdistributes 2 (by rw [hmin]) (by rw [hfields]; decide)
  refine ⟨hfields, hmin, hmin ▸ hleast, ?_, ?_, htwo, by decide, by decide +kernel⟩
  · refine (htaken spreadMachine {} _ _ [number "3", number "-1"] hspread rfl ?_).2 ?_
    · simp [number]
    · rw [hmin, hfields]
      decide
  · rw [htaken spreadMachine {} _ _ [number "3"] hspread rfl (by simp [number]), hmin]
    decide

end Sample

end CellAsm
