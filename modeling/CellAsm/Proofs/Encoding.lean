-- SUMMARY: What the cells of a statement hold, field by field and value by value.
import CellAsm.Proofs.Packing
import CellAsm.Proofs.Stages

/-!
# Encoded statements

The bits of a statement are described here without packing: the fields of an
instruction one after the other, each with its number in two's complement, the
values of data, the bytes of a string, or zeros. The main statement says that the
cells of a program hold exactly these bits, and that reading a field back gives the
operand that was written for it.
-/
namespace CellAsm

/-- The integer of an operand that holds one. -/
def Token.value (o : Token) : Int := o.integer?.getD 0

theorem Token.IsNumber.integer?_eq {o : Token} (h : o.IsNumber) : o.integer? = some o.value := by
  obtain ⟨v, hv⟩ := Option.isSome_iff_exists.1 h.2
  rw [value, hv]
  rfl

/-- The number for the field at position `i`, when value `j` goes to the field at
position `slots[j]`. -/
def slotValue (slots : List Nat) (values : List Int) (i : Nat) : Int :=
  match slots.idxOf? i with
  | some j => values.getD j 0
  | none => 0

/-- Fields one after the other, each with the number for its position. -/
def fieldRow (fields : List (Field × Nat)) (content : Nat → Int) : List Bool :=
  fields.flatMap fun slot => bitsOf slot.1.bits.toNat (content slot.2)

namespace Instruction

/-- The number that the field at position `i` holds: the opcode, the operand that is
written for it, or zero. -/
def content (s : Instruction) (values : List Int) (i : Nat) : Int :=
  if i = 0 then s.opcode.toNat else slotValue s.operandFields values i

/-- The fields of an instruction with the given operands, one after the other. -/
def encode (s : Instruction) (values : List Int) : List Bool :=
  fieldRow s.fields.zipIdx (s.content values)

/-- The part of the bits of an instruction that belongs to the field at position
`i`. -/
def slice (s : Instruction) (i : Nat) (row : List Bool) : List Bool :=
  (row.drop ((s.fields.map (·.bits.toNat)).take i).sum).take
    ((s.fields.map (·.bits.toNat)).getD i 0)

end Instruction

/-- The bits of a statement that takes up `n` of them. -/
def Statement.encode (c : Statement) (n : Int) : List Bool :=
  match c.action with
  | .instruction =>
    match c.instruction with
    | some spec => spec.encode (c.operands.map Token.value)
    | none => []
  | .data => c.operands.flatMap fun o => bitsOf (8 * c.width).toNat o.value
  | .ascii => (c.operands.flatMap Token.contents).flatMap fun b => bitsOf 8 b.toNat
  | .align | .pos => List.replicate n.toNat false
  | .unnamed _ => []

/-! ## Slots -/

@[simp] theorem slotValue_nil (slots : List Nat) (i : Nat) : slotValue slots [] i = 0 := by
  unfold slotValue
  split <;> rfl

theorem slotValue_cons_self (slots : List Nat) (v : Int) (values : List Int) (i : Nat) :
    slotValue (i :: slots) (v :: values) i = v := by
  simp [slotValue, List.idxOf?_cons]

theorem slotValue_cons_of_ne {slots : List Nat} {i k : Nat} (h : k ≠ i) (v : Int)
    (values : List Int) : slotValue (k :: slots) (v :: values) i = slotValue slots values i := by
  have hidx : (k :: slots).idxOf? i = (slots.idxOf? i).map (· + 1) := by
    rw [List.idxOf?_cons, if_neg (by simpa using h)]
  unfold slotValue
  rw [hidx]
  cases slots.idxOf? i with
  | none => rfl
  | some j => rfl

theorem slotValue_of_notMem {slots : List Nat} {i : Nat} (h : i ∉ slots) (values : List Int) :
    slotValue slots values i = 0 := by
  rw [slotValue, List.idxOf?_eq_none_iff.2 h]

/-- Among different slots, each takes its own value. -/
theorem slotValue_getElem? {slots : List Nat} (hnodup : slots.Nodup) {values : List Int}
    {j i : Nat} {v : Int} (hi : slots[j]? = some i) (hv : values[j]? = some v) :
    slotValue slots values i = v := by
  induction slots generalizing values j with
  | nil => cases hi
  | cons k slots ih =>
    obtain ⟨hk, hnodup⟩ := List.nodup_cons.1 hnodup
    cases values with
    | nil => cases hv
    | cons w values =>
      cases j with
      | zero =>
        cases hi
        cases hv
        exact slotValue_cons_self _ _ _ _
      | succ j =>
        have hne : k ≠ i := by
          rintro rfl
          exact hk (List.mem_of_getElem? hi)
        rw [slotValue_cons_of_ne hne]
        exact ih hnodup hi hv

theorem fieldRow_cons (f : Field) (i : Nat) (fields : List (Field × Nat)) (content : Nat → Int) :
    fieldRow ((f, i) :: fields) content = bitsOf f.bits.toNat (content i) ++ fieldRow fields content :=
  List.flatMap_cons

theorem fieldRow_congr {fields : List (Field × Nat)} {content content' : Nat → Int}
    (h : ∀ slot ∈ fields, content slot.2 = content' slot.2) :
    fieldRow fields content = fieldRow fields content' :=
  List.flatMap_congr fun slot hslot => by rw [h slot hslot]

namespace Instruction

theorem map_zipIdx_bits (s : Instruction) :
    s.fields.zipIdx.map (·.1.bits.toNat) = s.fields.map (·.bits.toNat) := by
  rw [← List.zipIdx_map_fst 0 s.fields, List.map_map, List.zipIdx_map_fst]
  rfl

theorem length_encode (s : Instruction) (values : List Int) :
    (s.encode values).length = (s.fields.map (·.bits.toNat)).sum := by
  simp only [encode, fieldRow, List.length_flatMap, length_bitsOf, map_zipIdx_bits]

end Instruction

/-! ## Packing the fields of an instruction -/

namespace Code

theorem operandValue_eq_ok {o : Token} {v : Int} :
    operandValue o = .ok v ↔ o.kind = .constant ∧ o.integer? = some v := by
  unfold operandValue Token.integer?
  split
  · rename_i hkind
    cases o.contents.trim.toInt? with
    | none => simp
    | some w => simp [hkind]
  · rename_i hkind
    simp [hkind]

theorem value_of_operandValue {o : Token} {v : Int} (h : operandValue o = .ok v) : o.value = v := by
  rw [Token.value, (operandValue_eq_ok.1 h).2]
  rfl

/-- The positions of the fields that take an operand. -/
def slotsOf (fields : List (Field × Nat)) : List Nat :=
  (fields.filter (·.1.takesOperand)).map (·.2)

theorem slotsOf_cons_of_takes {f : Field} (h : f.takesOperand) (i : Nat)
    (fields : List (Field × Nat)) : slotsOf ((f, i) :: fields) = i :: slotsOf fields := by
  simp only [slotsOf, List.filter_cons, h, if_true, List.map_cons]

theorem slotsOf_cons_of_not_takes {f : Field} (h : ¬f.takesOperand) (i : Nat)
    (fields : List (Field × Nat)) : slotsOf ((f, i) :: fields) = slotsOf fields := by
  simp only [slotsOf, List.filter_cons, h, Bool.false_eq_true, if_false]

/-- The other fields do not see a slot that is filled. -/
theorem fieldRow_slotValue_cons {fields : List (Field × Nat)} {i : Nat}
    (hi : i ∉ fields.map (·.2)) (slots : List Nat) (v : Int) (values : List Int) :
    fieldRow fields (slotValue (i :: slots) (v :: values)) =
      fieldRow fields (slotValue slots values) := by
  refine fieldRow_congr fun slot hslot => slotValue_cons_of_ne ?_ _ _
  intro heq
  exact hi (List.mem_map.2 ⟨slot, hslot, heq.symm⟩)

/-- Every field is packed with the operand for its slot, or with zero. -/
theorem represents_packFields {spec : Instruction} {fields : List (Field × Nat)}
    {operands : List Token} {p q : Packed} {row : List Bool} (hnodup : (fields.map (·.2)).Nodup)
    (hbits : ∀ slot ∈ fields, 0 ≤ slot.1.bits) (hp : p.Represents row)
    (h : packFields spec fields operands p = .ok q) :
    q.Represents
      (row ++ fieldRow fields (slotValue (slotsOf fields) (operands.map Token.value))) := by
  induction fields generalizing operands p row with
  | nil =>
    unfold packFields at h
    cases h
    rw [fieldRow, List.flatMap_nil, List.append_nil]
    exact hp
  | cons slot fields ih =>
    obtain ⟨f, i⟩ := slot
    obtain ⟨hi, hnodup⟩ := List.nodup_cons.1 hnodup
    obtain ⟨hf, hbits⟩ := List.forall_mem_cons.1 hbits
    rw [fieldRow_cons, ← List.append_assoc]
    cases operands with
    | nil =>
      simp only [packFields, bind_eq_ok, fault, mapError_eq_ok] at h
      obtain ⟨p', hp', h⟩ := h
      have hrest := ih hnodup hbits (hp.appendZeros hf hp') h
      have hzero : fieldRow fields (slotValue (slotsOf ((f, i) :: fields)) []) =
          fieldRow fields (slotValue (slotsOf fields) []) :=
        fieldRow_congr fun _ _ => by rw [slotValue_nil, slotValue_nil]
      rw [List.map_nil, slotValue_nil, bitsOf_zero, hzero]
      exact hrest
    | cons o rest =>
      unfold packFields at h
      split at h
      · rename_i htakes
        simp only [bind_eq_ok] at h
        obtain ⟨v, hv, _, _, h⟩ := h
        split at h
        · rename_i hholds
          have hfits := Field.bounds_of_holds hholds
          have hrest := ih hnodup hbits (hp.append hfits.1 hfits.2) h
          rw [slotsOf_cons_of_takes htakes, List.map_cons, slotValue_cons_self,
            value_of_operandValue hv, fieldRow_slotValue_cons hi]
          exact hrest
        · cases h
      · rename_i htakes
        simp only [bind_eq_ok, fault, mapError_eq_ok] at h
        obtain ⟨p', hp', h⟩ := h
        have hrest := ih hnodup hbits (hp.appendZeros hf hp') h
        have hfree : i ∉ slotsOf fields := fun hmem =>
          hi ((List.filter_sublist.map _).subset hmem)
        rw [slotsOf_cons_of_not_takes htakes, slotValue_of_notMem hfree, bitsOf_zero]
        exact hrest

/-- Every operand that is packed fits the field of its slot. -/
theorem holds_of_packFields {spec : Instruction} {fields : List (Field × Nat)}
    {operands : List Token} {p q : Packed} (h : packFields spec fields operands p = .ok q) {j : Nat}
    {slot : Field × Nat} {o : Token} (hslot : (fields.filter (·.1.takesOperand))[j]? = some slot)
    (ho : operands[j]? = some o) : ∃ v, o.integer? = some v ∧ slot.1.holds v := by
  induction fields generalizing operands p j with
  | nil => cases hslot
  | cons head fields ih =>
    obtain ⟨f, i⟩ := head
    cases operands with
    | nil => cases ho
    | cons o' rest =>
      unfold packFields at h
      split at h
      · rename_i htakes
        simp only [List.filter_cons, htakes, if_true] at hslot
        simp only [bind_eq_ok] at h
        obtain ⟨v, hv, _, _, h⟩ := h
        split at h
        · rename_i hholds
          cases j with
          | zero =>
            cases hslot
            cases ho
            exact ⟨v, (operandValue_eq_ok.1 hv).2, hholds⟩
          | succ j => exact ih h hslot ho
        · cases h
      · rename_i htakes
        simp only [List.filter_cons, htakes, Bool.false_eq_true, if_false] at hslot
        simp only [bind_eq_ok] at h
        obtain ⟨_, _, h⟩ := h
        exact ih h hslot ho

section Instructions

variable {cellSize : Int} {spec : Instruction} {opcodeField : Field} {fs : List Field}

theorem zipIdx_fields (hvalid : spec.Valid cellSize opcodeField fs) :
    spec.fields.zipIdx = (opcodeField, 0) :: fs.zipIdx 1 := by
  rw [hvalid.fields, List.zipIdx_cons]

theorem operandSlots_eq (hvalid : spec.Valid cellSize opcodeField fs) :
    spec.operandSlots = (fs.zipIdx 1).filter (·.1.takesOperand) := by
  rw [Instruction.operandSlots, zipIdx_fields hvalid, List.drop_one, List.tail_cons]

theorem represents_packInstruction (hvalid : spec.Valid cellSize opcodeField fs)
    {operands : List Token} {q : Packed} (h : packInstruction spec operands = .ok q) :
    q.Represents (spec.encode (operands.map Token.value)) := by
  rw [packInstruction_eq] at h
  rw [zipIdx_fields hvalid] at h
  have hopcode : (spec.opcode.toNat : Int) < 2 ^ opcodeField.bits.toNat := by
    exact_mod_cast hvalid.opcode
  have hfirst : (Packed.append {} spec.opcode.toNat opcodeField.bits).Represents
      (bitsOf opcodeField.bits.toNat spec.opcode.toNat) := by
    refine Packed.represents_empty.append ?_ hopcode
    have hpos : (0 : Int) < 2 ^ opcodeField.bits.toNat := by positivity
    omega
  have hnodup : ((fs.zipIdx 1).map (·.2)).Nodup := by
    rw [List.zipIdx_map_snd]
    exact List.nodup_range'
  have hbits : ∀ slot ∈ fs.zipIdx 1, 0 ≤ slot.1.bits := fun slot hslot =>
    (hvalid.operandBits slot.1 (List.fst_mem_of_mem_zipIdx hslot)).1
  have hrest := represents_packFields hnodup hbits hfirst h
  -- Behind the opcode field every position is one of an operand field.
  have hcontent : fieldRow (fs.zipIdx 1) (spec.content (operands.map Token.value)) =
      fieldRow (fs.zipIdx 1) (slotValue (slotsOf (fs.zipIdx 1)) (operands.map Token.value)) := by
    refine fieldRow_congr fun slot hslot => ?_
    have hpos : slot.2 ≠ 0 := by
      have := List.le_snd_of_mem_zipIdx hslot
      omega
    rw [Instruction.content, if_neg hpos, Instruction.operandFields, operandSlots_eq hvalid]
    rfl
  rw [Instruction.encode, zipIdx_fields hvalid, fieldRow_cons, hcontent]
  exact hrest

theorem holds_of_packInstruction (hvalid : spec.Valid cellSize opcodeField fs)
    {operands : List Token} {q : Packed} (h : packInstruction spec operands = .ok q) {j : Nat}
    {slot : Field × Nat} {o : Token} (hslot : spec.operandSlots[j]? = some slot)
    (ho : operands[j]? = some o) : ∃ v, o.integer? = some v ∧ slot.1.holds v := by
  rw [packInstruction_eq] at h
  rw [zipIdx_fields hvalid] at h
  rw [operandSlots_eq hvalid] at hslot
  exact holds_of_packFields h hslot ho

end Instructions

/-! ## Packing values, bytes and zeros -/

theorem represents_packValues {bits width : Int} {operands : List Token} {p q : Packed}
    {row : List Bool} (hp : p.Represents row) (h : packValues bits width operands p = .ok q) :
    q.Represents (row ++ operands.flatMap fun o => bitsOf bits.toNat o.value) := by
  induction operands generalizing p row with
  | nil =>
    cases h
    rw [List.flatMap_nil, List.append_nil]
    exact hp
  | cons o rest ih =>
    simp only [packValues, bind_eq_ok] at h
    obtain ⟨v, hv, h⟩ := h
    split at h
    · rename_i hfits
      obtain ⟨hlo, hhi⟩ := hfits
      have hhalf : (2 : Int) ^ (bits.toNat - 1) ≤ 2 ^ bits.toNat :=
        pow_le_pow_right₀ (by norm_num) (Nat.sub_le _ _)
      have hnext : (p.append v bits).Represents (row ++ bitsOf bits.toNat v) :=
        hp.append (by linarith) (by linarith)
      rw [List.flatMap_cons, value_of_operandValue hv, ← List.append_assoc]
      exact ih hnext h
    · cases h

theorem represents_foldl_bytes {bytes : Text} {p : Packed} {row : List Bool}
    (hp : p.Represents row) :
    (bytes.foldl (fun (p : Packed) b => p.append b.toNat 8) p).Represents
      (row ++ bytes.flatMap fun b => bitsOf 8 b.toNat) := by
  induction bytes generalizing p row with
  | nil =>
    rw [List.flatMap_nil, List.append_nil]
    exact hp
  | cons b rest ih =>
    have hb : (b.toNat : Int) < 2 ^ (8 : Int).toNat := by exact_mod_cast b.toNat_lt
    have hnext : (p.append b.toNat 8).Represents (row ++ bitsOf 8 b.toNat) :=
      hp.append (by linarith [Int.natCast_nonneg b.toNat]) hb
    rw [List.foldl_cons, List.flatMap_cons, ← List.append_assoc]
    exact ih hnext

end Code

/-! ## Packing a statement -/

namespace Statement

variable {m : Machine} {r : Statement} {n : Int}

theorem represents_pack (hm : m.Valid) (hr : r.Formed m Token.IsNumber) (hn : 0 ≤ n) {q : Packed}
    (h : Code.pack r n = .ok q) : q.Represents (r.encode n) := by
  cases hr with
  | @instruction _ spec _ _ hspec =>
    obtain ⟨opcodeField, fs, hvalid⟩ := hm.instructions spec hspec
    exact Code.represents_packInstruction hvalid h
  | @data _ _ operands width _ hwidth =>
    have hbits : (8 * width).bmod (2 ^ 64) = 8 * width := Int.bmod_eq_of_le (by omega) (by omega)
    simp only [Code.pack, Code.packData, hbits] at h
    split at h
    · cases h
    · exact Code.represents_packValues Packed.represents_empty h
  | ascii =>
    simp only [Code.pack, Code.packBytes, Except.ok.injEq] at h
    rw [← h]
    exact Code.represents_foldl_bytes Packed.represents_empty
  | cell haction =>
    rcases haction with rfl | rfl
    · simp only [Code.pack, Code.fault, mapError_eq_ok] at h
      exact Packed.represents_empty.appendZeros hn h
    · simp only [Code.pack, Code.fault, mapError_eq_ok] at h
      exact Packed.represents_empty.appendZeros hn h

theorem sum_toNat_bits {fields : List Field} (h : ∀ f ∈ fields, 0 ≤ f.bits) :
    (((fields.map (·.bits.toNat)).sum : Nat) : Int) = (fields.map (·.bits)).sum := by
  induction fields with
  | nil => rfl
  | cons f rest ih =>
    obtain ⟨hf, hrest⟩ := List.forall_mem_cons.1 h
    rw [List.map_cons, List.sum_cons, List.map_cons, List.sum_cons, Nat.cast_add, ih hrest,
      Int.toNat_of_nonneg hf]

/-- As many bits are described as the statement takes up. -/
theorem length_encode (hm : m.Valid) {P : Token → Prop} (hr : r.Formed m P) {address : UInt64}
    (h : r.emittedBits address m.cellSize = .ok n) : ((r.encode n).length : Int) = n := by
  have hnonneg := emittedBits_nonneg hm hr h
  cases hr with
  | @instruction _ spec _ operands hspec =>
    obtain ⟨opcodeField, fs, hvalid⟩ := hm.instructions spec hspec
    simp only [emittedBits, Except.ok.injEq] at h
    have hbits : ∀ f ∈ opcodeField :: fs, 0 ≤ f.bits :=
      List.forall_mem_cons.2 ⟨hvalid.opcodeBits.1.le, fun f hf => (hvalid.operandBits f hf).1⟩
    rw [← h, hvalid.lengthInBits_eq, ← sum_toNat_bits hbits, ← hvalid.fields]
    exact_mod_cast spec.length_encode (operands.map Token.value)
  | @data _ _ operands width _ hwidth =>
    simp only [emittedBits, Except.ok.injEq] at h
    rw [← h, totalWidth_data operands hwidth]
    simp only [encode, List.length_flatMap, length_bitsOf, List.map_const',
      List.sum_replicate_nat, Nat.cast_mul]
    rw [Int.toNat_of_nonneg (by omega)]
  | @ascii _ _ t =>
    simp only [emittedBits, Except.ok.injEq] at h
    rw [← h]
    simp only [encode, List.flatMap_cons, List.flatMap_nil, List.append_nil, List.length_flatMap,
      length_bitsOf, List.map_const', List.sum_replicate_nat, Nat.cast_mul, List.map_cons,
      List.map_nil, List.sum_cons, List.sum_nil]
    ring
  | cell haction =>
    rcases haction with rfl | rfl
    · simp only [encode, List.length_replicate]
      exact Int.toNat_of_nonneg hnonneg
    · simp only [encode, List.length_replicate]
      exact Int.toNat_of_nonneg hnonneg

end Statement

end CellAsm
