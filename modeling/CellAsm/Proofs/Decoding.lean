-- SUMMARY: The cells of a program are read back as the numbers that were written.
import CellAsm.Proofs.Encoding
import CellAsm.Proofs.PlainSource

/-!
# Reading code back

The bits of an instruction are cut into its fields again, and each field is read as
signed or unsigned. The main statement says what the cells of every block of a
program hold, and that every operand field gives back the number of the operand
written for it.
-/
namespace CellAsm

/-! ## Cutting out a field -/

theorem slice_fieldRow {fields : List (Field × Nat)} (content : Nat → Int) {i : Nat}
    {slot : Field × Nat} (h : fields[i]? = some slot) :
    ((fieldRow fields content).drop ((fields.map (·.1.bits.toNat)).take i).sum).take
      slot.1.bits.toNat = bitsOf slot.1.bits.toNat (content slot.2) := by
  induction fields generalizing i with
  | nil => cases h
  | cons head fields ih =>
    obtain ⟨f, k⟩ := head
    rw [fieldRow_cons]
    cases i with
    | zero =>
      cases h
      rw [List.take_zero, List.sum_nil, List.drop_zero]
      exact List.take_left' (length_bitsOf _ _)
    | succ i =>
      rw [List.map_cons, List.take_succ_cons, List.sum_cons]
      have hdrop (n : Nat) : (bitsOf f.bits.toNat (content k) ++ fieldRow fields content).drop
          (f.bits.toNat + n) = (fieldRow fields content).drop n := by
        rw [← List.drop_drop, List.drop_left' (length_bitsOf _ _)]
      rw [hdrop]
      exact ih h

namespace Instruction

theorem slice_encode (s : Instruction) (values : List Int) {i : Nat} {f : Field}
    (h : s.fields[i]? = some f) :
    s.slice i (s.encode values) = bitsOf f.bits.toNat (s.content values i) := by
  have hslot : s.fields.zipIdx[i]? = some (f, i) := by
    rw [List.getElem?_zipIdx, h, Nat.zero_add]
    rfl
  have hwidth : (s.fields.map (·.bits.toNat)).getD i 0 = f.bits.toNat := by
    rw [List.getD_eq_getElem?_getD, List.getElem?_map, h]
    rfl
  have hrow := slice_fieldRow (s.content values) hslot
  rw [map_zipIdx_bits] at hrow
  rw [slice, hwidth]
  exact hrow

/-- The slots of operands are fields behind the opcode field, each once. -/
theorem of_operandSlots {s : Instruction} {j i : Nat} {f : Field}
    (h : s.operandSlots[j]? = some (f, i)) : s.fields[i]? = some f ∧ i ≠ 0 := by
  have hmem := List.mem_of_mem_filter (List.mem_of_getElem? h)
  refine ⟨List.mk_mem_zipIdx_iff_getElem?.1 (List.mem_of_mem_drop hmem), ?_⟩
  rw [List.drop_one] at hmem
  cases hfields : s.fields with
  | nil => rw [hfields] at hmem; cases hmem
  | cons g gs =>
    rw [hfields, List.zipIdx_cons, List.tail_cons] at hmem
    have := List.le_snd_of_mem_zipIdx hmem
    omega

theorem nodup_operandFields (s : Instruction) : s.operandFields.Nodup := by
  have hsub : s.operandFields.Sublist (s.fields.zipIdx.map (·.2)) :=
    (List.filter_sublist.trans (List.drop_sublist 1 _)).map _
  refine hsub.nodup ?_
  rw [List.zipIdx_map_snd]
  exact List.nodup_range'

/-- The field of slot `j` holds value `j`. -/
theorem content_of_slot {s : Instruction} {values : List Int} {j i : Nat} {f : Field} {v : Int}
    (hslot : s.operandSlots[j]? = some (f, i)) (hv : values[j]? = some v) :
    s.content values i = v := by
  have hi : s.operandFields[j]? = some i := by
    rw [operandFields, List.getElem?_map, hslot]
    rfl
  rw [content, if_neg (of_operandSlots hslot).2]
  exact slotValue_getElem? s.nodup_operandFields hi hv

/-- Reading the field of slot `j` gives value `j`, if the field holds it. -/
theorem decode_slice_encode {s : Instruction} {values : List Int} {j i : Nat} {f : Field} {v : Int}
    (hslot : s.operandSlots[j]? = some (f, i)) (hv : values[j]? = some v) (hholds : f.holds v) :
    f.decode (s.slice i (s.encode values)) = v := by
  rw [s.slice_encode values (of_operandSlots hslot).1, content_of_slot hslot hv]
  exact Field.decode_bitsOf hholds

/-! ## Operands that may not be left out -/

/-- The loop over the operands from the last one on stops above `k` exactly if one of those
behind the first `k` has a field that is not optional. -/
theorem leastOf_le_iff {s : Instruction} {n k : Nat} (h : n ≤ s.operandFields.length) :
    s.leastOf n h ≤ k ↔
      ∀ j, k ≤ j → j < n → ∃ slot, s.operandSlots[j]? = some slot ∧ slot.1.presence = .optional := by
  induction n with
  | zero => simp [leastOf]
  | succ n ih =>
    obtain ⟨slot, hslot⟩ : ∃ slot, s.operandSlots[n]? = some slot := by
      refine ⟨_, List.getElem?_eq_getElem (?_ : n < s.operandSlots.length)⟩
      rwa [operandFields, List.length_map] at h
    have hposition : s.operandFields[n]? = some slot.2 := by
      rw [operandFields, List.getElem?_map, hslot]
      rfl
    have hget {i : Nat} (hi : i < s.fields.length) (heq : i = slot.2) :
        s.fields.get ⟨i, hi⟩ = slot.1 := by
      subst heq
      exact (List.getElem?_eq_some_iff.1 (of_operandSlots hslot).1).2
    have hfield := hget (lt_of_mem_operandFields (List.get_mem s.operandFields ⟨n, h⟩))
      (List.getElem?_eq_some_iff.1 hposition).2
    simp only [leastOf, hfield]
    split
    · rename_i hoptional
      rw [ih (Nat.le_of_succ_le h)]
      refine ⟨fun hall j hk hj => ?_, fun hall j hk hj => hall j hk (Nat.lt_succ_of_lt hj)⟩
      rcases Nat.lt_succ_iff_lt_or_eq.1 hj with hlt | rfl
      · exact hall j hk hlt
      · exact ⟨slot, hslot, hoptional⟩
    · rename_i hneeded
      refine ⟨fun hle j hk hj => by omega, fun hall => Nat.lt_of_not_le fun hle => ?_⟩
      obtain ⟨slot', hslot', hoptional⟩ := hall n hle (Nat.lt_succ_self n)
      cases hslot.symm.trans hslot'
      exact hneeded hoptional

/-- An operand is written for every slot that is not optional. -/
theorem lt_minOperands {s : Instruction} {j : Nat} {slot : Field × Nat}
    (h : s.operandSlots[j]? = some slot) (hpresence : slot.1.presence ≠ .optional) :
    j < s.minOperands := by
  by_contra hle
  have hlt : j < s.operandFields.length := by
    rw [operandFields, List.length_map]
    exact (List.getElem?_eq_some_iff.1 h).1
  obtain ⟨slot', hslot', hoptional⟩ :=
    (leastOf_le_iff (Nat.le_refl _)).1 (Nat.le_of_not_lt hle) j (Nat.le_refl j) hlt
  cases h.symm.trans hslot'
  exact hpresence hoptional

end Instruction

/-! ## Blocks -/

/-- The block `b` holds the statement `c`, and its fields can be read back. -/
structure Block.Encodes (cellSize : Int) (c : Statement) (b : Block) : Prop where
  size : b.cellSize = cellSize
  operands : b.operands = c.operands
  cells : ∀ cell ∈ b.cells, cell.toNat < 2 ^ cellSize.toNat
  /-- The cells hold the bits of the statement, and these are shown. -/
  row : b.row = c.encode b.length
  length : b.length = b.row.length
  bits : b.bits = .ok (b.row.map bitByte)
  /-- Only a string is no number. -/
  numbers : c.action ≠ .ascii → ∀ o ∈ c.operands, o.integer? = some o.value
  /-- Every operand has a slot, and the field there gives back its number. -/
  slots : ∀ {spec : Instruction}, c.instruction = some spec → ∀ {j : Nat} {o : Token},
    c.operands[j]? = some o → ∃ f i, spec.operandSlots[j]? = some (f, i) ∧
      spec.slice i b.row = bitsOf f.bits.toNat o.value ∧ f.decode (spec.slice i b.row) = o.value
  /-- Every field that is not optional has an operand. -/
  written : ∀ {spec : Instruction}, c.instruction = some spec → ∀ {j : Nat} {f : Field} {i : Nat},
    spec.operandSlots[j]? = some (f, i) → f.presence ≠ .optional → j < c.operands.length

namespace Statement

variable {m : Machine} {r : Statement} {s : Span} {b : Block}

/-- The bits of a block are the bits of its statement. -/
theorem row_of_block (hm : m.Valid) (hr : r.Formed m Token.IsNumber)
    (hplace : r.span m.cellSize s.address = .ok s)
    (h : Code.block r s.address s.bits m.cellSize = .ok b) : b.row = r.encode b.length := by
  have hpos := hm.cellSize_pos
  have hle := hm.cellSize_le
  have hbits := (emittedBits_of_span hplace).1
  have hlength := length_encode hm hr hbits
  have hexact := (exact_of_span hm hr hplace).bits_eq
  obtain ⟨packed, hpacked, _, rfl⟩ := Code.of_block hm h
  have hrow := represents_pack hm hr (emittedBits_nonneg hm hr hbits) hpacked
  have hnat : s.bits.toNat = (r.encode s.bits).length := by omega
  have hwhole : m.cellSize.toNat ∣ (r.encode s.bits).length := by
    refine Int.natCast_dvd_natCast.1 ⟨s.cells m.cellSize, ?_⟩
    rw [hlength, Int.toNat_of_nonneg (by omega)]
    exact hexact
  simp only [Block.row, hnat]
  exact hrow.flatMap_cut (by omega) (by omega) hwhole

/-- Every operand of an instruction is read back from the field of its slot. -/
theorem decode_of_block (hm : m.Valid) {spec : Instruction} (hspec : spec ∈ m.instructions)
    (hinstruction : r.instruction = some spec) (haction : r.action = .instruction)
    (hrow : b.row = r.encode b.length)
    (h : Code.block r s.address s.bits m.cellSize = .ok b) {j i : Nat} {f : Field} {o : Token}
    (hslot : spec.operandSlots[j]? = some (f, i)) (ho : r.operands[j]? = some o) :
    spec.slice i b.row = bitsOf f.bits.toNat o.value ∧ f.decode (spec.slice i b.row) = o.value := by
  obtain ⟨_, _, hvalid⟩ := hm.instructions spec hspec
  obtain ⟨packed, hpacked, _, _⟩ := Code.of_block hm h
  simp only [Code.pack, haction, hinstruction] at hpacked
  simp only [encode, haction, hinstruction] at hrow
  obtain ⟨v, hv, hholds⟩ := Code.holds_of_packInstruction hvalid hpacked hslot ho
  have hvalue : o.value = v := by
    rw [Token.value, hv]
    rfl
  have hvalues : (r.operands.map Token.value)[j]? = some v := by
    rw [List.getElem?_map, ho, ← hvalue]
    rfl
  have hfield := (Instruction.of_operandSlots hslot).1
  rw [hvalue, hrow]
  refine ⟨?_, Instruction.decode_slice_encode hslot hvalues hholds⟩
  rw [spec.slice_encode _ hfield, Instruction.content_of_slot hslot hvalues]

/-- The length of a block is the bits of its cells. -/
theorem length_of_block (hm : m.Valid) (hr : r.Formed m Token.IsNumber)
    (hplace : r.span m.cellSize s.address = .ok s)
    (h : Code.block r s.address s.bits m.cellSize = .ok b) :
    b.length = m.cellSize * b.cells.length := by
  obtain ⟨_, _, _, rfl⟩ := Code.of_block hm h
  simp only [Packed.length_cut]
  exact (exact_of_span hm hr hplace).bits_eq

theorem Formed.integer?_eq (hr : r.Formed m Token.IsNumber) (haction : r.action ≠ .ascii) :
    ∀ o ∈ r.operands, o.integer? = some o.value := by
  cases hr with
  | instruction _ hoperands => exact fun o ho => (hoperands o ho).integer?_eq
  | data hoperands => exact fun o ho => (hoperands o ho).integer?_eq
  | ascii => exact absurd rfl haction
  | cell _ hoperand => exact List.forall_mem_singleton.2 hoperand.integer?_eq

theorem encodes_of_block (hm : m.Valid) (hr : r.Formed m Token.IsNumber)
    (hplace : r.span m.cellSize s.address = .ok s)
    (h : Code.block r s.address s.bits m.cellSize = .ok b) : b.Encodes m.cellSize r := by
  have hpos := hm.cellSize_pos
  have hle := hm.cellSize_le
  have hrow := row_of_block hm hr hplace h
  have hlength := length_of_block hm hr hplace h
  have hbits := (emittedBits_of_span hplace).1
  obtain ⟨packed, _, _, hb⟩ := Code.of_block hm h
  have hcells : ∀ cell ∈ b.cells, cell.toNat < 2 ^ m.cellSize.toNat := by
    rw [hb]
    exact packed.cell_lt _ (by omega)
  have hsize : b.cellSize = m.cellSize := by rw [hb]
  refine ⟨hsize, by rw [hb], hcells, hrow, ?_, ?_, hr.integer?_eq, ?_, ?_⟩
  · rw [hrow, hb]
    exact (length_encode hm hr hbits).symm
  · refine Block.bits_eq_row ?_ ?_ ?_ ?_
    · rw [hsize]; exact hpos
    · rw [hsize]; exact hle
    · rw [hsize]; exact hlength
    · rw [hsize]; exact hcells
  · intro spec hspec j o ho
    cases hr with
    | instruction hmem _ _ hmost =>
      cases hspec
      have hlt := (List.getElem?_eq_some_iff.1 ho).1
      have hslot := List.getElem?_eq_getElem (Nat.lt_of_lt_of_le hlt hmost)
      exact ⟨_, _, hslot, decode_of_block hm hmem rfl rfl hrow h hslot ho⟩
    | data => cases hspec
    | ascii => cases hspec
    | cell => cases hspec
  · intro spec hspec j f i hslot hpresence
    cases hr with
    | instruction _ _ hleast =>
      cases hspec
      exact Nat.lt_of_lt_of_le (Instruction.lt_minOperands hslot hpresence) hleast
    | data => cases hspec
    | ascii => cases hspec
    | cell => cases hspec

end Statement

theorem SourceEnv.Assembled.forall₂_encodes {env : SourceEnv} (hm : env.machine.Valid)
    {name contents : Text} {start : UInt64} {s : SourceState} {cs : List Statement}
    {spans : List Span} {p : Program} (h : env.Assembled name contents start s cs spans p) :
    List.Forall₂ (Block.Encodes env.machine.cellSize) p.statements p.blocks := by
  have hlengths := h.placed.lengths
  refine forall₂_of_getElem? (by omega) fun {i r b} hr hb => ?_
  obtain ⟨c, r', _, hc, hr', _, htrace⟩ := h.placed.trace_of_block hb
  obtain rfl : r = r' := Option.some.inj (hr.symm.trans hr')
  have hwell := h.addressed.wellFormed c (List.mem_of_getElem? hc)
  exact Statement.encodes_of_block hm
    (Statement.formed_replaceNames hwell htrace.place h.addressed.isNumeral htrace.names)
    (Statement.span_replaceNames hwell htrace.place htrace.names) htrace.code

/-- Every block of a program that was assembled holds its statement, and its fields
can be read back. -/
theorem Assembler.assembleSource_encodes {a : Assembler} {m : Option Machine}
    (haccept : accept m = .ok a.machine) {library : Library} {name contents : Text}
    {start : UInt64} {p : Program}
    (hrun : (a.assembleSource library name contents start).2.result = .ok p) :
    List.Forall₂ (Block.Encodes a.machine.cellSize) p.statements p.blocks := by
  obtain ⟨s, cs, spans, h⟩ := assembled_of_assembleSource hrun
  exact h.forall₂_encodes (valid_of_accept haccept)

/-- The cells of the sample, with jumps forward and backward. -/
theorem Sample.encodes : ∃ p,
    (assembler.assembleSource library "sample" source 5).2.result = .ok p ∧
    p.blocks.map (·.cells) = [[1, 5], [0], [2, 1], [1, 251], [255, 255, 0, 10], [104, 105]] ∧
    List.Forall₂ (Block.Encodes assembler.machine.cellSize) p.statements p.blocks := by
  have hplain : (plainAssemble? assembler.machine "sample" source 5).map
      (fun p => p.blocks.map (·.cells)) =
      some [[1, 5], [0], [2, 1], [1, 251], [255, 255, 0, 10], [104, 105]] := by decide +kernel
  obtain ⟨p, hp, hcells⟩ := Option.map_eq_some_iff.1 hplain
  have hrun := Assembler.assembleSource_of_plainAssemble? library hp
  exact ⟨p, hrun, hcells, Assembler.assembleSource_encodes accepted hrun⟩

end CellAsm
