-- SUMMARY: Once labels have addresses, only an operand can make an assembly fail.
import CellAsm.Proofs.Encoding

/-!
# Rejected operands

A program whose labels have addresses is well formed, and what is left to do is to
replace names and to pack numbers. Either works, or an operand is to blame: it
names nothing, is not among the values of its field, or does not fit. Each of the
two passes is described by what it rejects in a statement.
-/
namespace CellAsm

/-- Operand `j` of an instruction is written as `o` for the field `f` at position
`pos`. -/
structure Statement.Writes (c : Statement) (j : Nat) (spec : Instruction) (o : Token) (f : Field)
    (pos : Nat) : Prop where
  instruction : c.instruction = some spec
  slot : spec.operandSlots[j]? = some (f, pos)
  operand : c.operands[j]? = some o

theorem Statement.Formed.operand_of_writes {m : Machine} {P : Token → Prop} {c : Statement}
    (hc : c.Formed m P) {j : Nat} {spec : Instruction} {o : Token} {f : Field} {pos : Nat}
    (h : c.Writes j spec o f pos) : spec ∈ m.instructions ∧ P o := by
  cases hc with
  | instruction hspec hoperands =>
    cases h.instruction
    exact ⟨hspec, hoperands o (List.mem_of_getElem? h.operand)⟩
  | data => cases h.instruction
  | ascii => cases h.instruction
  | cell => cases h.instruction

/-! ## Replacing names -/

/-- What is rejected in a statement when its names are replaced. -/
inductive Statement.Unresolved (labels : Table Token) (c : Statement) : Failure → Prop
  /-- A name that no label has, where no value of a field is expected. -/
  | undefined {j : Nat} {o : Token} (hoperand : c.operands[j]? = some o)
      (hkind : o.kind = .identifier) (hlabel : labels.find? o.symbol = none)
      (hfree : ∀ {spec f pos}, c.Writes j spec o f pos → f.restricted = false) :
      Unresolved labels c (.blame o (.undefinedSymbol o.contents))
  /-- Something that is neither a label nor a value of its field. -/
  | unlisted {j : Nat} {spec : Instruction} {o : Token} {f : Field} {pos : Nat}
      (hwrites : c.Writes j spec o f pos) (hlabel : Label.named? labels o = none)
      (hrestricted : f.restricted) (hlookup : f.lookup o.contents.trim = none) :
      Unresolved labels c
        (.blame o (.valueNotAllowed o.contents (Instruction.fieldLabel f pos) spec.name))

namespace Label

variable {labels : Table Token} {address next : UInt64} {o : Token} {e : Failure}

theorem of_replaceValue_eq_error (h : replaceValue labels o = .error e) :
    o.kind = .identifier ∧ labels.find? o.symbol = none ∧
      e = .blame o (.undefinedSymbol o.contents) := by
  unfold replaceValue at h
  split at h
  · rename_i hkind
    split at h
    · cases h
    · rename_i hnone
      cases h
      exact ⟨hkind, hnone, rfl⟩
  · cases h

theorem isNumeral_of_named? (hlabels : labels.All Token.IsNumeral) {l : Token}
    (h : named? labels o = some l) : l.IsNumeral := by
  unfold named? at h
  split at h
  · exact hlabels.find? h
  · cases h

/-- The address of a label can always be read, so that only an operand that is no
label is rejected. -/
theorem of_replaceOperand_eq_error (hlabels : labels.All Token.IsNumeral) {spec : Instruction}
    {f : Field} {pos : Nat} (h : replaceOperand spec labels address next f pos o = .error e) :
    named? labels o = none ∧
      (f.restricted ∧ f.lookup o.contents.trim = none ∧
          e = .blame o (.valueNotAllowed o.contents (Instruction.fieldLabel f pos) spec.name) ∨
        f.restricted = false ∧ o.kind ≠ .constant ∧
          e = .blame o (.undefinedSymbol o.contents)) := by
  unfold replaceOperand at h
  split at h
  · rename_i l hl
    obtain ⟨v, hv⟩ := Option.isSome_iff_exists.1 (isNumeral_of_named? hlabels hl).2
    rw [hv] at h
    cases h
  · rename_i hnamed
    refine ⟨hnamed, ?_⟩
    split at h
    · rename_i hrestricted
      split at h
      · cases h
      · rename_i hlookup
        cases h
        exact .inl ⟨hrestricted, hlookup, rfl⟩
    · rename_i hrestricted
      split at h
      · cases h
      · rename_i hkind
        cases h
        exact .inr ⟨Bool.eq_false_iff.2 hrestricted, hkind, rfl⟩

theorem unresolved_of_replaceNames (hlabels : labels.All Token.IsNumeral) {m : Machine}
    {c : Statement} (hc : c.WellFormed m) (h : replaceNames labels address next c = .error e) :
    c.Unresolved labels e := by
  have hdirective (hspec : c.instruction = none) : c.Unresolved labels e := by
    rw [replaceNames_of_directive hspec, bind_eq_error] at h
    obtain h | ⟨_, _, h⟩ := h
    · obtain ⟨o, ho, h⟩ := exists_of_mapM_eq_error h
      obtain ⟨j, hj⟩ := List.mem_iff_getElem?.1 ho
      obtain ⟨hkind, hlabel, rfl⟩ := of_replaceValue_eq_error h
      refine .undefined hj hkind hlabel fun hwrites => ?_
      cases hspec.symm.trans hwrites.instruction
    · cases h
  cases hc with
  | @instruction _ spec _ operands _ hoperands _ hmost =>
    rw [replaceNames_of_instruction rfl hmost, bind_eq_error] at h
    obtain h | ⟨_, _, h⟩ := h
    · obtain ⟨⟨⟨f, pos⟩, o⟩, hmem, h⟩ := exists_of_mapM_eq_error h
      obtain ⟨j, hj⟩ := List.mem_iff_getElem?.1 hmem
      obtain ⟨hslot, ho⟩ := List.getElem?_zip_eq_some.1 hj
      obtain ⟨hlabel, ⟨hrestricted, hlookup, rfl⟩ | ⟨hfree, hkind, rfl⟩⟩ :=
        of_replaceOperand_eq_error hlabels h
      · exact .unlisted ⟨rfl, hslot, ho⟩ hlabel hrestricted hlookup
      · have hname : o.kind = .identifier :=
          ((hoperands o (List.mem_of_getElem? ho)).resolve_right fun h => hkind h.1).1
        rw [named?, if_pos hname] at hlabel
        refine .undefined ho hname hlabel fun hwrites => ?_
        cases hwrites.instruction
        cases hslot.symm.trans hwrites.slot
        exact hfree
    · cases h
  | data => exact hdirective rfl
  | ascii => exact hdirective rfl
  | cell => exact hdirective rfl

/-- An operand of an instruction is replaced for its slot. -/
theorem operand_of_replaceNames {c r : Statement} {m : Machine} (hc : c.WellFormed m) {j : Nat}
    {spec : Instruction} {f : Field} {pos : Nat} (hwrites : c.Writes j spec o f pos)
    (h : replaceNames labels address next c = .ok r) : ∃ o',
      replaceOperand spec labels address next f pos o = .ok o' ∧ r.operands[j]? = some o' := by
  cases hc with
  | instruction _ _ _ hmost =>
    rw [replaceNames_of_instruction rfl hmost] at h
    simp only [bind_eq_ok, pure_eq_ok] at h
    obtain ⟨replaced, hreplaced, rfl⟩ := h
    cases hwrites.instruction
    have hzip := List.getElem?_zip_eq_some.2
      (⟨hwrites.slot, hwrites.operand⟩ : spec.operandSlots[j]? = some ((f, pos), o).1 ∧ _)
    obtain ⟨o', ho', hreplace⟩ := forall₂_getElem?_left (mapM_eq_ok.1 hreplaced) hzip
    exact ⟨o', hreplace, ho'⟩
  | data => cases hwrites.instruction
  | ascii => cases hwrites.instruction
  | cell => cases hwrites.instruction

/-- A statement with an operand that is no value of its field has no replacement. -/
theorem replaceNames_ne_ok_of_unlisted {c r : Statement} {m : Machine} (hc : c.WellFormed m)
    {j : Nat} {spec : Instruction} {f : Field} {pos : Nat} (hwrites : c.Writes j spec o f pos)
    (hlabel : named? labels o = none) (hrestricted : f.restricted)
    (hlookup : f.lookup o.contents.trim = none) : replaceNames labels address next c ≠ .ok r := by
  intro h
  obtain ⟨o', ho', _⟩ := operand_of_replaceNames hc hwrites h
  simp only [replaceOperand, hlabel, hrestricted, hlookup, if_true] at ho'
  cases ho'

end Label

/-! ## Packing numbers -/

/-- A number that does not fit where it has to go. -/
inductive Statement.TooWide (c : Statement) : Failure → Prop
  | field {j : Nat} {spec : Instruction} {o : Token} {f : Field} {pos : Nat}
      (hwrites : c.Writes j spec o f pos) (hholds : ¬f.holds o.value) :
      TooWide c (.blame o (.valueTooWide o.value (Instruction.fieldLabel f pos) spec.name f.bits
        f.signed f.lo f.hi))
  /-- A number in data may be meant as signed or as unsigned. -/
  | data {o : Token} (haction : c.action = .data) (hoperand : o ∈ c.operands)
      (hrange : ¬(-(2 ^ (8 * c.width.toNat - 1)) ≤ o.value ∧ o.value ≤ 2 ^ (8 * c.width.toNat) - 1)) :
      TooWide c (.blame o (.dataTooWide o.value c.width))

namespace Code

theorem operandValue_of_isNumber {o : Token} (h : o.IsNumber) : operandValue o = .ok o.value :=
  operandValue_eq_ok.2 ⟨h.1, h.integer?_eq⟩

theorem appendZeros_eq_ok (p : Packed) {width : Int} (hlo : 0 ≤ width) (hhi : width ≤ 64) :
    ∃ q, fault (p.appendZeros width) = .ok q := by
  have hlimit : width < bitsLimit := Int.lt_of_le_of_lt hhi (by decide)
  unfold Packed.appendZeros
  split
  · exact ⟨_, rfl⟩
  · rw [if_neg (by omega)]
    exact ⟨_, rfl⟩

theorem checkBits_eq_ok {width : Int} (h : width ≤ 64) : fault (checkBits width) = .ok () := by
  rw [checkBits, if_pos (Int.lt_of_le_of_lt h (by decide))]
  rfl

/-- Packing fields fails only at an operand that does not fit the field of its slot. -/
theorem of_packFields_eq_error {spec : Instruction} {fields : List (Field × Nat)}
    {operands : List Token} {p : Packed} {e : Failure}
    (hfields : ∀ slot ∈ fields, 0 ≤ slot.1.bits ∧ slot.1.bits ≤ 64)
    (hoperands : ∀ o ∈ operands, o.IsNumber) (h : packFields spec fields operands p = .error e) :
    ∃ (j : Nat) (o : Token) (f : Field) (pos : Nat),
      (fields.filter (·.1.takesOperand))[j]? = some (f, pos) ∧ operands[j]? = some o ∧
      ¬f.holds o.value ∧ e = .blame o (.valueTooWide o.value (Instruction.fieldLabel f pos)
        spec.name f.bits f.signed f.lo f.hi) := by
  induction fields generalizing operands p with
  | nil =>
    rw [packFields] at h
    cases h
  | cons slot fields ih =>
    obtain ⟨f, i⟩ := slot
    obtain ⟨⟨hlo, hhi⟩, hfields⟩ := List.forall_mem_cons.1 hfields
    obtain ⟨q, hq⟩ := appendZeros_eq_ok p hlo hhi
    cases operands with
    | nil =>
      rw [packFields, hq, ok_bind] at h
      obtain ⟨_, _, _, _, _, ho, _⟩ := ih hfields hoperands h
      cases ho
    | cons o rest =>
      obtain ⟨ho, hrest⟩ := List.forall_mem_cons.1 hoperands
      unfold packFields at h
      split at h
      · rename_i htakes
        simp only [List.filter_cons, htakes, if_true]
        rw [operandValue_of_isNumber ho, ok_bind, checkBits_eq_ok hhi, ok_bind] at h
        split at h
        · obtain ⟨j, o', f', pos, hslot, ho', hrejected⟩ := ih hfields hrest h
          exact ⟨j + 1, o', f', pos, hslot, ho', hrejected⟩
        · rename_i hholds
          cases h
          exact ⟨0, o, f, i, rfl, rfl, hholds, rfl⟩
      · rename_i htakes
        rw [hq, ok_bind] at h
        simp only [List.filter_cons, htakes, Bool.false_eq_true, if_false]
        exact ih hfields hoperands h

/-- The numbers that data of so many bits may hold. -/
theorem of_packValues {bits width : Int} {operands : List Token} {p : Packed}
    (hoperands : ∀ o ∈ operands, o.IsNumber) :
    (∀ q, packValues bits width operands p = .ok q → ∀ o ∈ operands,
        -(2 ^ (bits.toNat - 1)) ≤ o.value ∧ o.value ≤ 2 ^ bits.toNat - 1) ∧
      ∀ e, packValues bits width operands p = .error e → ∃ o ∈ operands,
        ¬(-(2 ^ (bits.toNat - 1)) ≤ o.value ∧ o.value ≤ 2 ^ bits.toNat - 1) ∧
        e = .blame o (.dataTooWide o.value width) := by
  induction operands generalizing p with
  | nil =>
    refine ⟨fun _ _ => List.forall_mem_nil _, fun e he => ?_⟩
    cases he
  | cons o rest ih =>
    obtain ⟨ho, hrest⟩ := List.forall_mem_cons.1 hoperands
    rw [packValues, operandValue_of_isNumber ho, ok_bind]
    split
    · rename_i hfits
      obtain ⟨hok, herror⟩ := ih (p := p.append o.value bits) hrest
      refine ⟨fun q hq => List.forall_mem_cons.2 ⟨hfits, hok q hq⟩, fun e he => ?_⟩
      obtain ⟨o', ho', hrejected⟩ := herror e he
      exact ⟨o', List.mem_cons_of_mem o ho', hrejected⟩
    · rename_i hfits
      refine ⟨fun q hq => ?_, fun e he => ?_⟩
      · cases hq
      cases he
      exact ⟨o, List.mem_cons_self, hfits, rfl⟩

theorem packData_eq {width : Int} (h : 1 ≤ width ∧ width ≤ 8) (operands : List Token) :
    packData width operands = packValues (8 * width) width operands {} := by
  have hbits : (8 * width).bmod (2 ^ 64) = 8 * width := Int.bmod_eq_of_le (by omega) (by omega)
  simp only [packData, hbits]
  rw [if_neg (by rw [bitsLimit]; omega)]

section Pack

variable {m : Machine} {r : Statement} {n : Int}

theorem tooWide_of_pack (hm : m.Valid) (hr : r.Formed m Token.IsNumber) {e : Failure}
    (h : pack r n = .error e) : r.TooWide e := by
  cases hr with
  | @instruction _ spec _ _ hspec hoperands =>
    obtain ⟨_, _, hvalid⟩ := hm.instructions spec hspec
    simp only [pack, packInstruction_eq, zipIdx_fields hvalid] at h
    obtain ⟨j, o, f, pos, hslot, ho, hholds, rfl⟩ := of_packFields_eq_error
      (fun slot hslot => hvalid.operandBits slot.1 (List.fst_mem_of_mem_zipIdx hslot)) hoperands h
    rw [← operandSlots_eq hvalid] at hslot
    exact .field ⟨rfl, hslot, ho⟩ hholds
  | @data _ _ _ width hoperands hwidth =>
    simp only [pack, packData_eq hwidth] at h
    obtain ⟨o, ho, hrange, rfl⟩ := (of_packValues hoperands).2 e h
    refine .data rfl ho ?_
    rw [Int.toNat_mul (by omega) (by omega)] at hrange
    exact hrange
  | ascii => cases h
  | cell haction =>
    rcases haction with rfl | rfl
    · cases h
    · cases h

/-- What is packed fits. -/
theorem not_tooWide_of_pack (hm : m.Valid) (hr : r.Formed m Token.IsNumber) {q : Packed}
    (h : pack r n = .ok q) (e : Failure) : ¬r.TooWide e := by
  intro hwide
  cases hr with
  | @instruction _ spec _ _ hspec hoperands =>
    obtain ⟨_, _, hvalid⟩ := hm.instructions spec hspec
    cases hwide with
    | field hwrites hholds =>
      cases hwrites.instruction
      obtain ⟨v, hv, hfits⟩ := holds_of_packInstruction hvalid h hwrites.slot hwrites.operand
      rw [Token.value, hv] at hholds
      exact hholds hfits
    | data haction => cases haction
  | @data _ _ _ width hoperands hwidth =>
    simp only [pack, packData_eq hwidth] at h
    cases hwide with
    | field hwrites => cases hwrites.instruction
    | data _ ho hrange =>
      have hfits := (of_packValues hoperands).1 q h _ ho
      rw [Int.toNat_mul (by omega) (by omega)] at hfits
      exact hrange hfits
  | ascii =>
    cases hwide with
    | field hwrites => cases hwrites.instruction
    | data haction => cases haction
  | cell haction =>
    cases hwide with
    | field hwrites => cases hwrites.instruction
    | data hdata =>
      rcases haction with rfl | rfl
      · cases hdata
      · cases hdata

end Pack

theorem checkStorage_eq_ok {m : Machine} (hm : m.Valid) {P : Token → Prop} {r : Statement}
    (hr : r.Formed m P) (n : Int) : checkStorage r n = .ok () := by
  have hvast : hasVastField r = false := by
    cases hr with
    | @instruction _ spec _ _ hspec =>
      obtain ⟨opcodeField, fs, hvalid⟩ := hm.instructions spec hspec
      have hsmall {f : Field} (hf : f.bits ≤ 64) : ¬decide (bitsLimit ≤ f.bits) = true := by
        have hlimit : f.bits < bitsLimit := Int.lt_of_le_of_lt hf (by decide)
        rw [decide_eq_true_eq]
        omega
      simp only [hasVastField, Option.any_some, hvalid.fields, List.any_eq_false]
      refine List.forall_mem_cons.2 ⟨hsmall hvalid.opcodeBits.2, fun f hf => ?_⟩
      exact hsmall (hvalid.operandBits f hf).2
    | data => rfl
    | ascii => rfl
    | cell => rfl
  rw [checkStorage, hvast]
  rfl

/-- As many bits are packed as the statement takes up, and they are cut into cells. -/
theorem block_eq {m : Machine} (hm : m.Valid) {r : Statement} (hr : r.Formed m Token.IsNumber)
    {address : UInt64} {n : Int} (hn : r.emittedBits address m.cellSize = .ok n) :
    block r address n m.cellSize = do
      let packed ← pack r n
      return {
        address := address, length := n, cells := packed.cut n.toNat m.cellSize.toNat
        cellSize := m.cellSize, source := r.keyword, operands := r.operands } := by
  have hpos := hm.cellSize_pos
  have hle := hm.cellSize_le
  have hnonneg := Statement.emittedBits_nonneg hm hr hn
  unfold block
  cases hpack : pack r n with
  | error e => rfl
  | ok packed =>
    have hcount : packed.bits = n := by
      rw [(Statement.represents_pack hm hr hnonneg hpack).1, Statement.length_encode hm hr hn]
    simp only [ok_bind, countedBits, hcount, if_true, ne_eq, not_true_eq_false, if_false,
      checkStorage_eq_ok hm hr, Packed.cells]
    rw [if_neg (by omega), if_neg (by rw [bitsLimit]; omega)]
    rfl

theorem tooWide_of_block {m : Machine} (hm : m.Valid) {r : Statement}
    (hr : r.Formed m Token.IsNumber) {address : UInt64} {n : Int}
    (hn : r.emittedBits address m.cellSize = .ok n) {e : Failure}
    (h : block r address n m.cellSize = .error e) : r.TooWide e := by
  rw [block_eq hm hr hn, bind_eq_error] at h
  obtain h | ⟨_, _, h⟩ := h
  · exact tooWide_of_pack hm hr h
  · cases h

end Code

/-! ## A whole program -/

/-- The failure is an invalid operand. -/
def Failure.InOperand (e : Failure) : Prop :=
  ∃ d, e = .diagnostic d ∧ d.cause.errorClass = .operand

theorem Statement.Unresolved.inOperand {labels : Table Token} {c : Statement} {e : Failure}
    (h : c.Unresolved labels e) : e.InOperand := by
  cases h with
  | undefined => exact ⟨_, rfl, rfl⟩
  | unlisted => exact ⟨_, rfl, rfl⟩

theorem Statement.TooWide.inOperand {c : Statement} {e : Failure} (h : c.TooWide e) :
    e.InOperand := by
  cases h with
  | field => exact ⟨_, rfl, rfl⟩
  | data => exact ⟨_, rfl, rfl⟩

namespace SourceEnv.Addressed

variable {env : SourceEnv} {name contents : Text} {start : UInt64} {s : SourceState}
  {cs rs : List Statement} {equs labels : Table Token} {spans : List Span}

/-- Names are replaced statement by statement. -/
theorem unresolved_of_replace (h : env.Addressed name contents start s cs equs labels)
    (hlayout : Statement.layout env.machine.cellSize start cs = .ok spans) {e : Failure}
    (he : (cs.zip spans).mapM (fun (c, s) => Label.replaceNames labels s.address s.next c) =
      .error e) : ∃ (i : Nat) (c : Statement) (here : Span), cs[i]? = some c ∧
        spans[i]? = some here ∧ c.span env.machine.cellSize here.address = .ok here ∧
        c.Unresolved labels e := by
  obtain ⟨⟨c, here⟩, hmem, he⟩ := exists_of_mapM_eq_error he
  obtain ⟨i, hi⟩ := List.mem_iff_getElem?.1 hmem
  obtain ⟨hc, hhere⟩ := List.getElem?_zip_eq_some.1 hi
  obtain ⟨here', hhere', hplace⟩ := forall₂_getElem?_left (Statement.forall₂_of_layout hlayout) hc
  obtain rfl : here = here' := Option.some.inj (hhere.symm.trans hhere')
  exact ⟨i, c, here, hc, hhere, hplace,
    Label.unresolved_of_replaceNames h.isNumeral (h.wellFormed c (List.of_mem_zip hmem).1) he⟩

/-- Once names are replaced, every statement has numbers for operands and its own
place. -/
theorem formed_of_replace (h : env.Addressed name contents start s cs equs labels)
    (hlayout : Statement.layout env.machine.cellSize start cs = .ok spans)
    (hrs : (cs.zip spans).mapM (fun (c, s) => Label.replaceNames labels s.address s.next c) =
      .ok rs) {i : Nat} {r : Statement} {here : Span} (hr : rs[i]? = some r)
    (hhere : spans[i]? = some here) : r.Formed env.machine Token.IsNumber ∧
      r.span env.machine.cellSize here.address = .ok here := by
  obtain ⟨⟨c, here'⟩, hci, hnames⟩ := forall₂_getElem?_right (mapM_eq_ok.1 hrs) hr
  obtain ⟨hc, hhere'⟩ := List.getElem?_zip_eq_some.1 hci
  obtain rfl : here = here' := Option.some.inj (hhere.symm.trans hhere')
  obtain ⟨here', hhere', hplace⟩ := forall₂_getElem?_left (Statement.forall₂_of_layout hlayout) hc
  obtain rfl : here = here' := Option.some.inj (hhere.symm.trans hhere')
  have hwell := h.wellFormed c (List.mem_of_getElem? hc)
  exact ⟨Statement.formed_replaceNames hwell hplace h.isNumeral hnames,
    Statement.span_replaceNames hwell hplace hnames⟩

theorem tooWide_of_generate (hm : env.machine.Valid)
    (h : env.Addressed name contents start s cs equs labels)
    (hlayout : Statement.layout env.machine.cellSize start cs = .ok spans)
    (hrs : (cs.zip spans).mapM (fun (c, s) => Label.replaceNames labels s.address s.next c) =
      .ok rs) {e : Failure}
    (he : (rs.zip spans).mapM (fun (r, s) =>
      Code.block r s.address s.bits env.machine.cellSize) = .error e) :
    ∃ r ∈ rs, r.TooWide e := by
  obtain ⟨⟨r, here⟩, hmem, he⟩ := exists_of_mapM_eq_error he
  obtain ⟨i, hi⟩ := List.mem_iff_getElem?.1 hmem
  obtain ⟨hr, hhere⟩ := List.getElem?_zip_eq_some.1 hi
  obtain ⟨hformed, hplace⟩ := h.formed_of_replace hlayout hrs hr hhere
  exact ⟨r, List.mem_of_getElem? hr,
    Code.tooWide_of_block hm hformed (Statement.emittedBits_of_span hplace).1 he⟩

/-- Once labels have addresses, an assembly succeeds or rejects an operand. -/
theorem result_rejects (hm : env.machine.Valid)
    (h : env.Addressed name contents start s cs equs labels) (e : Failure)
    (he : (env.assemble name contents start).result = .error e) : e.InOperand := by
  obtain ⟨spans, hlayout⟩ := h.exists_layout
  rw [h.result_eq hlayout, bind_eq_error] at he
  rcases he with he | ⟨rs, hrs, he⟩
  · obtain ⟨_, _, _, _, _, _, hunresolved⟩ := h.unresolved_of_replace hlayout he
    exact hunresolved.inOperand
  · rcases bind_eq_error.1 he with he | ⟨_, _, he⟩
    · obtain ⟨_, _, hwide⟩ := h.tooWide_of_generate hm hlayout hrs he
      exact hwide.inOperand
    · cases he

end SourceEnv.Addressed

end CellAsm
