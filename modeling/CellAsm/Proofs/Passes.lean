-- SUMMARY: Addressing labels, replacing names and generating code walk over one layout.
import CellAsm.Code.Block
import CellAsm.Proofs.Layout
import CellAsm.Symbol.Label

/-!
# Passes over a layout

Three passes walk over the statements and count cells on their own: one gives
labels their addresses, one replaces names, and one generates code. Each is
described here as a plain traversal of the statements with their places. The place
of a statement does not change when its names are replaced, so that all three
passes walk over the same places.
-/
namespace CellAsm

open Statement

/-! ## Addresses of labels -/

namespace Label

/-- What the table holds for a label of a statement at `address`. -/
def mark (address : UInt64) (l : Token) : Token where
  kind := .constant
  contents := Text.decimal address.toNat
  position := l.position
  legal := true

theorem find?_of_define {address : UInt64} {labels table : Table Token} {ls : List Token}
    (h : define address labels ls = .ok table) {name : Text} {t : Token}
    (hname : labels.find? name = some t) : table.find? name = some t := by
  induction ls generalizing labels with
  | nil =>
    cases h
    exact hname
  | cons l rest ih =>
    unfold define at h
    split at h
    · cases h
    · rename_i hnew
      refine ih h ?_
      -- The new name is not the one that is known already.
      have hne : name ≠ l.symbol := by
        rintro rfl
        rw [hname] at hnew
        cases hnew
      rw [Table.find?_insert, if_neg hne]
      exact hname

theorem find?_of_mem_define {address : UInt64} {labels table : Table Token} {ls : List Token}
    (h : define address labels ls = .ok table) :
    ∀ l ∈ ls, table.find? l.symbol = some (mark address l) := by
  induction ls generalizing labels with
  | nil => exact List.forall_mem_nil _
  | cons l rest ih =>
    unfold define at h
    split at h
    · cases h
    · refine List.forall_mem_cons.2 ⟨find?_of_define h ?_, ih h⟩
      rw [Table.find?_insert, if_pos rfl]
      rfl

theorem exists_of_find?_define {address : UInt64} {labels table : Table Token} {ls : List Token}
    (h : define address labels ls = .ok table) {name : Text} {t : Token}
    (hname : table.find? name = some t) :
    labels.find? name = some t ∨ ∃ l ∈ ls, l.symbol = name := by
  induction ls generalizing labels with
  | nil =>
    cases h
    exact .inl hname
  | cons l rest ih =>
    unfold define at h
    split at h
    · cases h
    · rcases ih h with hfound | ⟨l', hl', heq⟩
      · rw [Table.find?_insert] at hfound
        split at hfound
        · rename_i heq
          exact .inr ⟨l, List.mem_cons_self, heq.symm⟩
        · exact .inl hfound
      · exact .inr ⟨l', List.mem_cons_of_mem l hl', heq⟩

theorem isNumeral_mark (address : UInt64) (l : Token) : (mark address l).IsNumeral :=
  ⟨rfl, by rw [mark, Text.toInt?_decimal]; rfl⟩

theorem all_of_define {address : UInt64} {labels table : Table Token} {ls : List Token}
    (h : define address labels ls = .ok table) (hlabels : labels.All Token.IsNumeral) :
    table.All Token.IsNumeral := by
  induction ls generalizing labels with
  | nil =>
    cases h
    exact hlabels
  | cons l rest ih =>
    unfold define at h
    split at h
    · cases h
    · exact ih h (hlabels.insert (isNumeral_mark address l))

variable {cellSize : Int} {address : UInt64} {labels table : Table Token} {cs : List Statement}

theorem assignFrom_cons_eq_ok {c : Statement} :
    assignFrom cellSize address labels (c :: cs) = .ok table ↔ ∃ marked s,
      define address labels c.labels = .ok marked ∧ c.span cellSize address = .ok s ∧
      assignFrom cellSize s.next marked cs = .ok table := by
  simp only [assignFrom, bind_eq_ok]
  constructor
  · rintro ⟨marked, hmarked, n, hn, next, hnext, h⟩
    exact ⟨marked, ⟨address, n, next⟩, hmarked, span_eq_ok.2 ⟨rfl, hn, hnext⟩, h⟩
  · rintro ⟨marked, s, hmarked, hs, h⟩
    obtain ⟨-, hn, hnext⟩ := span_eq_ok.1 hs
    exact ⟨marked, hmarked, s.bits, hn, s.next, hnext, h⟩

theorem find?_of_assignFrom (h : assignFrom cellSize address labels cs = .ok table) {name : Text}
    {t : Token} (hname : labels.find? name = some t) : table.find? name = some t := by
  induction cs generalizing address labels with
  | nil =>
    cases h
    exact hname
  | cons c rest ih =>
    obtain ⟨marked, s, hmarked, _, hrest⟩ := assignFrom_cons_eq_ok.1 h
    exact ih hrest (find?_of_define hmarked hname)

/-- A name in the table is that of a label. -/
theorem exists_of_find?_assignFrom (h : assignFrom cellSize address labels cs = .ok table)
    {name : Text} {t : Token} (hname : table.find? name = some t) :
    labels.find? name = some t ∨ ∃ (i : Nat) (c : Statement) (l : Token),
      cs[i]? = some c ∧ l ∈ c.labels ∧ l.symbol = name := by
  induction cs generalizing address labels with
  | nil =>
    cases h
    exact .inl hname
  | cons c rest ih =>
    obtain ⟨marked, s, hmarked, _, hrest⟩ := assignFrom_cons_eq_ok.1 h
    rcases ih hrest with hfound | ⟨i, d, l, hd, hl, heq⟩
    · rcases exists_of_find?_define hmarked hfound with hfound | ⟨l, hl, heq⟩
      · exact .inl hfound
      · exact .inr ⟨0, c, l, rfl, hl, heq⟩
    · exact .inr ⟨i + 1, d, l, hd, hl, heq⟩

theorem all_of_assignFrom (h : assignFrom cellSize address labels cs = .ok table)
    (hlabels : labels.All Token.IsNumeral) : table.All Token.IsNumeral := by
  induction cs generalizing address labels with
  | nil =>
    cases h
    exact hlabels
  | cons c rest ih =>
    obtain ⟨marked, s, hmarked, _, hrest⟩ := assignFrom_cons_eq_ok.1 h
    exact ih hrest (all_of_define hmarked hlabels)

theorem layout_of_assignFrom (h : assignFrom cellSize address labels cs = .ok table) :
    ∃ spans, layout cellSize address cs = .ok spans := by
  induction cs generalizing address labels with
  | nil => exact ⟨[], rfl⟩
  | cons c rest ih =>
    obtain ⟨marked, s, _, hs, hrest⟩ := assignFrom_cons_eq_ok.1 h
    obtain ⟨more, hmore⟩ := ih hrest
    exact ⟨s :: more, layout_cons_eq_ok.2 ⟨s, more, hs, hmore, rfl⟩⟩

/-- The pass reaches each statement at the address of its place. -/
theorem assignFrom_drop (h : assignFrom cellSize address labels cs = .ok table)
    {spans : List Span} (hlayout : layout cellSize address cs = .ok spans) {i : Nat} {s : Span}
    (hi : spans[i]? = some s) : ∃ before,
      assignFrom cellSize address labels (cs.take i) = .ok before ∧
      assignFrom cellSize s.address before (cs.drop i) = .ok table := by
  induction cs generalizing address labels spans i with
  | nil =>
    cases hlayout
    cases hi
  | cons c rest ih =>
    obtain ⟨first, more, hfirst, hmore, rfl⟩ := layout_cons_eq_ok.1 hlayout
    cases i with
    | zero =>
      cases hi
      rw [(span_eq_ok.1 hfirst).1]
      exact ⟨labels, rfl, h⟩
    | succ i =>
      obtain ⟨marked, s', hmarked, hs', hrest⟩ := assignFrom_cons_eq_ok.1 h
      obtain rfl : s' = first := Except.ok.inj (hs'.symm.trans hfirst)
      obtain ⟨before, hbefore, hafter⟩ := ih hrest hmore hi
      exact ⟨before, assignFrom_cons_eq_ok.2 ⟨marked, s', hmarked, hs', hbefore⟩, hafter⟩

/-- Every label has the address of the place of its statement. -/
theorem find?_of_mem_labels (h : assignFrom cellSize address labels cs = .ok table)
    {spans : List Span} (hlayout : layout cellSize address cs = .ok spans) {i : Nat}
    {c : Statement} {s : Span} (hc : cs[i]? = some c) (hi : spans[i]? = some s) {l : Token}
    (hl : l ∈ c.labels) : table.find? l.symbol = some (mark s.address l) := by
  obtain ⟨before, _, hafter⟩ := assignFrom_drop h hlayout hi
  obtain ⟨hlt, rfl⟩ := List.getElem?_eq_some_iff.1 hc
  rw [List.drop_eq_getElem_cons hlt] at hafter
  obtain ⟨marked, _, hmarked, _, hrest⟩ := assignFrom_cons_eq_ok.1 hafter
  exact find?_of_assignFrom hrest (find?_of_mem_define hmarked l hl)

end Label

/-! ## Names and code -/

section Traversals

variable {cellSize : Int} {address : UInt64} {cs : List Statement} {spans : List Span}

theorem Label.replaceFrom_eq (labels : Table Token)
    (h : layout cellSize address cs = .ok spans) :
    Label.replaceFrom labels cellSize address cs =
      (cs.zip spans).mapM fun (c, s) => Label.replaceNames labels s.address s.next c := by
  induction cs generalizing address spans with
  | nil => rfl
  | cons c rest ih =>
    obtain ⟨s, more, hs, hmore, rfl⟩ := layout_cons_eq_ok.1 h
    obtain ⟨rfl, hn, hnext⟩ := span_eq_ok.1 hs
    simp only [Label.replaceFrom, hn, hnext, ok_bind, ih hmore, List.zip_cons_cons, List.mapM_cons]

theorem Code.generateFrom_eq (h : layout cellSize address cs = .ok spans) :
    Code.generateFrom cellSize address cs =
      (cs.zip spans).mapM fun (c, s) => Code.block c s.address s.bits cellSize := by
  induction cs generalizing address spans with
  | nil => rfl
  | cons c rest ih =>
    obtain ⟨s, more, hs, hmore, rfl⟩ := layout_cons_eq_ok.1 h
    obtain ⟨rfl, hn, hnext⟩ := span_eq_ok.1 hs
    simp only [Code.generateFrom, hn, hnext, ok_bind, ih hmore, List.zip_cons_cons,
      List.mapM_cons]

end Traversals

/-! ## The names of one statement -/

namespace Label

variable {labels : Table Token} {address next : UInt64} {c r : Statement}

theorem replaceOperands_eq {spec : Instruction} {slots : List (Field × Nat)} {operands : List Token}
    (h : operands.length ≤ slots.length) :
    replaceOperands spec labels address next slots operands =
      (slots.zip operands).mapM fun (slot, o) =>
        replaceOperand spec labels address next slot.1 slot.2 o := by
  induction operands generalizing slots with
  | nil => rw [List.zip_nil_right, replaceOperands]; rfl
  | cons o rest ih =>
    cases slots with
    | nil => cases h
    | cons slot slots =>
      rw [replaceOperands, ih (Nat.le_of_succ_le_succ h), List.zip_cons_cons, List.mapM_cons]

/-- The operands of an instruction are replaced each for its slot. -/
theorem replaceNames_of_instruction {spec : Instruction} (hspec : c.instruction = some spec)
    (hmost : c.operands.length ≤ spec.operandSlots.length) :
    replaceNames labels address next c = do
      let operands ← (spec.operandSlots.zip c.operands).mapM fun (slot, o) =>
        replaceOperand spec labels address next slot.1 slot.2 o
      return { c with operands := operands } := by
  have hcount : checkCount spec c.operands = .ok () := by
    rw [checkCount_eq, List.drop_eq_nil_of_le hmost]
  simp only [replaceNames, hspec, hcount, ok_bind, replaceFields_eq, List.drop_zero,
    replaceOperands_eq hmost]

theorem replaceNames_of_directive (hspec : c.instruction = none) :
    replaceNames labels address next c = do
      let operands ← c.operands.mapM (replaceValue labels)
      return { c with operands := operands } := by
  simp only [replaceNames, hspec]

theorem replaceValue_of_kind_ne {o : Token} (h : o.kind ≠ .identifier) :
    replaceValue labels o = .ok o := by
  rw [replaceValue, if_neg h]

/-- A directive with a single operand that is no name stays as it is. -/
theorem eq_of_replaceNames {o : Token} (hspec : c.instruction = none) (hoperands : c.operands = [o])
    (ho : o.kind ≠ .identifier) (h : replaceNames labels address next c = .ok r) : r = c := by
  rw [replaceNames_of_directive hspec, hoperands, List.mapM_cons, replaceValue_of_kind_ne ho] at h
  simp only [List.mapM_nil, ok_bind, bind_eq_ok, pure_eq_ok] at h
  obtain ⟨_, ⟨_, rfl, rfl⟩, rfl⟩ := h
  rw [← hoperands]

theorem isNumber_of_replaceValue (hlabels : labels.All Token.IsNumeral) {o o' : Token}
    (ho : o.IsOperand) (h : replaceValue labels o = .ok o') : o'.IsNumber := by
  unfold replaceValue at h
  split at h
  · split at h
    · rename_i l hl
      cases h
      exact (hlabels.find? hl).isNumber_carrying o
    · cases h
  · rename_i hkind
    cases h
    exact ho.isNumber hkind

/-- What becomes of an operand of an instruction: a label is counted from where
the field asks for, a named value of the field is looked up, and a number stays. -/
theorem of_replaceOperand {spec : Instruction} {f : Field} {i : Nat} {o o' : Token}
    (h : replaceOperand spec labels address next f i o = .ok o') :
    (∃ l v, named? labels o = some l ∧ l.contents.toInt? = some v ∧
      o' = o.carrying .constant (Text.decimal (relative f.relativity address next v))) ∨
    (named? labels o = none ∧ ∃ v ∈ f.values, o' = o.carrying .constant (Text.decimal v.value)) ∨
    (named? labels o = none ∧ f.restricted = false ∧ o.kind = .constant ∧ o' = o) := by
  unfold replaceOperand at h
  split at h
  · rename_i l hl
    split at h
    · rename_i v hv
      cases h
      exact .inl ⟨l, v, hl, hv, rfl⟩
    · cases h
  · rename_i hnamed
    split at h
    · split at h
      · rename_i v hv
        cases h
        exact .inr (.inl ⟨hnamed, v, List.mem_of_find?_eq_some hv, rfl⟩)
      · cases h
    · rename_i hrestricted
      split at h
      · rename_i hkind
        cases h
        exact .inr (.inr ⟨hnamed, Bool.eq_false_iff.2 hrestricted, hkind, rfl⟩)
      · cases h

/-- A number that is written for a field without named values stays as it is written, whatever
labels there are and wherever the instruction is. -/
theorem replaceOperand_literal {f : Field} (hfree : f.restricted = false) {o : Token}
    (hkind : o.kind = .constant) (spec : Instruction) (labels : Table Token) (address next : UInt64)
    (i : Nat) : replaceOperand spec labels address next f i o = .ok o := by
  have hnamed : named? labels o = none := by
    rw [named?, if_neg]
    rw [hkind]
    decide
  rw [replaceOperand, hnamed]
  dsimp only
  rw [if_neg (Bool.eq_false_iff.1 hfree), if_pos hkind]

theorem isNumber_carrying_decimal (o : Token) (v : Int) :
    (o.carrying .constant (Text.decimal v)).IsNumber :=
  ⟨rfl, by rw [Token.integer?_carrying_decimal]; rfl⟩

theorem isNumber_of_replaceOperand {spec : Instruction} {f : Field} {i : Nat} {o o' : Token}
    (ho : o.IsOperand) (h : replaceOperand spec labels address next f i o = .ok o') :
    o'.IsNumber := by
  rcases of_replaceOperand h with ⟨_, _, _, _, rfl⟩ | ⟨_, _, _, rfl⟩ | ⟨_, _, hkind, rfl⟩
  · exact isNumber_carrying_decimal _ _
  · exact isNumber_carrying_decimal _ _
  · refine ho.isNumber ?_
    rw [hkind]
    decide

/-- Replacing names changes nothing but operands. -/
theorem of_replaceNames (h : replaceNames labels address next c = .ok r) :
    r = { c with operands := r.operands } := by
  unfold replaceNames at h
  split at h
  · simp only [bind_eq_ok, pure_eq_ok] at h
    obtain ⟨_, _, rfl⟩ := h
    rfl
  · simp only [bind_eq_ok, pure_eq_ok] at h
    obtain ⟨_, _, _, _, rfl⟩ := h
    rfl

end Label

/-! ## Replacing names keeps places -/

theorem Statement.constant_of_span {c : Statement} (haction : c.action = .align ∨ c.action = .pos)
    {cellSize : Int} {address : UInt64} {s : Span} (hs : c.span cellSize address = .ok s) :
    ∀ o ∈ c.operands, o.kind = .constant := by
  obtain ⟨_, _, _, hv, _⟩ := of_emittedBits haction (emittedBits_of_span hs).1
  obtain ⟨hoperands, hkind⟩ := of_soleCell hv
  rw [hoperands]
  exact List.forall_mem_singleton.2 hkind

theorem Statement.span_congr {c r : Statement} {cellSize : Int} {address : UInt64}
    (hkeyword : r.keyword = c.keyword)
    (hbits : r.emittedBits address cellSize = c.emittedBits address cellSize) :
    r.span cellSize address = c.span cellSize address := by
  simp only [span, lengthInBits, advance, hkeyword, hbits]

theorem Statement.span_replaceNames {m : Machine} {c r : Statement} (hc : c.WellFormed m)
    {cellSize : Int} {address : UInt64} {s : Span} (hs : c.span cellSize address = .ok s)
    {labels : Table Token} {next : UInt64}
    (h : Label.replaceNames labels address next c = .ok r) : r.span cellSize address = .ok s := by
  rw [← hs]
  cases hc with
  | instruction =>
    rw [Label.of_replaceNames h]
    rfl
  | @data _ _ operands width =>
    rw [Label.replaceNames_of_directive rfl] at h
    simp only [bind_eq_ok, pure_eq_ok] at h
    obtain ⟨replaced, hreplaced, rfl⟩ := h
    have hlength := (mapM_eq_ok.1 hreplaced).length_eq
    refine span_congr rfl ?_
    simp only [emittedBits, List.map_const', hlength]
  | ascii hstring =>
    rw [Label.eq_of_replaceNames rfl rfl (by rw [hstring]; decide) h]
  | @cell _ action _ o haction hoperand =>
    -- An alignment or position by name has no place before names are replaced.
    have hconstant : o.kind ≠ .identifier := by
      rw [constant_of_span haction hs o List.mem_cons_self]
      decide
    rw [Label.eq_of_replaceNames rfl rfl hconstant h]

/-- Once names are replaced, all operands are numbers. -/
theorem Statement.formed_replaceNames {m : Machine} {c r : Statement} (hc : c.WellFormed m)
    {cellSize : Int} {address : UInt64} {s : Span} (hs : c.span cellSize address = .ok s)
    {labels : Table Token} (hlabels : labels.All Token.IsNumeral) {next : UInt64}
    (h : Label.replaceNames labels address next c = .ok r) : r.Formed m Token.IsNumber := by
  cases hc with
  | @instruction _ spec _ operands hspec hoperands hleast hmost =>
    rw [Label.replaceNames_of_instruction rfl hmost] at h
    simp only [bind_eq_ok, pure_eq_ok] at h
    obtain ⟨replaced, hreplaced, rfl⟩ := h
    have hreplaced := mapM_eq_ok.1 hreplaced
    have hlength : replaced.length = operands.length := by
      rw [← hreplaced.length_eq, List.length_zip]
      exact Nat.min_eq_right hmost
    refine .instruction hspec ?_ (hlength ▸ hleast) (hlength ▸ hmost)
    intro o' ho'
    obtain ⟨i, hi⟩ := List.mem_iff_getElem?.1 ho'
    obtain ⟨⟨slot, o⟩, hslot, ho⟩ := forall₂_getElem?_right hreplaced hi
    have hmem := List.mem_of_getElem? (List.getElem?_zip_eq_some.1 hslot).2
    exact Label.isNumber_of_replaceOperand (hoperands o hmem) ho
  | data hoperands hwidth =>
    rw [Label.replaceNames_of_directive rfl] at h
    simp only [bind_eq_ok, pure_eq_ok] at h
    obtain ⟨replaced, hreplaced, rfl⟩ := h
    refine .data ?_ hwidth
    intro o' ho'
    obtain ⟨i, hi⟩ := List.mem_iff_getElem?.1 ho'
    obtain ⟨o, ho, hvalue⟩ := forall₂_getElem?_right (mapM_eq_ok.1 hreplaced) hi
    exact Label.isNumber_of_replaceValue hlabels (hoperands o (List.mem_of_getElem? ho)) hvalue
  | ascii hstring =>
    rw [Label.eq_of_replaceNames rfl rfl (by rw [hstring]; decide) h]
    exact .ascii hstring
  | @cell _ _ _ o haction hoperand =>
    have hconstant : o.kind ≠ .identifier := by
      rw [constant_of_span haction hs o List.mem_cons_self]
      decide
    rw [Label.eq_of_replaceNames rfl rfl hconstant h]
    exact .cell haction (hoperand.isNumber hconstant)

/-- The statements lie in the same places before and after their names are
replaced. -/
theorem Statement.layout_replaceNames {m : Machine} {cs rs : List Statement}
    (hcs : ∀ c ∈ cs, c.WellFormed m) {cellSize : Int} {address : UInt64} {spans : List Span}
    (hlayout : layout cellSize address cs = .ok spans) {labels : Table Token}
    (h : (cs.zip spans).mapM (fun (c, s) => Label.replaceNames labels s.address s.next c) = .ok rs) :
    layout cellSize address rs = .ok spans := by
  induction cs generalizing address spans rs with
  | nil =>
    cases hlayout
    cases h
    rfl
  | cons c rest ih =>
    obtain ⟨s, more, hs, hmore, rfl⟩ := layout_cons_eq_ok.1 hlayout
    obtain ⟨hc, hrest⟩ := List.forall_mem_cons.1 hcs
    simp only [List.zip_cons_cons, List.mapM_cons, bind_eq_ok, pure_eq_ok] at h
    obtain ⟨r, hr, rs, hrs, rfl⟩ := h
    obtain ⟨rfl, -⟩ := span_eq_ok.1 hs
    exact layout_cons_eq_ok.2 ⟨s, more, span_replaceNames hc hs hr, ih hrest hmore hrs, rfl⟩

/-! ## The code of one statement -/

@[simp] theorem Packed.length_cut (p : Packed) (length cellSize : Nat) :
    (p.cut length cellSize).length = length / cellSize := by
  rw [cut_eq, List.length_map, List.length_range]

/-- The block of a statement holds its packed bits, cut into cells. -/
theorem Code.of_block {m : Machine} (hm : m.Valid) {c : Statement} {address : UInt64} {n : Int}
    {b : Block} (h : Code.block c address n m.cellSize = .ok b) : ∃ packed,
      Code.pack c n = .ok packed ∧ Code.countedBits packed.bits n = n ∧
      b = {
        address := address, length := n, cells := packed.cut n.toNat m.cellSize.toNat
        cellSize := m.cellSize, source := c.keyword, operands := c.operands } := by
  have hpos := hm.cellSize_pos
  simp only [Code.block, bind_eq_ok] at h
  obtain ⟨packed, hpacked, h⟩ := h
  split at h
  · cases h
  · rename_i hcount
    simp only [bind_eq_ok, Code.fault, mapError_eq_ok, pure_eq_ok, Packed.cells] at h
    obtain ⟨_, _, cells, hcells, rfl⟩ := h
    rw [if_neg (by omega)] at hcells
    split at hcells
    · cases hcells
    · cases hcells
      exact ⟨packed, hpacked, not_not.1 hcount, rfl⟩

end CellAsm
