-- SUMMARY: What the fields of an instruction hold for the operands of its source line.
import CellAsm.Proofs.Decoding
import CellAsm.Proofs.Placement
import CellAsm.Proofs.Rejection

/-!
# Operands and their fields

An operand is followed from the line it is written on to the bits of its field. A
label becomes its address, counted from where the field asks for, so that the field
of a branch leads back to the label; if it can not, the operand is rejected. A number
goes into a field without named values as it is written. A field with named values
holds one of them, unless a label is written for it: then it holds the address of the
label, whatever the values are.
-/
namespace CellAsm

open Statement

/-- The number `x` in a field of an instruction that lies at `address` and takes up
`cells` leads to `target`. -/
def Relativity.Reaches (r : Relativity) (address cells target x : Int) : Prop :=
  match r with
  | .preIncrement => address + x = target
  | .postIncrement => address + cells + x = target
  | _ => x = target

theorem Relativity.reaches_iff (r : Relativity) {address next : UInt64} {cells : Nat}
    (h : next.toNat = address.toNat + cells) {target x : Int} :
    r.Reaches address.toNat cells target x ↔ x = Label.relative r address next target := by
  cases r <;> simp only [Reaches, Label.relative] <;> omega

theorem Relativity.Reaches.unique {r : Relativity} {address cells target x y : Int}
    (hx : r.Reaches address cells target x) (hy : r.Reaches address cells target y) : x = y := by
  cases r <;> simp only [Reaches] at hx hy <;> omega

/-! ## Names of labels -/

/-- A label does not have the name of a constant. -/
theorem SourceState.of_checkLabels {m : Machine} {equs : Table Token} {ls : List Token}
    (h : checkLabels m equs ls = .ok ()) :
    ∀ l ∈ ls, equs.find? l.symbol = none ∧ ∀ g ∈ m.equs, g.name ≠ l.symbol := by
  induction ls with
  | nil => exact List.forall_mem_nil _
  | cons l rest ih =>
    unfold checkLabels at h
    split at h
    · cases h
    · rename_i hlocal
      split at h
      · cases h
      · rename_i hglobal
        refine List.forall_mem_cons.2 ⟨⟨?_, fun g hg => ?_⟩, ih h⟩
        · simpa [Table.contains] using hlocal
        · rw [Bool.not_eq_true, Option.isSome_eq_false_iff, Option.isNone_iff_eq_none,
            Machine.equ?, List.find?_eq_none] at hglobal
          simpa using hglobal g hg

namespace SourceEnv.Addressed

variable {env : SourceEnv} {name contents : Text} {start : UInt64} {s : SourceState}
  {cs : List Statement} {equs labels : Table Token}

/-- Constants leave the name of a label alone. -/
theorem find?_equs_of_label (h : env.Addressed name contents start s cs equs labels)
    {d : Statement} (hd : d ∈ s.statements) {l : Token} (hl : l ∈ d.labels) :
    equs.find? l.symbol = none := by
  obtain ⟨hwell, hsymbols⟩ := wellFormed_of_parse h.read
  simp only [SourceState.checkSymbols, bind_eq_ok] at hsymbols
  obtain ⟨_, hlabels, _⟩ := hsymbols
  have hmem : l ∈ s.labels := List.mem_flatMap.2 ⟨d, hd, hl⟩
  obtain ⟨hlocal, hglobal⟩ := SourceState.of_checkLabels hlabels l hmem
  have hmerge := Equ.find?_merge_eq_none_iff.2 ⟨hlocal, hglobal⟩
  obtain ⟨_, _, _, hnames⟩ := Equ.of_resolve hwell.statements hwell.equs h.constants
  rw [Table.find?_eq_none_iff, hnames, ← Table.find?_eq_none_iff]
  exact hmerge

theorem getElem?_replaced (h : env.Addressed name contents start s cs equs labels) {i : Nat}
    {c : Statement} (hc : s.statements[i]? = some c) : cs[i]? = some (Equ.replaceIn equs c) := by
  rw [h.replaced, List.getElem?_map, hc]
  rfl

/-- The table has the address of every label. -/
theorem find?_label (h : env.Addressed name contents start s cs equs labels) {spans : List Span}
    (hlayout : layout env.machine.cellSize start cs = .ok spans) {k : Nat} {d : Statement}
    {there : Span} (hd : s.statements[k]? = some d) (hthere : spans[k]? = some there) {l : Token}
    (hl : l ∈ d.labels) : labels.find? l.symbol = some (Label.mark there.address l) :=
  Label.find?_of_mem_labels h.labels hlayout (h.getElem?_replaced hd) hthere hl

/-- A name in the table is that of a label of the source. -/
theorem exists_label (h : env.Addressed name contents start s cs equs labels) {symbol : Text}
    {t : Token} (ht : labels.find? symbol = some t) :
    ∃ (k : Nat) (d : Statement) (l : Token),
      s.statements[k]? = some d ∧ l ∈ d.labels ∧ l.symbol = symbol := by
  rcases Label.exists_of_find?_assignFrom h.labels ht with hnone | ⟨k, d, l, hd, hl, heq⟩
  · rw [Table.find?_empty] at hnone
    cases hnone
  · rw [h.replaced, List.getElem?_map] at hd
    obtain ⟨c, hc, rfl⟩ := Option.map_eq_some_iff.1 hd
    exact ⟨k, c, l, hc, hl, heq⟩

/-- An operand that is looked up as a label is the name of a label of the source. -/
theorem exists_label_of_named? (h : env.Addressed name contents start s cs equs labels)
    {o t : Token} (ht : Label.named? labels (Equ.replace equs o) = some t) :
    o.kind = .identifier ∧ ∃ (k : Nat) (d : Statement) (l : Token),
      s.statements[k]? = some d ∧ l ∈ d.labels ∧ l.symbol = o.symbol := by
  obtain ⟨hwell, _⟩ := wellFormed_of_parse h.read
  obtain ⟨_, _, hnumeral, _⟩ := Equ.of_resolve hwell.statements hwell.equs h.constants
  unfold Label.named? at ht
  split at ht
  · rename_i hkind
    have hkept := Equ.replace_of_identifier hnumeral hkind
    rw [hkept] at hkind ht
    exact ⟨hkind, h.exists_label ht⟩
  · cases ht

end SourceEnv.Addressed

/-! ## From an operand to its field -/

theorem Statement.WellFormed.slot_of_operand {m : Machine} {c : Statement} (hc : c.WellFormed m)
    {spec : Instruction} (hspec : c.instruction = some spec) {j : Nat} {o : Token}
    (ho : c.operands[j]? = some o) : ∃ f pos, spec.operandSlots[j]? = some (f, pos) := by
  cases hc with
  | instruction _ _ _ hmost =>
    cases hspec
    have hlt := Nat.lt_of_lt_of_le (List.getElem?_eq_some_iff.1 ho).1 hmost
    exact ⟨_, _, List.getElem?_eq_getElem hlt⟩
  | data => cases hspec
  | ascii => cases hspec
  | cell => cases hspec

/-- Operand `j` of an instruction at the place `here` is written as `o`, replaced by
`o'`, which the block `b` keeps, and packed into its field `f` at position `pos`. -/
structure Statement.OperandPath (labels : Table Token) (spec : Instruction) (here : Span) (b : Block)
    (j : Nat) (o o' : Token) (f : Field) (pos : Nat) : Prop where
  slot : spec.operandSlots[j]? = some (f, pos)
  replaced : Label.replaceOperand spec labels here.address here.next f pos o = .ok o'
  kept : b.operands[j]? = some o'
  slice : spec.slice pos b.row = bitsOf f.bits.toNat o'.value
  decoded : f.decode (spec.slice pos b.row) = o'.value

theorem Statement.Trace.operandPath {m : Machine} (hm : m.Valid) {labels : Table Token}
    (hlabels : labels.All Token.IsNumeral) {c r : Statement} {here : Span} {b : Block}
    (hc : c.WellFormed m) (h : Trace m labels c r here b) {spec : Instruction}
    (hspec : c.instruction = some spec) {j : Nat} {o : Token} (ho : c.operands[j]? = some o) :
    ∃ o' f pos, OperandPath labels spec here b j o o' f pos := by
  have hr := formed_replaceNames hc h.place hlabels h.names
  have hrow := row_of_block hm hr (span_replaceNames hc h.place h.names) h.code
  have hnames := h.names
  cases hc with
  | @instruction _ _ _ operands hmem _ _ hmost =>
    cases hspec
    rw [Label.replaceNames_of_instruction rfl hmost] at hnames
    simp only [bind_eq_ok, pure_eq_ok] at hnames
    obtain ⟨replaced, hreplaced, rfl⟩ := hnames
    have hlt : j < spec.operandSlots.length :=
      Nat.lt_of_lt_of_le (List.getElem?_eq_some_iff.1 ho).1 hmost
    have hslot := List.getElem?_eq_getElem hlt
    have hzip := List.getElem?_zip_eq_some.2
      (⟨hslot, ho⟩ : spec.operandSlots[j]? = some (spec.operandSlots[j], o).1 ∧ _)
    obtain ⟨o', ho', hreplace⟩ := forall₂_getElem?_left (mapM_eq_ok.1 hreplaced) hzip
    obtain ⟨hslice, hdecoded⟩ := decode_of_block hm hmem rfl rfl hrow h.code hslot ho'
    obtain ⟨_, _, _, hb⟩ := Code.of_block hm h.code
    exact ⟨o', _, _, hslot, hreplace, hb ▸ ho', hslice, hdecoded⟩
  | data => cases hspec
  | ascii => cases hspec
  | cell => cases hspec

namespace SourceEnv.Assembled

variable {env : SourceEnv} {name contents : Text} {start : UInt64} {s : SourceState}
  {cs : List Statement} {spans : List Span} {p : Program}

/-- The block of a statement fills its place. -/
theorem block_of_span (hm : env.machine.Valid)
    (h : env.Assembled name contents start s cs spans p) {i : Nat} {here : Span}
    (hi : spans[i]? = some here) : ∃ b, p.blocks[i]? = some b ∧ b.address = here.address ∧
      b.cells.length = here.cells env.machine.cellSize ∧
      here.next.toNat = here.address.toNat + b.cells.length := by
  obtain ⟨b, hb, haddress, _, hcells⟩ := forall₂_getElem?_left (h.placed.forall₂_spans hm) hi
  have hexact := exact_of_layout hm h.addressed.wellFormed h.placed.before here
    (List.mem_of_getElem? hi)
  refine ⟨b, hb, haddress.symm, hcells.symm, ?_⟩
  rw [hexact.next_eq, hcells]

/-- Every statement of the source has a block. -/
theorem block_of_statement (h : env.Assembled name contents start s cs spans p) {k : Nat}
    {d : Statement} (hd : s.statements[k]? = some d) : ∃ b, p.blocks[k]? = some b := by
  obtain ⟨_, _, b, _, _, hb, _⟩ :=
    h.placed.trace_of_statement (h.addressed.getElem?_replaced hd)
  exact ⟨b, hb⟩

/-- Every operand of the source has a path to its field. -/
theorem operandPath (hm : env.machine.Valid) (h : env.Assembled name contents start s cs spans p)
    {i : Nat} {c : Statement} (hc : s.statements[i]? = some c) {spec : Instruction}
    (hspec : c.instruction = some spec) {j : Nat} {o : Token} (ho : c.operands[j]? = some o) :
    ∃ here b o' f pos, spans[i]? = some here ∧ p.blocks[i]? = some b ∧
      OperandPath p.labels spec here b j (Equ.replace p.equs o) o' f pos := by
  have hreplaced := h.addressed.getElem?_replaced hc
  obtain ⟨r, here, b, _, hhere, hb, htrace⟩ := h.placed.trace_of_statement hreplaced
  have hwell := h.addressed.wellFormed _ (List.mem_of_getElem? hreplaced)
  have hoperand : (Equ.replaceIn p.equs c).operands[j]? = some (Equ.replace p.equs o) := by
    rw [Equ.replaceIn, List.getElem?_map, ho]
    rfl
  obtain ⟨o', f, pos, hpath⟩ := htrace.operandPath hm h.addressed.isNumeral hwell hspec hoperand
  exact ⟨here, b, o', f, pos, hhere, hb, hpath⟩

/-- The field of an operand that names a label leads to the block of the label. -/
theorem reaches_label (hm : env.machine.Valid)
    (h : env.Assembled name contents start s cs spans p) {i k j : Nat} {here : Span}
    {b target : Block} (hhere : spans[i]? = some here) (hb : p.blocks[i]? = some b)
    (htarget : p.blocks[k]? = some target) {spec : Instruction} {o o' : Token} {f : Field}
    {pos : Nat} (hpath : OperandPath p.labels spec here b j (Equ.replace p.equs o) o' f pos)
    (hkind : o.kind = .identifier) {d : Statement} (hd : s.statements[k]? = some d) {l : Token}
    (hl : l ∈ d.labels) (hname : l.symbol = o.symbol) :
    f.relativity.Reaches b.address.toNat b.cells.length target.address.toNat
      (f.decode (spec.slice pos b.row)) := by
  obtain ⟨there, hthere, haddress⟩ := h.placed.span_of_block hm htarget
  obtain ⟨b', hb', hfirst, _, hnext⟩ := h.block_of_span hm hhere
  obtain rfl : b = b' := Option.some.inj (hb.symm.trans hb')
  have hfree := h.addressed.find?_equs_of_label (List.mem_of_getElem? hd) hl
  have hkept : Equ.replace p.equs o = o := Equ.replace_of_find?_eq_none (hname ▸ hfree)
  have hnamed : Label.named? p.labels o = some (Label.mark there.address l) := by
    rw [Label.named?, if_pos hkind, ← hname]
    exact h.addressed.find?_label h.placed.before hd hthere hl
  have hreplaced := hpath.replaced
  rw [hkept] at hreplaced
  rw [hpath.decoded, hfirst, f.relativity.reaches_iff hnext, ← haddress]
  rcases Label.of_replaceOperand hreplaced with ⟨l', v, hl', hv, rfl⟩ | ⟨hnone, _⟩ | ⟨hnone, _⟩
  · obtain rfl : Label.mark there.address l = l' := Option.some.inj (hnamed.symm.trans hl')
    rw [Label.mark, Text.toInt?_decimal] at hv
    obtain rfl := Option.some.inj hv
    rw [Token.value, Token.integer?_carrying_decimal]
    rfl
  · rw [hnamed] at hnone
    cases hnone
  · rw [hnamed] at hnone
    cases hnone

/-- An operand that names a label is packed into its field, and the field leads to
the block of the label. -/
theorem exists_reaches_label (hm : env.machine.Valid)
    (h : env.Assembled name contents start s cs spans p) {i j k : Nat} {c d : Statement}
    {spec : Instruction} {o l : Token} (hc : s.statements[i]? = some c)
    (hspec : c.instruction = some spec) (ho : c.operands[j]? = some o)
    (hkind : o.kind = .identifier) (hd : s.statements[k]? = some d) (hl : l ∈ d.labels)
    (hname : l.symbol = o.symbol) {f : Field} {pos : Nat}
    (hslot : spec.operandSlots[j]? = some (f, pos)) : ∃ b target,
      p.blocks[i]? = some b ∧ p.blocks[k]? = some target ∧
      (spec.slice pos b.row).length = f.bits.toNat ∧
      f.relativity.Reaches b.address.toNat b.cells.length target.address.toNat
        (f.decode (spec.slice pos b.row)) := by
  obtain ⟨here, b, o', f', pos', hhere, hb, hpath⟩ := h.operandPath hm hc hspec ho
  cases hslot.symm.trans hpath.slot
  obtain ⟨target, htarget⟩ := h.block_of_statement hd
  refine ⟨b, target, hb, htarget, ?_, ?_⟩
  · rw [hpath.slice, length_bitsOf]
  · exact h.reaches_label hm hhere hb htarget hpath hkind hd hl hname

end SourceEnv.Assembled

/-- The field of an operand that names a label leads to the block that the label
stands on. If no contents of the field do, the operand is rejected. -/
theorem Assembler.assembleSource_label_operand {a : Assembler} {m : Option Machine}
    (haccept : accept m = .ok a.machine) {library : Library} {name contents : Text}
    (start : UInt64) {s : SourceState}
    (hread : SourceEnv.parse ⟨a.machine, some library⟩ name contents = .ok s) {i j k : Nat}
    {c d : Statement} {spec : Instruction} {o l : Token} (hc : s.statements[i]? = some c)
    (hspec : c.instruction = some spec) (ho : c.operands[j]? = some o)
    (hkind : o.kind = .identifier) (hd : s.statements[k]? = some d) (hl : l ∈ d.labels)
    (hname : l.symbol = o.symbol) : ∃ f pos, spec.operandSlots[j]? = some (f, pos) ∧
      (∀ p, (a.assembleSource library name contents start).2.result = .ok p → ∃ b target,
        p.blocks[i]? = some b ∧ p.blocks[k]? = some target ∧
        f.relativity.Reaches b.address.toNat b.cells.length target.address.toNat
          (f.decode (spec.slice pos b.row))) ∧
      (∀ cs equs labels spans here there,
        Equ.resolve s.statements s.equs a.machine.equs = .ok (cs, equs) →
        Label.assign cs start a.machine.cellSize = .ok labels →
        layout a.machine.cellSize start cs = .ok spans →
        spans[i]? = some here → spans[k]? = some there →
        (∀ bits, bits.length = f.bits.toNat → ¬f.relativity.Reaches here.address.toNat
          (here.cells a.machine.cellSize) there.address.toNat (f.decode bits)) →
        ∃ e, (a.assembleSource library name contents start).2.result = .error (.diagnostic e) ∧
          e.cause.errorClass = .operand) := by
  have hm := valid_of_accept haccept
  have hwell := (SourceEnv.wellFormed_of_parse hread).1.statements c (List.mem_of_getElem? hc)
  obtain ⟨f, pos, hslot⟩ := hwell.slot_of_operand hspec ho
  refine ⟨f, pos, hslot, fun p hrun => ?_, ?_⟩
  · obtain ⟨s', cs, spans, h⟩ := assembled_of_assembleSource hrun
    obtain rfl : s = s' := Except.ok.inj (hread.symm.trans h.addressed.read)
    obtain ⟨b, target, hb, htarget, _, hreaches⟩ :=
      h.exists_reaches_label hm hc hspec ho hkind hd hl hname hslot
    exact ⟨b, target, hb, htarget, hreaches⟩
  · intro cs equs labels spans here there hresolve hassign hlayout hhere hthere hnone
    have haddressed : SourceEnv.Addressed ⟨a.machine, some library⟩ name contents start s cs equs
        labels := ⟨hread, hresolve, hassign⟩
    rw [assembleSource_snd]
    cases hresult : (SourceEnv.assemble ⟨a.machine, some library⟩ name contents start).result with
    | error e =>
      obtain ⟨d, rfl, hclass⟩ := haddressed.result_rejects hm e hresult
      exact ⟨d, rfl, hclass⟩
    | ok p =>
      -- The field of a program would lead to the label.
      have h := haddressed.assembled hlayout hresult
      obtain ⟨b, target, hb, htarget, hlength, hreaches⟩ :=
        h.exists_reaches_label hm hc hspec ho hkind hd hl hname hslot
      obtain ⟨b', hb', haddress, hcells, _⟩ := h.block_of_span hm hhere
      obtain rfl : b = b' := Option.some.inj (hb.symm.trans hb')
      obtain ⟨t', ht', htargetAddress, _⟩ := h.block_of_span hm hthere
      obtain rfl : target = t' := Option.some.inj (htarget.symm.trans ht')
      rw [haddress, hcells, htargetAddress] at hreaches
      exact absurd hreaches (hnone _ hlength)

/-- The jump leads to its label from address 150, and is rejected at address 5. -/
theorem Sample.label_operand :
    (∃ p b target, (assembler.assembleSource library "sample" farSource 150).2.result = .ok p ∧
      p.blocks[0]? = some b ∧ p.blocks[2]? = some target ∧
      distance.relativity.Reaches b.address.toNat b.cells.length target.address.toNat
        (distance.decode (jump.slice 1 b.row))) ∧
    ∃ e, (assembler.assembleSource library "sample" farSource 5).2.result = .error (.diagnostic e) ∧
      e.cause.errorClass = .operand := by
  have hread : SourceEnv.parse ⟨assembler.machine, some library⟩ "sample" farSource =
      .ok (read farSource) := parse_eq_read (by decide +kernel)
  let c := (read farSource).statements.getD 0 {}
  let d := (read farSource).statements.getD 2 {}
  have hfacts : (read farSource).statements[0]? = some c ∧ c.instruction = some jump ∧
      c.operands[0]? = some (c.operands.getD 0 {}) ∧ (c.operands.getD 0 {}).kind = .identifier ∧
      (read farSource).statements[2]? = some d ∧ d.labels.getD 0 {} ∈ d.labels ∧
      (d.labels.getD 0 {}).symbol = (c.operands.getD 0 {}).symbol := by decide +kernel
  obtain ⟨hc, hspec, ho, hkind, hd, hl, hname⟩ := hfacts
  have hslot : jump.operandSlots[0]? = some (distance, 1) := by decide
  refine ⟨?_, ?_⟩
  · obtain ⟨f, pos, hslot', hleads, _⟩ :=
      Assembler.assembleSource_label_operand accepted 150 hread hc hspec ho hkind hd hl hname
    cases hslot.symm.trans hslot'
    have hplain : (plainAssemble? assembler.machine "sample" farSource 150).isSome := by
      decide +kernel
    obtain ⟨p, hp⟩ := Option.isSome_iff_exists.1 hplain
    have hrun := Assembler.assembleSource_of_plainAssemble? library hp
    obtain ⟨b, target, h⟩ := hleads p hrun
    exact ⟨p, b, target, hrun, h⟩
  · obtain ⟨f, pos, hslot', _, hrejected⟩ :=
      Assembler.assembleSource_label_operand accepted 5 hread hc hspec ho hkind hd hl hname
    cases hslot.symm.trans hslot'
    have hplaces : ((Equ.resolve (read farSource).statements (read farSource).equs
        assembler.machine.equs).toOption.map fun r =>
          ((Label.assign r.1 5 assembler.machine.cellSize).toOption.isSome,
            (layout assembler.machine.cellSize 5 r.1).toOption)) =
        some (true, some [⟨5, 16, 7⟩, ⟨7, 1544, 200⟩, ⟨200, 16, 202⟩]) := by decide +kernel
    obtain ⟨⟨cs, equs⟩, hresolve, hpair⟩ := Option.map_eq_some_iff.1 hplaces
    obtain ⟨hassign, hlayout⟩ := Prod.mk.inj hpair
    obtain ⟨labels, hassign⟩ := Option.isSome_iff_exists.1 hassign
    refine hrejected cs equs labels _ _ _ (toOption_eq_some.1 hresolve) (toOption_eq_some.1 hassign)
      (toOption_eq_some.1 hlayout) rfl rfl ?_
    intro bits hbits hreaches
    -- The distance is 195, and the field holds at most 127.
    have hholds := Field.holds_decode hbits
    change 5 + distance.decode bits = 200 at hreaches
    have hvalue : distance.decode bits = 195 := by omega
    rw [hvalue] at hholds
    exact absurd hholds (by decide)

/-! ## Numbers -/

/-- A number that the source has for a field without named values is an operand of the
block as it is written, whatever constants and labels there are, and the field holds it. What the
field counts from makes no difference. -/
theorem Assembler.assembleSource_literal_operand {a : Assembler} {m : Option Machine}
    (haccept : accept m = .ok a.machine) {library : Library} {name contents : Text}
    {start : UInt64} {s : SourceState} {p : Program}
    (hread : SourceEnv.parse ⟨a.machine, some library⟩ name contents = .ok s)
    (hrun : (a.assembleSource library name contents start).2.result = .ok p) {i j pos : Nat}
    {c : Statement} {spec : Instruction} {o : Token} {f : Field} (hc : s.statements[i]? = some c)
    (hspec : c.instruction = some spec) (ho : c.operands[j]? = some o) (hkind : o.kind = .constant)
    (hslot : spec.operandSlots[j]? = some (f, pos)) (hfree : f.restricted = false) :
    ∃ b v, p.blocks[i]? = some b ∧ b.operands[j]? = some o ∧ o.integer? = some v ∧
      f.decode (spec.slice pos b.row) = v := by
  have hm := valid_of_accept haccept
  obtain ⟨s', cs, spans, h⟩ := assembled_of_assembleSource hrun
  obtain rfl : s = s' := Except.ok.inj (hread.symm.trans h.addressed.read)
  obtain ⟨here, b, o', f', pos', _, hb, hpath⟩ := h.operandPath hm hc hspec ho
  cases hslot.symm.trans hpath.slot
  have hkept : Equ.replace p.equs o = o := Equ.replace_of_kind_ne (by rw [hkind]; decide)
  have hreplaced := hpath.replaced
  rw [hkept, Label.replaceOperand_literal hfree hkind] at hreplaced
  cases hreplaced
  have hoperand : o.IsOperand := by
    have hwell := (SourceEnv.wellFormed_of_parse hread).1.statements c (List.mem_of_getElem? hc)
    cases hwell with
    | instruction _ hoperands => exact hoperands o (List.mem_of_getElem? ho)
    | data => cases hspec
    | ascii => cases hspec
    | cell => cases hspec
  have hnumber := hoperand.isNumber (by rw [hkind]; decide)
  exact ⟨b, _, hb, hpath.kept, hnumber.integer?_eq, hpath.decoded⟩

/-! ## Fields with named values -/

/-- A field with named values holds one of them exactly if every label that is
written for it lies, counted as the field asks for, at one of them. For a label
nothing else is checked. -/
theorem Assembler.assembleSource_restricted_iff {a : Assembler} {m : Option Machine}
    (haccept : accept m = .ok a.machine) {library : Library} {name contents : Text}
    {start : UInt64} {s : SourceState} {p : Program}
    (hread : SourceEnv.parse ⟨a.machine, some library⟩ name contents = .ok s)
    (hrun : (a.assembleSource library name contents start).2.result = .ok p) {i j pos : Nat}
    {c : Statement} {spec : Instruction} {o : Token} {f : Field} {b : Block}
    (hc : s.statements[i]? = some c) (hspec : c.instruction = some spec)
    (ho : c.operands[j]? = some o) (hslot : spec.operandSlots[j]? = some (f, pos))
    (hb : p.blocks[i]? = some b) (hrestricted : f.restricted) :
    (∃ v ∈ f.values, f.decode (spec.slice pos b.row) = v.value) ↔
      ∀ (k : Nat) (d : Statement) (l : Token) (target : Block), o.kind = .identifier →
        s.statements[k]? = some d → l ∈ d.labels → l.symbol = o.symbol →
        p.blocks[k]? = some target → ∃ v ∈ f.values, f.relativity.Reaches b.address.toNat
          b.cells.length target.address.toNat v.value := by
  have hm := valid_of_accept haccept
  obtain ⟨s', cs, spans, h⟩ := assembled_of_assembleSource hrun
  obtain rfl : s = s' := Except.ok.inj (hread.symm.trans h.addressed.read)
  obtain ⟨here, b', o', f', pos', hhere, hb', hpath⟩ := h.operandPath hm hc hspec ho
  obtain rfl : b = b' := Option.some.inj (hb.symm.trans hb')
  cases hslot.symm.trans hpath.slot
  constructor
  · rintro ⟨v, hv, hx⟩ k d l target hkind hd hl hname htarget
    refine ⟨v, hv, ?_⟩
    rw [← hx]
    exact h.reaches_label hm hhere hb htarget hpath hkind hd hl hname
  · intro hlabels
    rcases Label.of_replaceOperand hpath.replaced with
      ⟨t, _, hnamed, _⟩ | ⟨_, v, hv, heq⟩ | ⟨_, hfree, _⟩
    · -- A label: the field holds the only number that leads to it.
      obtain ⟨hkind, k, d, l, hd, hl, hname⟩ := h.addressed.exists_label_of_named? hnamed
      obtain ⟨target, htarget⟩ := h.block_of_statement hd
      obtain ⟨v, hv, hvreaches⟩ := hlabels k d l target hkind hd hl hname htarget
      have hreaches := h.reaches_label hm hhere hb htarget hpath hkind hd hl hname
      exact ⟨v, hv, hreaches.unique hvreaches⟩
    · refine ⟨v, hv, ?_⟩
      rw [hpath.decoded, heq, Token.value, Token.integer?_carrying_decimal]
      rfl
    · rw [hrestricted] at hfree
      cases hfree

/-- A label written for the register of the sample: the field holds its address 5,
which is no register. -/
theorem Sample.restricted_stray : ∃ p b,
    (assembler.assembleSource library "sample" straySource 5).2.result = .ok p ∧
    p.blocks[0]? = some b ∧ b.cells = [2, 5] ∧ register.restricted ∧
    ¬∃ v ∈ register.values, register.decode (select.slice 1 b.row) = v.value := by
  have hread : SourceEnv.parse ⟨assembler.machine, some library⟩ "sample" straySource =
      .ok (read straySource) := parse_eq_read (by decide +kernel)
  let c := (read straySource).statements.getD 0 {}
  have hfacts : (read straySource).statements[0]? = some c ∧ c.instruction = some select ∧
      c.operands[0]? = some (c.operands.getD 0 {}) ∧ (c.operands.getD 0 {}).kind = .identifier ∧
      c.labels.getD 0 {} ∈ c.labels ∧
      (c.labels.getD 0 {}).symbol = (c.operands.getD 0 {}).symbol := by decide +kernel
  obtain ⟨hc, hspec, ho, hkind, hl, hname⟩ := hfacts
  have hplain : (plainAssemble? assembler.machine "sample" straySource 5).map
      (fun p => p.blocks.map fun b => (b.address, b.cells)) = some [(5, [2, 5])] := by decide +kernel
  obtain ⟨p, hp, hblocks⟩ := Option.map_eq_some_iff.1 hplain
  have hrun := Assembler.assembleSource_of_plainAssemble? library hp
  obtain ⟨b, hsingle, hpair⟩ := List.map_eq_singleton_iff.1 hblocks
  obtain ⟨haddress, hcells⟩ := Prod.mk.inj hpair
  have hb : p.blocks[0]? = some b := by
    rw [hsingle]
    rfl
  refine ⟨p, b, hrun, hb, hcells, by decide, fun hmem => ?_⟩
  have hslot : select.operandSlots[0]? = some (register, 1) := by decide
  obtain ⟨v, hv, hreaches⟩ := (Assembler.assembleSource_restricted_iff accepted hread hrun hc hspec
    ho hslot hb (by decide)).1 hmem 0 c _ b hkind hc hl hname hb
  have hvalue : v.value = 5 := by
    rw [haddress] at hreaches
    exact hreaches
  have hnone : ∀ v ∈ register.values, v.value ≠ 5 := by decide
  exact hnone v hv hvalue

end CellAsm
