-- SUMMARY: After names are checked, only a constant or a number can be rejected.
import CellAsm.Proofs.Operands

/-!
# Checked names

When all lines are read, every name among the operands is checked. From then on no
name can be missing: what is still a name after constants are replaced is a label
or a value of its field. So replacing names rejects nothing but a constant that is
written for a field with named values and is none of them, and packing rejects
nothing but a number that does not fit.
-/
namespace CellAsm

open Statement

/-! ## What the check finds out -/

namespace SourceState

theorem of_checkNames {known : Text → Bool} {slots : List (Field × Nat)} {operands : List Token}
    (h : checkNames known slots operands = .ok ()) {j : Nat} {o : Token}
    (ho : operands[j]? = some o) (hkind : o.kind = .identifier) :
    known o.symbol ∨ ∃ f pos, slots[j]? = some (f, pos) ∧ (f.lookup o.contents).isSome := by
  induction operands generalizing slots j with
  | nil => cases ho
  | cons o' rest ih =>
    cases slots with
    | nil =>
      unfold checkNames at h
      split at h
      · rename_i hknown
        cases j with
        | zero =>
          cases ho
          exact .inl (hknown.resolve_left (not_not.2 hkind))
        | succ j =>
          rcases ih h ho with hknown | ⟨_, _, hslot, _⟩
          · exact .inl hknown
          · cases hslot
      · cases h
    | cons slot slots =>
      unfold checkNames at h
      split at h
      · rename_i hknown
        cases j with
        | zero =>
          cases ho
          rcases hknown.resolve_left (not_not.2 hkind) with hknown | hlookup
          · exact .inl hknown
          · exact .inr ⟨_, _, rfl, hlookup⟩
        | succ j => exact ih h ho
      · cases h

theorem of_checkStatements {known : Text → Bool} {labels : List Text} {cs : List Statement}
    (h : checkStatements known labels cs = .ok ()) : ∀ c ∈ cs,
      checkNames known ((c.instruction.map Instruction.operandSlots).getD []) c.operands = .ok () := by
  induction cs with
  | nil => exact List.forall_mem_nil _
  | cons c rest ih =>
    simp only [checkStatements_cons, bind_eq_ok] at h
    obtain ⟨_, hnames, _, _, hrest⟩ := h
    exact List.forall_mem_cons.2 ⟨hnames, ih hrest⟩

end SourceState

namespace SourceEnv.Addressed

variable {env : SourceEnv} {name contents : Text} {start : UInt64} {s : SourceState}
  {cs rs : List Statement} {equs labels : Table Token} {spans : List Span} {e : Failure}

/-- A name among the operands is that of a label, of a constant or of a value of its
field. -/
theorem name_known (h : env.Addressed name contents start s cs equs labels) {c : Statement}
    (hc : c ∈ s.statements) {j : Nat} {o : Token} (ho : c.operands[j]? = some o)
    (hkind : o.kind = .identifier) :
    (labels.find? o.symbol).isSome ∨ (equs.find? o.symbol).isSome ∨
      ∃ spec f pos, c.Writes j spec o f pos ∧ (f.lookup o.contents).isSome := by
  obtain ⟨hwell, hsymbols⟩ := wellFormed_of_parse h.read
  simp only [SourceState.checkSymbols, bind_eq_ok] at hsymbols
  obtain ⟨_, _, _, hstatements, _⟩ := hsymbols
  obtain ⟨_, _, _, hnames⟩ := Equ.of_resolve hwell.statements hwell.equs h.constants
  rcases SourceState.of_checkNames (SourceState.of_checkStatements hstatements c hc) ho hkind with
    hknown | ⟨f, pos, hslot, hlookup⟩
  · simp only [Bool.or_eq_true, or_assoc] at hknown
    rcases hknown with hlabel | hequ
    · left
      obtain ⟨l, hl, hsymbol⟩ := List.mem_map.1 (List.contains_iff_mem.1 hlabel)
      obtain ⟨d, hd, hl⟩ := List.mem_flatMap.1 hl
      obtain ⟨k, hk⟩ := List.mem_iff_getElem?.1 hd
      obtain ⟨spans, hlayout⟩ := h.exists_layout
      obtain ⟨there, hthere, _⟩ :=
        forall₂_getElem?_left (forall₂_of_layout hlayout) (h.getElem?_replaced hk)
      rw [← hsymbol, h.find?_label hlayout hk hthere hl]
      rfl
    · right
      left
      rw [Option.isSome_iff_ne_none, ne_eq, Table.find?_eq_none_iff, hnames,
        ← Table.find?_eq_none_iff, Equ.find?_merge_eq_none_iff]
      rintro ⟨hlocal, hglobal⟩
      rcases hequ with hequ | hequ
      · rw [Table.contains, hlocal] at hequ
        cases hequ
      · obtain ⟨g, hg⟩ := Option.isSome_iff_exists.1 hequ
        have hsame : g.name = o.symbol := by simpa using List.find?_some hg
        exact hglobal g (List.mem_of_find?_eq_some hg) hsame
  · right
    right
    cases hspec : c.instruction with
    | none =>
      rw [hspec] at hslot
      cases hslot
    | some spec =>
      rw [hspec] at hslot
      exact ⟨spec, f, pos, ⟨hspec, hslot, ho⟩, hlookup⟩

/-- A name that is left when constants are replaced is that of a label or of a value
of its field. -/
theorem name_left (h : env.Addressed name contents start s cs equs labels) {c : Statement}
    (hc : c ∈ s.statements) {j : Nat} {o : Token}
    (ho : (Equ.replaceIn equs c).operands[j]? = some o) (hkind : o.kind = .identifier) :
    (labels.find? o.symbol).isSome ∨
      ∃ spec f pos, (Equ.replaceIn equs c).Writes j spec o f pos ∧ (f.lookup o.contents).isSome := by
  obtain ⟨hwell, _⟩ := wellFormed_of_parse h.read
  obtain ⟨_, _, hnumeral, _⟩ := Equ.of_resolve hwell.statements hwell.equs h.constants
  have hoperand := ho
  rw [Equ.replaceIn, List.getElem?_map] at ho
  obtain ⟨source, hsource, rfl⟩ := Option.map_eq_some_iff.1 ho
  have hkept := Equ.replace_of_identifier hnumeral hkind
  rw [hkept] at hkind hoperand ⊢
  rcases h.name_known hc hsource hkind with hlabel | hequ | ⟨spec, f, pos, hwrites, hlookup⟩
  · exact .inl hlabel
  · -- The name of a constant would not be left.
    obtain ⟨v, hv⟩ := Option.isSome_iff_exists.1 hequ
    have hnumber : (Equ.replace equs source).kind = v.kind := by
      rw [Equ.replace, if_pos hkind, hv]
      rfl
    rw [hkept, hkind, (hnumeral.find? hv).1] at hnumber
    cases hnumber
  · exact .inr ⟨spec, f, pos, ⟨hwrites.instruction, hwrites.slot, hoperand⟩, hlookup⟩

end SourceEnv.Addressed

/-! ## Constants that are no value of their field -/

/-- A constant of the source, or the name of one, is written for a field with named
values, and none of them is named like its number. -/
def Statement.Unlisted (equs : Table Token) (c : Statement) (e : Failure) : Prop :=
  ∃ j spec o f pos, c.Writes j spec o f pos ∧
    (o.kind = .constant ∨ o.kind = .identifier ∧ (equs.find? o.symbol).isSome) ∧
    f.restricted ∧ f.lookup (Equ.replace equs o).contents.trim = none ∧
    e = .blame (Equ.replace equs o) (.valueNotAllowed (Equ.replace equs o).contents
      (Instruction.fieldLabel f pos) spec.name)

theorem Field.lookup_eq_none_of_free {f : Field} (h : f.restricted = false) (name : Text) :
    f.lookup name = none := by
  have hempty : f.values = [] := by simpa [restricted] using h
  rw [lookup, hempty, List.find?_nil]

theorem Statement.Writes.of_replaceIn {equs : Table Token} {c : Statement} {j : Nat}
    {spec : Instruction} {o' : Token} {f : Field} {pos : Nat}
    (h : (Equ.replaceIn equs c).Writes j spec o' f pos) :
    ∃ o, c.Writes j spec o f pos ∧ Equ.replace equs o = o' := by
  have hoperand := h.operand
  rw [Equ.replaceIn, List.getElem?_map] at hoperand
  obtain ⟨o, ho, rfl⟩ := Option.map_eq_some_iff.1 hoperand
  exact ⟨o, ⟨h.instruction, h.slot, ho⟩, rfl⟩

/-- A number among the operands is a constant of the source or the name of one. -/
theorem Equ.of_replace_kind {equs : Table Token} {o : Token}
    (h : (replace equs o).kind = .constant) :
    o.kind = .constant ∨ o.kind = .identifier ∧ (equs.find? o.symbol).isSome := by
  unfold replace at h
  split at h
  · rename_i hkind
    split at h
    · rename_i v hv
      exact .inr ⟨hkind, by rw [hv]; rfl⟩
    · exact .inl h
  · exact .inl h

theorem Equ.kind_replace {equs : Table Token} (hequs : equs.All Token.IsNumeral) {o : Token}
    (h : o.kind = .constant ∨ o.kind = .identifier ∧ (equs.find? o.symbol).isSome) :
    (replace equs o).kind = .constant := by
  rcases h with hkind | ⟨hkind, hsome⟩
  · rw [replace_of_kind_ne (by rw [hkind]; decide), hkind]
  · obtain ⟨v, hv⟩ := Option.isSome_iff_exists.1 hsome
    rw [replace, if_pos hkind, hv]
    exact (hequs.find? hv).1

theorem Statement.Formed.numbers_or_string {m : Machine} {r : Statement}
    (h : r.Formed m Token.IsNumber) : (∀ o ∈ r.operands, o.IsNumber) ∨
      r.action = .ascii ∧ ∃ o, r.operands = [o] ∧ o.kind = .string := by
  cases h with
  | instruction _ hoperands => exact .inl hoperands
  | data hoperands => exact .inl hoperands
  | ascii hstring => exact .inr ⟨rfl, _, rfl, hstring⟩
  | cell _ hoperand => exact .inl (List.forall_mem_singleton.2 hoperand)

namespace SourceEnv.Addressed

variable {env : SourceEnv} {name contents : Text} {start : UInt64} {s : SourceState}
  {cs rs : List Statement} {equs labels : Table Token} {spans : List Span} {e : Failure}

/-- Only a constant that is no value of its field is rejected. -/
theorem unlisted_of_unresolved (h : env.Addressed name contents start s cs equs labels)
    {c : Statement} (hc : c ∈ s.statements) (he : (Equ.replaceIn equs c).Unresolved labels e) :
    c.Unlisted equs e := by
  have hmem : Equ.replaceIn equs c ∈ cs := by
    rw [h.replaced]
    exact List.mem_map_of_mem hc
  cases he with
  | undefined hoperand hkind hlabel hfree =>
    rcases h.name_left hc hoperand hkind with hfound | ⟨spec, f, pos, hwrites, hlookup⟩
    · rw [hlabel] at hfound
      cases hfound
    · rw [Field.lookup_eq_none_of_free (hfree hwrites)] at hlookup
      cases hlookup
  | unlisted hwrites hlabel hrestricted hlookup =>
    obtain ⟨o, hsource, rfl⟩ := hwrites.of_replaceIn
    refine ⟨_, _, o, _, _, hsource, Equ.of_replace_kind ?_, hrestricted, hlookup, rfl⟩
    rcases ((h.wellFormed _ hmem).operand_of_writes hwrites).2 with ⟨hkind, htrim⟩ | hnumber
    · -- A name would be a label or a value of the field.
      rcases h.name_left hc hwrites.operand hkind with hfound | ⟨spec', f', pos', hwrites', hfound⟩
      · rw [Label.named?, if_pos hkind] at hlabel
        rw [hlabel] at hfound
        cases hfound
      · cases hwrites.instruction.symm.trans hwrites'.instruction
        cases hwrites.slot.symm.trans hwrites'.slot
        rw [htrim] at hlookup
        rw [hlookup] at hfound
        cases hfound
    · exact hnumber.1

/-- A program whose names could be replaced has no such constant. -/
theorem not_unlisted_of_replace (h : env.Addressed name contents start s cs equs labels)
    (hlayout : layout env.machine.cellSize start cs = .ok spans)
    (hrs : (cs.zip spans).mapM (fun (c, s) => Label.replaceNames labels s.address s.next c) =
      .ok rs) {c : Statement} (hc : c ∈ s.statements) (e : Failure) : ¬c.Unlisted equs e := by
  rintro ⟨j, spec, o, f, pos, hwrites, hsource, hrestricted, hlookup, -⟩
  obtain ⟨hwell, _⟩ := wellFormed_of_parse h.read
  obtain ⟨_, _, hnumeral, _⟩ := Equ.of_resolve hwell.statements hwell.equs h.constants
  obtain ⟨i, hi⟩ := List.mem_iff_getElem?.1 hc
  have hi := h.getElem?_replaced hi
  obtain ⟨here, hhere, _⟩ := forall₂_getElem?_left (forall₂_of_layout hlayout) hi
  have hzip := List.getElem?_zip_eq_some.2
    (⟨hi, hhere⟩ : cs[i]? = some (Equ.replaceIn equs c, here).1 ∧ _)
  obtain ⟨r, _, hr⟩ := forall₂_getElem?_left (mapM_eq_ok.1 hrs) hzip
  have hoperand : (Equ.replaceIn equs c).operands[j]? = some (Equ.replace equs o) := by
    rw [Equ.replaceIn, List.getElem?_map, hwrites.operand]
    rfl
  have hlabel : Label.named? labels (Equ.replace equs o) = none := by
    rw [Label.named?, if_neg]
    rw [Equ.kind_replace hnumeral hsource]
    decide
  exact Label.replaceNames_ne_ok_of_unlisted (h.wellFormed _ (List.mem_of_getElem? hi))
    ⟨hwrites.instruction, hwrites.slot, hoperand⟩ hlabel hrestricted hlookup hr

/-- An operand that is neither a label nor free is one of the values of its field. -/
theorem value_of_replace (hm : env.machine.Valid)
    (h : env.Addressed name contents start s cs equs labels)
    (hrs : (cs.zip spans).mapM (fun (c, s) => Label.replaceNames labels s.address s.next c) =
      .ok rs) {i j : Nat} {c r : Statement} {spec : Instruction} {o o' : Token} {f : Field}
    {pos : Nat} (hc : cs[i]? = some c) (hr : rs[i]? = some r) (hwrites : c.Writes j spec o f pos)
    (ho' : r.operands[j]? = some o') (hrestricted : f.restricted)
    (hlabel : Label.named? labels o = none) : ∃ v ∈ f.values,
      v.name = o.contents.trim ∧ o'.value = v.value ∧ f.holds o'.value := by
  obtain ⟨⟨c', here⟩, hci, hnames⟩ := forall₂_getElem?_right (mapM_eq_ok.1 hrs) hr
  obtain ⟨hc', _⟩ := List.getElem?_zip_eq_some.1 hci
  obtain rfl : c = c' := Option.some.inj (hc.symm.trans hc')
  have hwell := h.wellFormed c (List.mem_of_getElem? hc)
  obtain ⟨replaced, hreplaced, hoperand⟩ := Label.operand_of_replaceNames hwell hwrites hnames
  obtain rfl : o' = replaced := Option.some.inj (ho'.symm.trans hoperand)
  simp only [Label.replaceOperand, hlabel, hrestricted, if_true] at hreplaced
  split at hreplaced
  · rename_i v hv
    cases hreplaced
    have hmem := List.mem_of_find?_eq_some hv
    have hvalue : (o.carrying .constant (Text.decimal v.value)).value = v.value := by
      rw [Token.value, Token.integer?_carrying_decimal]
      rfl
    refine ⟨v, hmem, by simpa using List.find?_some hv, hvalue, ?_⟩
    rw [hvalue]
    obtain ⟨_, fs, hvalid⟩ := hm.instructions spec (hwell.operand_of_writes hwrites).1
    have hslot := List.mem_of_getElem? hwrites.slot
    rw [Code.operandSlots_eq hvalid] at hslot
    exact hvalid.values f (List.fst_mem_of_mem_zipIdx (List.mem_of_mem_filter hslot)) v hmem
  · cases hreplaced

/-- Once names are checked and labels have addresses, names are replaced unless a
constant is no value of its field. Then all operands are numbers or strings, the
values of fields fit them, and code is generated unless some other number does not
fit. -/
theorem checked_passes {m : Option Machine} (haccept : Assembler.accept m = .ok env.machine)
    (h : env.Addressed name contents start s cs equs labels) :
    (∀ e, Label.replace cs labels start env.machine.cellSize = .error e →
      ∃ c ∈ s.statements, c.Unlisted equs e) ∧
    ∀ rs, Label.replace cs labels start env.machine.cellSize = .ok rs →
      (∀ c ∈ s.statements, ∀ e, ¬c.Unlisted equs e) ∧
      (∀ r ∈ rs, (∀ o ∈ r.operands, o.IsNumber) ∨
        r.action = .ascii ∧ ∃ o, r.operands = [o] ∧ o.kind = .string) ∧
      (∀ (i j : Nat) (c r : Statement) (spec : Instruction) (o o' : Token) (f : Field) (pos : Nat),
        cs[i]? = some c → rs[i]? = some r → c.Writes j spec o f pos → r.operands[j]? = some o' →
        f.restricted → Label.named? labels o = none →
        ∃ v ∈ f.values, v.name = o.contents.trim ∧ o'.value = v.value ∧ f.holds o'.value) ∧
      (∀ e, Code.generate rs start env.machine.cellSize = .error e → ∃ r ∈ rs, r.TooWide e) ∧
      ∀ blocks, Code.generate rs start env.machine.cellSize = .ok blocks →
        ∀ r ∈ rs, ∀ e, ¬r.TooWide e := by
  have hm := Assembler.valid_of_accept haccept
  obtain ⟨spans, hlayout⟩ := h.exists_layout
  simp only [Label.replace, Label.replaceFrom_eq labels hlayout]
  refine ⟨fun e he => ?_, fun rs hrs => ?_⟩
  · obtain ⟨i, c, here, hc, _, _, hunresolved⟩ := h.unresolved_of_replace hlayout he
    rw [h.replaced, List.getElem?_map] at hc
    obtain ⟨source, hsource, rfl⟩ := Option.map_eq_some_iff.1 hc
    have hmem := List.mem_of_getElem? hsource
    exact ⟨source, hmem, h.unlisted_of_unresolved hmem hunresolved⟩
  · have hafter := layout_replaceNames h.wellFormed hlayout hrs
    have hplaces := forall₂_of_layout hafter
    simp only [Code.generate, Code.generateFrom_eq hafter]
    refine ⟨fun c hc => h.not_unlisted_of_replace hlayout hrs hc, fun r hr => ?_, ?_,
      fun e he => h.tooWide_of_generate hm hlayout hrs he, fun blocks hblocks r hr e => ?_⟩
    · obtain ⟨i, hi⟩ := List.mem_iff_getElem?.1 hr
      obtain ⟨here, hhere, _⟩ := forall₂_getElem?_left hplaces hi
      exact (h.formed_of_replace hlayout hrs hi hhere).1.numbers_or_string
    · intro i j c r spec o o' f pos hc hr hwrites ho' hrestricted hlabel
      exact h.value_of_replace hm hrs hc hr hwrites ho' hrestricted hlabel
    · obtain ⟨i, hi⟩ := List.mem_iff_getElem?.1 hr
      obtain ⟨here, hhere, hplace⟩ := forall₂_getElem?_left hplaces hi
      have hzip := List.getElem?_zip_eq_some.2 (⟨hi, hhere⟩ : rs[i]? = some (r, here).1 ∧ _)
      obtain ⟨b, _, hb⟩ := forall₂_getElem?_left (mapM_eq_ok.1 hblocks) hzip
      obtain ⟨packed, hpacked, _⟩ := Code.of_block hm hb
      exact Code.not_tooWide_of_pack hm (h.formed_of_replace hlayout hrs hi hhere).1 hpacked e

end SourceEnv.Addressed

namespace Sample

/-- A number where a register is expected. -/
def literalSource : Text := "one EQU 1\n sel one\n"

/-- The statements, constants and labels of a plain source once it has addresses. -/
def addressed? (contents : Text) (start : UInt64) :
    Option (List Statement × Table Token × Table Token) := do
  let (cs, equs) ← (Equ.resolve (read contents).statements (read contents).equs
    assembler.machine.equs).toOption
  let labels ← (Label.assign cs start assembler.machine.cellSize).toOption
  return (cs, equs, labels)

theorem addressed_of_addressed? {contents : Text} {start : UInt64} {cs : List Statement}
    {equs labels : Table Token}
    (hread : (SourceState.plainParse? assembler.machine "sample" contents).isSome)
    (h : addressed? contents start = some (cs, equs, labels)) :
    SourceEnv.Addressed ⟨assembler.machine, some library⟩ "sample" contents start (read contents) cs
      equs labels := by
  simp only [addressed?, Option.bind_eq_bind, Option.bind_eq_some_iff, Option.pure_def,
    Option.some.injEq, Prod.mk.injEq] at h
  obtain ⟨⟨cs', equs'⟩, hresolve, labels', hassign, rfl, rfl, rfl⟩ := h
  exact ⟨parse_eq_read hread, toOption_eq_some.1 hresolve, toOption_eq_some.1 hassign⟩

/-- The number is no register, and from address 5 the jump is too far. -/
theorem checked_rejections :
    (∃ s cs equs labels e, SourceEnv.Addressed ⟨assembler.machine, some library⟩ "sample"
        literalSource 0 s cs equs labels ∧
      Label.replace cs labels 0 assembler.machine.cellSize = .error e ∧
      ∃ c ∈ s.statements, c.Unlisted equs e) ∧
    ∃ s cs equs labels rs e, SourceEnv.Addressed ⟨assembler.machine, some library⟩ "sample"
        farSource 5 s cs equs labels ∧
      Label.replace cs labels 5 assembler.machine.cellSize = .ok rs ∧
      Code.generate rs 5 assembler.machine.cellSize = .error e ∧ ∃ r ∈ rs, r.TooWide e := by
  refine ⟨?_, ?_⟩
  · have hstages : ((addressed? literalSource 0).map fun (cs, _, labels) =>
        (Label.replace cs labels 0 assembler.machine.cellSize).toOption.isSome) = some false := by
      decide +kernel
    obtain ⟨⟨cs, equs, labels⟩, hstages, hreplace⟩ := Option.map_eq_some_iff.1 hstages
    have h := addressed_of_addressed? (by decide +kernel) hstages
    cases he : Label.replace cs labels 0 assembler.machine.cellSize with
    | ok rs =>
      simp only [he] at hreplace
      cases hreplace
    | error e =>
      exact ⟨_, cs, equs, labels, e, h, he,
        (SourceEnv.Addressed.checked_passes accepted h).1 e he⟩
  · have hstages : ((addressed? farSource 5).bind fun (cs, _, labels) =>
        (Label.replace cs labels 5 assembler.machine.cellSize).toOption.map fun rs =>
          (Code.generate rs 5 assembler.machine.cellSize).toOption.isSome) = some false := by
      decide +kernel
    obtain ⟨⟨cs, equs, labels⟩, hstages, hpasses⟩ := Option.bind_eq_some_iff.1 hstages
    obtain ⟨rs, hrs, hgenerate⟩ := Option.map_eq_some_iff.1 hpasses
    have h := addressed_of_addressed? (by decide +kernel) hstages
    have hrs := toOption_eq_some.1 hrs
    cases he : Code.generate rs 5 assembler.machine.cellSize with
    | ok blocks =>
      rw [he] at hgenerate
      cases hgenerate
    | error e =>
      obtain ⟨_, _, _, hwide, _⟩ := (SourceEnv.Addressed.checked_passes accepted h).2 rs hrs
      exact ⟨_, cs, equs, labels, rs, e, h, hrs, he, hwide e he⟩

end Sample

end CellAsm
