-- SUMMARY: Code that refers to labels by distance only is the same wherever it starts.
import CellAsm.Proofs.Operands

/-!
# Code that can be moved

An alignment or a position depends on the address it is reached at, and so does an
operand that stands for the address of a label. Without these, an address enters an
assembly only as the distance between two of them. Such a program has the same cells
wherever it starts, as long as they end within the address space. Each pass is shown to
take moved addresses to moved addresses, one statement after the other.
-/
namespace CellAsm

open Statement

/-! ## Addresses, places and labels that are moved -/

/-- The address `a'` lies `d` cells behind `a`. -/
def Moved (d : Int) (a a' : UInt64) : Prop := (a'.toNat : Int) = a.toNat + d

/-- The same length, `d` cells further. -/
structure Span.MovedBy (d : Int) (s s' : Span) : Prop where
  address : Moved d s.address s'.address
  bits : s'.bits = s.bits
  next : Moved d s.next s'.next

/-- The number of a label, `d` cells further. -/
def Token.moved (d : Int) (t : Token) : Token := { t with contents := Text.decimal (t.value + d) }

/-- The block `b'` is `b`, `d` cells further. -/
structure Block.MovedBy (d : Int) (b b' : Block) : Prop where
  address : Moved d b.address b'.address
  same : b' = { b with address := b'.address }

/-- The program `q` is `p` with another first address. -/
structure Program.MovedBy (d : Int) (p q : Program) : Prop where
  start : Moved d p.start q.start
  blocks : List.Forall₂ (Block.MovedBy d) p.blocks q.blocks
  labels : q.labels = p.labels.mapValues (Token.moved d)
  statements : q.statements = p.statements
  equs : q.equs = p.equs
  exports : q.exports = p.exports

theorem Token.moved_mark {d : Int} {a a' : UInt64} (h : Moved d a a') (l : Token) :
    (Label.mark a l).moved d = Label.mark a' l := by
  have hvalue : (Label.mark a l).value = a.toNat := by
    have hliteral := Text.toInt?_decimal (a.toNat : Int)
    rw [value, integer?, Label.mark, Text.trim_of_toInt? hliteral, hliteral]
    rfl
  rw [moved, hvalue, ← h]
  rfl

/-- The address of a moved label can be read. -/
theorem Token.IsNumeral.toInt?_moved {t : Token} (h : t.IsNumeral) (d : Int) : ∃ v,
    t.contents.toInt? = some v ∧ (t.moved d).contents.toInt? = some (v + d) := by
  obtain ⟨v, hv⟩ := Option.isSome_iff_exists.1 h.2
  refine ⟨v, hv, ?_⟩
  have hvalue : t.value = v := by
    rw [value, integer?, Text.trim_of_toInt? hv, hv]
    rfl
  rw [moved, hvalue]
  exact Text.toInt?_decimal _

/-! ## Places -/

/-- The statement fills no cells up to an address. -/
def Statement.Unpadded (c : Statement) : Prop := c.action ≠ .align ∧ c.action ≠ .pos

instance (c : Statement) : Decidable c.Unpadded := inferInstanceAs (Decidable (_ ∧ _))

namespace Statement

variable {m : Machine} {c : Statement} {cs : List Statement} {d : Int} {a a' : UInt64}
  {spans spans' : List Span}

/-- Only an alignment or a position has a length that depends on its address. -/
theorem Unpadded.lengthInBits_eq (h : c.Unpadded) (a a' : UInt64) (cellSize : Int) :
    c.lengthInBits a' cellSize = c.lengthInBits a cellSize := by
  have hbits : c.emittedBits a' cellSize = c.emittedBits a cellSize := by
    unfold emittedBits
    split
    · rfl
    · rfl
    · rfl
    · exact absurd ‹c.action = .align› h.1
    · exact absurd ‹c.action = .pos› h.2
    · rfl
  rw [lengthInBits, lengthInBits, hbits]

/-- A statement that has a place has one at every address from which its cells end within
the address space. -/
theorem span_moved (hm : m.Valid) (hc : c.WellFormed m) (hfree : c.Unpadded) {s : Span}
    (h : c.span m.cellSize a = .ok s) (ha : Moved d a a')
    (hfits : a'.toNat + s.cells m.cellSize ≤ 2 ^ 64 - 1) :
    ∃ s', c.span m.cellSize a' = .ok s' ∧ s.MovedBy d s' := by
  obtain ⟨rfl, hbits, _⟩ := span_eq_ok.1 h
  have hexact := exact_of_span hm hc h
  obtain ⟨_, hcount⟩ := cellCount_eq hm.cellSize_pos
    (emittedBits_nonneg hm hc (emittedBits_of_span h).1)
  let next := UInt64.ofNat (a'.toNat + s.cells m.cellSize)
  have hnext : next.toNat = a'.toNat + s.cells m.cellSize :=
    UInt64.toNat_ofNat_of_lt' (by rw [UInt64.size]; omega)
  have hadvance : c.advance a' s.bits m.cellSize = .ok next := by
    rw [advance_eq hm.cellSize_ne_zero, hcount, if_pos (by omega)]
    rfl
  refine ⟨⟨a', s.bits, next⟩, span_eq_ok.2 ⟨rfl, ?_, hadvance⟩, ha, rfl, ?_⟩
  · rw [hfree.lengthInBits_eq s.address]
    exact hbits
  · have hsame := hexact.next_eq
    unfold Moved at ha ⊢
    dsimp only
    omega

/-- All places move together. -/
theorem layout_moved (hm : m.Valid) (hcs : ∀ c ∈ cs, c.WellFormed m)
    (hfree : ∀ c ∈ cs, c.Unpadded) (h : layout m.cellSize a cs = .ok spans) (ha : Moved d a a')
    (hfits : a'.toNat + (spans.map (Span.cells m.cellSize)).sum ≤ 2 ^ 64 - 1) :
    ∃ spans', layout m.cellSize a' cs = .ok spans' ∧
      List.Forall₂ (Span.MovedBy d) spans spans' := by
  induction cs generalizing a a' spans with
  | nil =>
    cases h
    exact ⟨[], rfl, .nil⟩
  | cons c rest ih =>
    obtain ⟨s, more, hs, hmore, rfl⟩ := layout_cons_eq_ok.1 h
    obtain ⟨hc, hcs⟩ := List.forall_mem_cons.1 hcs
    obtain ⟨hunpadded, hfree⟩ := List.forall_mem_cons.1 hfree
    rw [List.map_cons, List.sum_cons] at hfits
    obtain ⟨s', hs', hmoved⟩ := span_moved hm hc hunpadded hs ha (by omega)
    have hexact := (exact_of_span hm hc hs').next_eq
    have hcells : s'.cells m.cellSize = s.cells m.cellSize := by
      rw [Span.cells, Span.cells, hmoved.bits]
    rw [(span_eq_ok.1 hs').1, hcells] at hexact
    obtain ⟨more', hmore', hrest⟩ := ih hcs hfree hmore hmoved.next (by omega)
    exact ⟨s' :: more', layout_cons_eq_ok.2 ⟨s', more', hs', hmore', rfl⟩, .cons hmoved hrest⟩

end Statement

/-! ## Labels -/

namespace Label

variable {d : Int} {a a' : UInt64} {labels table : Table Token}

theorem define_moved {ls : List Token} (ha : Moved d a a') (h : define a labels ls = .ok table) :
    define a' (labels.mapValues (Token.moved d)) ls = .ok (table.mapValues (Token.moved d)) := by
  induction ls generalizing labels with
  | nil =>
    cases h
    rfl
  | cons l rest ih =>
    unfold define at h ⊢
    rw [Table.find?_mapValues]
    split at h
    · cases h
    · rename_i hnew
      rw [hnew]
      have hmark := ih h
      rw [Table.mapValues_insert] at hmark
      have hmoved := Token.moved_mark ha l
      simp only [mark] at hmoved
      rw [hmoved] at hmark
      exact hmark

/-- The labels move with the places. -/
theorem assignFrom_moved {cellSize : Int} {cs : List Statement} {spans spans' : List Span}
    (hlayout : layout cellSize a cs = .ok spans) (hlayout' : layout cellSize a' cs = .ok spans')
    (hspans : List.Forall₂ (Span.MovedBy d) spans spans') (ha : Moved d a a')
    (h : assignFrom cellSize a labels cs = .ok table) :
    assignFrom cellSize a' (labels.mapValues (Token.moved d)) cs =
      .ok (table.mapValues (Token.moved d)) := by
  induction cs generalizing a a' labels spans spans' with
  | nil =>
    cases h
    rfl
  | cons c rest ih =>
    obtain ⟨s, more, hs, hmore, rfl⟩ := layout_cons_eq_ok.1 hlayout
    obtain ⟨s', more', hs', hmore', rfl⟩ := layout_cons_eq_ok.1 hlayout'
    obtain ⟨hmoved, hspans⟩ := List.forall₂_cons.1 hspans
    obtain ⟨marked, t, hmarked, ht, hrest⟩ := assignFrom_cons_eq_ok.1 h
    obtain rfl : s = t := Except.ok.inj (hs.symm.trans ht)
    refine assignFrom_cons_eq_ok.2 ⟨_, s', define_moved ha hmarked, hs', ?_⟩
    exact ih hmore hmore' hspans hmoved.next hrest

end Label

/-! ## Operands -/

/-- The field is counted from the instruction it belongs to. -/
def Relativity.IsRelative (r : Relativity) : Prop := r = .preIncrement ∨ r = .postIncrement

instance (r : Relativity) : Decidable r.IsRelative := inferInstanceAs (Decidable (_ ∨ _))

/-- The field that the operand at an index is written for, if the statement is an
instruction. -/
def Statement.field? (c : Statement) (j : Nat) : Option Field :=
  c.instruction.bind fun spec => spec.operandSlots[j]?.map Prod.fst

/-- Every label among the operands is written for a field that is counted from the
instruction. -/
def Statement.ByDistance (labels : Table Token) (c : Statement) : Prop :=
  ∀ {j : Nat} {o l : Token}, c.operands[j]? = some o → Label.named? labels o = some l →
    ∃ f ∈ c.field? j, f.relativity.IsRelative

namespace Label

variable {d : Int} {labels : Table Token} {s s' : Span} {o : Token}

theorem named?_mapValues (f : Token → Token) :
    named? (labels.mapValues f) o = (named? labels o).map f := by
  unfold named?
  split
  · exact Table.find?_mapValues f labels o.symbol
  · rfl

/-- The distance of a label stays the same. -/
theorem relative_moved {r : Relativity} (hr : r.IsRelative) (hs : s.MovedBy d s') (v : Int) :
    relative r s'.address s'.next (v + d) = relative r s.address s.next v := by
  have haddress := hs.address
  have hnext := hs.next
  unfold Moved at haddress hnext
  rcases hr with rfl | rfl
  · simp only [relative]
    omega
  · simp only [relative]
    omega

theorem replaceOperand_moved (hlabels : labels.All Token.IsNumeral) (hs : s.MovedBy d s')
    {f : Field} (hf : ∀ l, named? labels o = some l → f.relativity.IsRelative)
    (spec : Instruction) (pos : Nat) :
    replaceOperand spec (labels.mapValues (Token.moved d)) s'.address s'.next f pos o =
      replaceOperand spec labels s.address s.next f pos o := by
  unfold replaceOperand
  rw [named?_mapValues]
  cases hnamed : named? labels o with
  | none => rfl
  | some l =>
    obtain ⟨v, hv, hmoved⟩ := (isNumeral_of_named? hlabels hnamed).toInt?_moved d
    simp only [Option.map_some, hv, hmoved, relative_moved (hf l hnamed) hs]

theorem replaceValue_moved (ho : named? labels o = none) :
    replaceValue (labels.mapValues (Token.moved d)) o = replaceValue labels o := by
  unfold replaceValue
  split
  · rename_i hkind
    rw [named?, if_pos hkind] at ho
    rw [Table.find?_mapValues, ho]
    rfl
  · rfl

/-- The same numbers take the place of the names of a statement. -/
theorem replaceNames_moved {m : Machine} (hlabels : labels.All Token.IsNumeral)
    (hs : s.MovedBy d s') {c r : Statement} (hc : c.WellFormed m) (hdistance : c.ByDistance labels)
    (h : replaceNames labels s.address s.next c = .ok r) :
    replaceNames (labels.mapValues (Token.moved d)) s'.address s'.next c = .ok r := by
  have hdirective (hspec : c.instruction = none) :
      replaceNames (labels.mapValues (Token.moved d)) s'.address s'.next c = .ok r := by
    rw [replaceNames_of_directive hspec] at h ⊢
    obtain ⟨operands, hoperands, hr⟩ := bind_eq_ok.1 h
    refine bind_eq_ok.2 ⟨operands, mapM_eq_ok.2 ?_, hr⟩
    have hvalues := mapM_eq_ok.1 hoperands
    refine forall₂_of_getElem? hvalues.length_eq ?_
    intro j o o' ho ho'
    obtain ⟨o'', ho'', hvalue⟩ := forall₂_getElem?_left hvalues ho
    obtain rfl : o' = o'' := Option.some.inj (ho'.symm.trans ho'')
    -- a directive has no field that a label could be written for
    have hfree : named? labels o = none := by
      by_contra hlabel
      obtain ⟨l, hl⟩ := Option.ne_none_iff_exists'.1 hlabel
      obtain ⟨f, hf, _⟩ := hdistance ho hl
      rw [field?, hspec] at hf
      cases hf
    rw [replaceValue_moved hfree]
    exact hvalue
  cases hc with
  | @instruction _ spec _ operands _ _ _ hmost =>
    rw [replaceNames_of_instruction rfl hmost] at h ⊢
    obtain ⟨replaced, hreplaced, hr⟩ := bind_eq_ok.1 h
    refine bind_eq_ok.2 ⟨replaced, mapM_eq_ok.2 ?_, hr⟩
    have hslots := mapM_eq_ok.1 hreplaced
    refine forall₂_of_getElem? hslots.length_eq ?_
    rintro j ⟨⟨f, pos⟩, o⟩ o' hslot ho'
    obtain ⟨o'', ho'', hoperand⟩ := forall₂_getElem?_left hslots hslot
    obtain rfl : o' = o'' := Option.some.inj (ho'.symm.trans ho'')
    obtain ⟨hfield, ho⟩ := List.getElem?_zip_eq_some.1 hslot
    dsimp only
    rw [replaceOperand_moved hlabels hs]
    · exact hoperand
    · intro l hl
      obtain ⟨f', hf', hrelative⟩ := hdistance ho hl
      rw [field?, Option.bind_some, hfield] at hf'
      cases hf'
      exact hrelative
  | data => exact hdirective rfl
  | ascii => exact hdirective rfl
  | cell => exact hdirective rfl

end Label

/-! ## Code -/

/-- The cells of a statement do not depend on its address. -/
theorem Code.block_moved {d : Int} {a a' : UInt64} (ha : Moved d a a') (r : Statement)
    (n cellSize : Int) :
    Corresponds (Block.MovedBy d) (block r a n cellSize) (block r a' n cellSize) := by
  unfold block
  refine .bind_same fun packed _ => ?_
  dsimp only
  split
  · exact .error
  · exact .bind_same fun _ _ => .bind_same fun _ _ => .ok ⟨ha, rfl⟩

/-! ## Whole programs -/

/-- The operand is the name of a label of the program. -/
def SourceState.NamesLabel (s : SourceState) (o : Token) : Prop :=
  o.kind = .identifier ∧ ∃ l ∈ s.labels, l.symbol = o.symbol

instance (s : SourceState) (o : Token) : Decidable (s.NamesLabel o) :=
  inferInstanceAs (Decidable (_ ∧ _))

/-- A program without alignments and positions that refers to its labels by distance
only. -/
structure SourceState.Movable (s : SourceState) : Prop where
  unpadded : ∀ c ∈ s.statements, c.Unpadded
  byDistance : ∀ c ∈ s.statements, ∀ (j : Nat) (o : Token), c.operands[j]? = some o →
    s.NamesLabel o → ∃ f ∈ c.field? j, f.relativity.IsRelative

instance (s : SourceState) : Decidable s.Movable :=
  decidable_of_iff ((∀ c ∈ s.statements, c.Unpadded) ∧
      ∀ c ∈ s.statements, ∀ x ∈ c.operands.zipIdx, s.NamesLabel x.1 →
        ∃ f ∈ c.field? x.2, f.relativity.IsRelative)
    ⟨fun h => ⟨h.1, fun c hc j o ho => h.2 c hc (o, j) (List.mk_mem_zipIdx_iff_getElem?.2 ho)⟩,
      fun h => ⟨h.unpadded, fun c hc x hx =>
        h.byDistance c hc x.2 x.1 (List.mem_zipIdx_iff_getElem?.1 hx)⟩⟩

namespace SourceEnv.Assembled

variable {env : SourceEnv} {name contents : Text} {start : UInt64} {s : SourceState}
  {cs : List Statement} {spans : List Span} {p : Program}

theorem unpadded (h : env.Assembled name contents start s cs spans p) (hs : s.Movable) :
    ∀ c ∈ cs, c.Unpadded := by
  rw [h.addressed.replaced]
  exact List.forall_mem_map.2 fun c hc => hs.unpadded c hc

theorem byDistance (h : env.Assembled name contents start s cs spans p) (hs : s.Movable) :
    ∀ c ∈ cs, c.ByDistance p.labels := by
  rw [h.addressed.replaced]
  refine List.forall_mem_map.2 ?_
  intro c hc j o' l ho' hl
  rw [Equ.replaceIn, List.getElem?_map] at ho'
  obtain ⟨o, ho, rfl⟩ := Option.map_eq_some_iff.1 ho'
  obtain ⟨hkind, k, e, label, he, hlabel, hsymbol⟩ := h.addressed.exists_label_of_named? hl
  have hnames : s.NamesLabel o :=
    ⟨hkind, label, List.mem_flatMap.2 ⟨e, List.mem_of_getElem? he, hlabel⟩, hsymbol⟩
  exact hs.byDistance c hc j o ho hnames

/-- Statements in places that are moved have the same numbers for operands. -/
theorem names_moved (h : env.Assembled name contents start s cs spans p) (hs : s.Movable) {d : Int}
    {spans' : List Span} (hspans : List.Forall₂ (Span.MovedBy d) spans spans') :
    (cs.zip spans').mapM (fun (c, here) => Label.replaceNames
      (p.labels.mapValues (Token.moved d)) here.address here.next c) = .ok p.statements := by
  have hnames := mapM_eq_ok.1 h.placed.names
  have hlengths := h.placed.lengths
  have hmoved := hspans.length_eq
  rw [mapM_eq_ok]
  refine forall₂_of_getElem? (by rw [List.length_zip]; omega) ?_
  rintro i ⟨c, here'⟩ r hpair hr
  obtain ⟨hc, hhere'⟩ := List.getElem?_zip_eq_some.1 hpair
  obtain ⟨here, hhere, hsame⟩ := forall₂_getElem?_right hspans hhere'
  obtain ⟨⟨c', here''⟩, hpair', hreplaced⟩ := forall₂_getElem?_right hnames hr
  obtain ⟨hc', hhere''⟩ := List.getElem?_zip_eq_some.1 hpair'
  obtain rfl : c = c' := Option.some.inj (hc.symm.trans hc')
  obtain rfl : here = here'' := Option.some.inj (hhere.symm.trans hhere'')
  have hmem := List.mem_of_getElem? hc
  exact Label.replaceNames_moved h.addressed.isNumeral hsame (h.addressed.wellFormed c hmem)
    (h.byDistance hs c hmem) hreplaced

/-- Statements in places that are moved have the same cells. -/
theorem code_moved (h : env.Assembled name contents start s cs spans p) {d : Int}
    {spans' : List Span} (hspans : List.Forall₂ (Span.MovedBy d) spans spans') :
    ∃ blocks, (p.statements.zip spans').mapM (fun (r, here) =>
        Code.block r here.address here.bits env.machine.cellSize) = .ok blocks ∧
      List.Forall₂ (Block.MovedBy d) p.blocks blocks := by
  have hmoved := hspans.length_eq
  have hcode : Corresponds (List.Forall₂ (Block.MovedBy d))
      ((p.statements.zip spans).mapM fun (r, here) =>
        Code.block r here.address here.bits env.machine.cellSize)
      ((p.statements.zip spans').mapM fun (r, here) =>
        Code.block r here.address here.bits env.machine.cellSize) := by
    apply Corresponds.mapM
    refine forall₂_of_getElem? (by rw [List.length_zip, List.length_zip, hmoved]) ?_
    rintro i ⟨r, here⟩ ⟨r', here'⟩ hpair hpair'
    obtain ⟨hr, hhere⟩ := List.getElem?_zip_eq_some.1 hpair
    obtain ⟨hr', hhere'⟩ := List.getElem?_zip_eq_some.1 hpair'
    obtain rfl : r = r' := Option.some.inj (hr.symm.trans hr')
    obtain ⟨here'', hhere'', hsame⟩ := forall₂_getElem?_left hspans hhere
    obtain rfl : here' = here'' := Option.some.inj (hhere'.symm.trans hhere'')
    dsimp only
    rw [hsame.bits]
    exact Code.block_moved hsame.address r _ _
  rw [h.placed.code] at hcode
  exact hcode.exists_ok

/-- A program that can be moved is assembled from every first address at which its cells
end within the address space. -/
theorem exists_moved (hm : env.machine.Valid) (h : env.Assembled name contents start s cs spans p)
    (hrun : (env.assemble name contents start).result = .ok p) (hs : s.Movable) {start' : UInt64}
    (hfits : start'.toNat + Block.total p.blocks ≤ 2 ^ 64 - 1) :
    ∃ q, (env.assemble name contents start').result = .ok q ∧
      p.MovedBy (start'.toNat - start.toNat) q := by
  obtain ⟨d, hd⟩ : ∃ d : Int, d = start'.toNat - start.toNat := ⟨_, rfl⟩
  have hstart : Moved d start start' := by
    unfold Moved
    omega
  rw [Block.total, ← h.placed.map_cells hm] at hfits
  obtain ⟨spans', hlayout, hspans⟩ := layout_moved hm h.addressed.wellFormed (h.unpadded hs)
    h.placed.before hstart hfits
  have haddressed : env.Addressed name contents start' s cs p.equs
      (p.labels.mapValues (Token.moved d)) := by
    refine ⟨h.addressed.read, h.addressed.constants, ?_⟩
    exact Label.assignFrom_moved h.placed.before hlayout hspans hstart h.addressed.labels
  obtain ⟨blocks, hblocks, hmoved⟩ := h.code_moved hspans
  have hresult' := haddressed.result_eq hlayout
  rw [h.names_moved hs hspans, ok_bind, hblocks, ok_bind] at hresult'
  have hresult := h.addressed.result_eq h.placed.before
  rw [hrun, h.placed.names, ok_bind, h.placed.code, ok_bind] at hresult
  have hp := Except.ok.inj hresult
  rw [← hd]
  refine ⟨_, hresult', ?_, hmoved, rfl, rfl, rfl, ?_⟩
  · rw [congrArg Program.start hp]
    exact hstart
  · exact (congrArg Program.exports hp).symm

end SourceEnv.Assembled

/-- A program without alignments and positions that refers to its labels by distance
only has the same cells wherever it starts, and all its addresses move along. -/
theorem Assembler.assembleSource_relocates {a : Assembler} {m : Option Machine}
    (haccept : accept m = .ok a.machine) {library : Library} {name contents : Text}
    {s : SourceState} (hread : SourceEnv.parse ⟨a.machine, some library⟩ name contents = .ok s)
    (hs : s.Movable) {start start' : UInt64} {p : Program}
    (hrun : (a.assembleSource library name contents start).2.result = .ok p)
    (hfits : start'.toNat + Block.total p.blocks ≤ 2 ^ 64 - 1) :
    ∃ q, (a.assembleSource library name contents start').2.result = .ok q ∧
      p.MovedBy (start'.toNat - start.toNat) q := by
  have hm := valid_of_accept haccept
  obtain ⟨s', cs, spans, h⟩ := assembled_of_assembleSource hrun
  obtain rfl : s = s' := Except.ok.inj (hread.symm.trans h.addressed.read)
  rw [assembleSource_snd] at hrun ⊢
  exact h.exists_moved hm hrun hs hfits

/-- Jumps forward and backward, to be placed anywhere. -/
def Sample.movableSource : Text := "top: jmp end\n sel r1\nend: jmp top\n"

/-- Six cells that are assembled at address 5 are the same at the end of the address
space. -/
theorem Sample.relocated : (read movableSource).Movable ∧ ∃ p q,
    (assembler.assembleSource library "sample" movableSource 5).2.result = .ok p ∧
    p.blocks.map (·.cells) = [[1, 4], [2, 1], [1, 252]] ∧
    (assembler.assembleSource library "sample" movableSource 0xfffffffffffffff9).2.result = .ok q ∧
    p.MovedBy (0xfffffffffffffff9 - 5) q := by
  have hread : SourceEnv.parse ⟨assembler.machine, some library⟩ "sample" movableSource =
      .ok (read movableSource) := parse_eq_read (by decide +kernel)
  have hs : (read movableSource).Movable := by decide +kernel
  have hplain : (plainAssemble? assembler.machine "sample" movableSource 5).map
      (fun p => p.blocks.map (·.cells)) = some [[1, 4], [2, 1], [1, 252]] := by decide +kernel
  obtain ⟨p, hp, hcells⟩ := Option.map_eq_some_iff.1 hplain
  have hrun := Assembler.assembleSource_of_plainAssemble? library hp
  have htotal : Block.total p.blocks = 6 := by
    rw [Block.total, ← Function.comp_def List.length Block.cells, ← List.map_map, hcells]
    rfl
  have hfits : (0xfffffffffffffff9 : UInt64).toNat + Block.total p.blocks ≤ 2 ^ 64 - 1 := by
    rw [htotal]
    decide +kernel
  obtain ⟨q, hrun', hmoved⟩ := Assembler.assembleSource_relocates accepted hread hs hrun hfits
  exact ⟨hs, p, q, hrun, hcells, hrun', hmoved⟩

end CellAsm
