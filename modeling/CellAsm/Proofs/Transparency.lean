-- SUMMARY: When the name of a constant may stand for its number.
import CellAsm.Proofs.Checked

/-!
# Names and numbers of constants

An operand that names a constant is replaced by its number, padded to the width of
the name. The passes read the number and not its text, so that a program is
assembled to the same cells as if the number were written without padding. The
one exception is a field with named values, where the text is looked up: there the
two agree exactly if the padded and the plain text name the same value.
-/
namespace CellAsm

open Statement

/-! ## Operands that hold the same number -/

/-- Two operands that are equal, or constants that hold the same number. -/
def Token.Alike (o o' : Token) : Prop :=
  o = o' ∨ o.kind = .constant ∧ o'.kind = .constant ∧ o.integer? = o'.integer?

theorem Token.Alike.refl (o : Token) : o.Alike o := .inl rfl

/-- Two statements that differ at most in how the numbers among their operands are
written. -/
inductive Statement.Alike (c : Statement) : Statement → Prop
  | intro {operands : List Token} (halike : List.Forall₂ Token.Alike c.operands operands)
      (hstring : c.action = .ascii → operands = c.operands) :
      Alike c { c with operands := operands }

theorem Statement.Alike.refl (c : Statement) : c.Alike c :=
  .intro (List.forall₂_same.2 fun o _ => .refl o) fun _ => rfl

/-! ## Places -/

namespace Statement

variable {c c' : Statement} {address : UInt64} {cellSize : Int}

theorem Alike.soleCell (h : c.Alike c') :
    Corresponds (fun p q => p.2 = q.2) c.soleCell c'.soleCell := by
  obtain ⟨halike, _⟩ := h
  unfold Statement.soleCell
  generalize c.operands = operands at halike
  cases halike with
  | nil => exact .error
  | cons ho hrest =>
    cases hrest with
    | nil =>
      rcases ho with rfl | ⟨hkind, hkind', hinteger⟩
      · exact .of_eq fun _ => rfl
      · simp only [hkind, hkind', ne_eq, not_true_eq_false, if_false]
        rw [Token.integer?, Token.integer?] at hinteger
        rw [hinteger]
        split
        · exact .error
        · split
          · exact .error
          · exact .ok rfl
    | cons => exact .error

theorem fillFor_corresponds (c : Statement) (o o' : Token) (cells : UInt64) (cellSize : Int) :
    Corresponds Eq (c.fillFor o cells cellSize) (c.fillFor o' cells cellSize) := by
  unfold fillFor
  split
  · exact .error
  · exact .ok rfl

/-- Statements that are alike emit as many bits. -/
theorem Alike.emittedBits (h : c.Alike c') :
    Corresponds Eq (c.emittedBits address cellSize) (c'.emittedBits address cellSize) := by
  have hcell := h.soleCell
  obtain ⟨halike, hstring⟩ := h
  rw [emittedBits_eq, emittedBits_eq]
  cases haction : c.action with
  | instruction => exact .of_eq fun _ => rfl
  | data =>
    simp only [List.map_const', halike.length_eq]
    exact .ok rfl
  | ascii =>
    rw [hstring haction]
    exact .ok rfl
  | align =>
    refine hcell.bind ?_
    rintro ⟨o, v⟩ ⟨o', v'⟩ _ _ rfl
    dsimp only
    split
    · exact .error
    · exact fillFor_corresponds c o o' _ _
  | pos =>
    refine hcell.bind ?_
    rintro ⟨o, v⟩ ⟨o', v'⟩ _ _ rfl
    dsimp only
    split
    · exact .error
    · exact fillFor_corresponds c o o' _ _
  | unnamed n => exact .error

theorem Alike.lengthInBits (h : c.Alike c') :
    Corresponds Eq (c.lengthInBits address cellSize) (c'.lengthInBits address cellSize) := by
  refine h.emittedBits.bind ?_
  rintro n _ _ _ rfl
  obtain ⟨_, _⟩ := h
  exact .of_eq fun _ => rfl

theorem Alike.advance (h : c.Alike c') (n : Int) :
    c'.advance address n cellSize = c.advance address n cellSize := by
  obtain ⟨_, _⟩ := h
  rfl

end Statement

/-! ## Addresses of labels -/

theorem Label.assignFrom_alike {cellSize : Int} {address : UInt64} {labels : Table Token}
    {cs cs' : List Statement} (h : List.Forall₂ Statement.Alike cs cs') :
    Corresponds Eq (assignFrom cellSize address labels cs)
      (assignFrom cellSize address labels cs') := by
  induction h generalizing address labels with
  | nil => exact .ok rfl
  | @cons c c' _ _ hc _ ih =>
    have hlabels : c'.labels = c.labels := by
      obtain ⟨_, _⟩ := hc
      rfl
    unfold assignFrom
    rw [hlabels]
    refine .bind_same fun marked _ => hc.lengthInBits.bind ?_
    rintro n _ _ _ rfl
    rw [hc.advance]
    exact .bind_same fun next _ => ih

/-! ## Names -/

/-- Two operands find the same value of a field. -/
def Field.Finds (f : Field) (o o' : Token) : Prop :=
  (f.lookup o.contents.trim).map NamedValue.value = (f.lookup o'.contents.trim).map NamedValue.value

namespace Label

variable {labels : Table Token} {address next : UInt64}

theorem replaceOperand_alike {spec : Instruction} {f : Field} {pos : Nat} {o o' : Token}
    (h : o.Alike o') (hfinds : f.restricted → f.Finds o o') :
    Corresponds Token.Alike (replaceOperand spec labels address next f pos o)
      (replaceOperand spec labels address next f pos o') := by
  rcases h with rfl | ⟨hkind, hkind', hinteger⟩
  · exact .of_eq .refl
  · have hnone {t : Token} (ht : t.kind = .constant) : named? labels t = none := by
      rw [named?, ht]
      rfl
    simp only [replaceOperand, hnone hkind, hnone hkind', hkind, hkind', if_true]
    split
    · rename_i hrestricted
      have hfinds := hfinds hrestricted
      unfold Field.Finds at hfinds
      cases hv : f.lookup o.contents.trim with
      | none =>
        rw [hv, Option.map_none, eq_comm, Option.map_eq_none_iff] at hfinds
        rw [hfinds]
        exact .error
      | some v =>
        rw [hv, Option.map_some, eq_comm, Option.map_eq_some_iff] at hfinds
        obtain ⟨w, hw, hvalue⟩ := hfinds
        rw [hw]
        refine .ok (.inr ⟨rfl, rfl, ?_⟩)
        rw [Token.integer?_carrying_decimal, Token.integer?_carrying_decimal, hvalue]
    · exact .ok (.inr ⟨hkind, hkind', hinteger⟩)

theorem replaceValue_alike {o o' : Token} (h : o.Alike o') :
    Corresponds Token.Alike (replaceValue labels o) (replaceValue labels o') := by
  rcases h with rfl | ⟨hkind, hkind', hinteger⟩
  · exact .of_eq .refl
  · rw [replaceValue_of_kind_ne (by rw [hkind]; decide),
      replaceValue_of_kind_ne (by rw [hkind']; decide)]
    exact .ok (.inr ⟨hkind, hkind', hinteger⟩)

theorem checkCount_alike {spec : Instruction} {operands operands' : List Token}
    (h : List.Forall₂ Token.Alike operands operands') :
    Corresponds Eq (checkCount spec operands) (checkCount spec operands') := by
  have hdrop := List.forall₂_drop spec.operandSlots.length h
  rw [checkCount_eq, checkCount_eq]
  generalize operands.drop spec.operandSlots.length = extra at hdrop
  generalize operands'.drop spec.operandSlots.length = extra' at hdrop
  cases hdrop with
  | nil => exact .ok rfl
  | cons => exact .error

theorem replaceOperands_alike {spec : Instruction} {slots : List (Field × Nat)}
    {operands operands' : List Token} (h : List.Forall₂ Token.Alike operands operands')
    (hfinds : ∀ {j : Nat} {f : Field} {pos : Nat} {o o' : Token}, slots[j]? = some (f, pos) →
      operands[j]? = some o → operands'[j]? = some o' → f.restricted → f.Finds o o') :
    Corresponds (List.Forall₂ Token.Alike)
      (replaceOperands spec labels address next slots operands)
      (replaceOperands spec labels address next slots operands') := by
  induction h generalizing slots with
  | nil =>
    rw [replaceOperands]
    exact .ok .nil
  | cons ho _ ih =>
    cases slots with
    | nil => exact .error
    | cons slot slots =>
      obtain ⟨f, pos⟩ := slot
      unfold replaceOperands
      have hfirst := hfinds (j := 0) rfl rfl rfl
      refine (replaceOperand_alike ho hfirst).bind fun _ _ _ _ ho => ?_
      refine (ih fun {j} => hfinds (j := j + 1)).bind fun _ _ _ _ hrest => ?_
      exact .ok (.cons ho hrest)

theorem replaceNames_of_some {c : Statement} {spec : Instruction}
    (hspec : c.instruction = some spec) : replaceNames labels address next c = do
      checkCount spec c.operands
      let operands ← replaceOperands spec labels address next spec.operandSlots c.operands
      return { c with operands := operands } := by
  simp only [replaceNames_eq, hspec]

theorem replaceNames_alike {c c' : Statement} (h : c.Alike c')
    (hfinds : ∀ {j : Nat} {spec : Instruction} {o o' : Token} {f : Field} {pos : Nat},
      c.Writes j spec o f pos → c'.operands[j]? = some o' → f.restricted → f.Finds o o') :
    Corresponds Statement.Alike (replaceNames labels address next c)
      (replaceNames labels address next c') := by
  obtain ⟨halike, hstring⟩ := h
  by_cases hascii : c.action = .ascii
  · rw [hstring hascii]
    exact .of_eq .refl
  · have hresult {operands operands' : List Token}
        (h : List.Forall₂ Token.Alike operands operands') :
        Statement.Alike { c with operands := operands } { c with operands := operands' } :=
      .intro h fun haction => absurd haction hascii
    rcases Option.eq_none_or_eq_some c.instruction with hspec | ⟨spec, hspec⟩
    · rw [replaceNames_of_directive hspec, replaceNames_of_directive (by exact hspec)]
      refine (Corresponds.mapM (halike.imp fun _ _ ho => replaceValue_alike ho)).bind ?_
      exact fun _ _ _ _ hoperands => .ok (hresult hoperands)
    · rw [replaceNames_of_some hspec, replaceNames_of_some (by exact hspec)]
      refine (checkCount_alike halike).bind fun _ _ _ _ _ => ?_
      refine (replaceOperands_alike halike fun hslot ho => hfinds ⟨hspec, hslot, ho⟩).bind ?_
      exact fun _ _ _ _ hoperands => .ok (hresult hoperands)

theorem replaceFrom_alike {cellSize : Int} {cs cs' : List Statement}
    (h : List.Forall₂ (fun c c' => Statement.Alike c c' ∧
      ∀ {j : Nat} {spec : Instruction} {o o' : Token} {f : Field} {pos : Nat},
        c.Writes j spec o f pos → c'.operands[j]? = some o' → f.restricted → f.Finds o o') cs cs') :
    Corresponds (List.Forall₂ Statement.Alike) (replaceFrom labels cellSize address cs)
      (replaceFrom labels cellSize address cs') := by
  induction h generalizing address with
  | nil => exact .ok .nil
  | @cons c c' _ _ hc _ ih =>
    obtain ⟨hc, hfinds⟩ := hc
    unfold replaceFrom
    refine hc.lengthInBits.bind ?_
    rintro n _ _ _ rfl
    rw [hc.advance]
    refine .bind_same fun next _ => (replaceNames_alike hc hfinds).bind fun r r' _ _ hr => ?_
    exact ih.bind fun _ _ _ _ hrest => .ok (.cons hr hrest)

end Label

/-! ## Code -/

namespace Code

theorem operandValue_alike {o o' : Token} (h : o.Alike o') :
    Corresponds Eq (operandValue o) (operandValue o') := by
  rcases h with rfl | ⟨hkind, hkind', hinteger⟩
  · exact .of_eq fun _ => rfl
  · rw [Token.integer?, Token.integer?] at hinteger
    simp only [operandValue, hkind, hkind', if_true, hinteger]
    split
    · exact .ok rfl
    · exact .error

theorem packFields_alike {spec : Instruction} {fields : List (Field × Nat)}
    {operands operands' : List Token} (h : List.Forall₂ Token.Alike operands operands')
    (p : Packed) : Corresponds Eq (packFields spec fields operands p)
      (packFields spec fields operands' p) := by
  induction fields generalizing operands operands' p with
  | nil =>
    rw [packFields, packFields]
    exact .ok rfl
  | cons slot fields ih =>
    obtain ⟨f, i⟩ := slot
    cases h with
    | nil => exact .of_eq fun _ => rfl
    | cons ho hrest =>
      unfold packFields
      split
      · refine (operandValue_alike ho).bind ?_
        rintro v _ _ _ rfl
        refine .bind_same fun _ _ => ?_
        split
        · exact ih hrest _
        · exact .error
      · exact .bind_same fun q _ => ih (.cons ho hrest) q

theorem packValues_alike {bits width : Int} {operands operands' : List Token}
    (h : List.Forall₂ Token.Alike operands operands') (p : Packed) :
    Corresponds Eq (packValues bits width operands p) (packValues bits width operands' p) := by
  induction h generalizing p with
  | nil => exact .ok rfl
  | cons ho _ ih =>
    unfold packValues
    refine (operandValue_alike ho).bind ?_
    rintro v _ _ _ rfl
    split
    · exact ih _
    · exact .error

variable {c c' : Statement}

theorem pack_alike (h : c.Alike c') (n : Int) : Corresponds Eq (pack c n) (pack c' n) := by
  obtain ⟨halike, hstring⟩ := h
  unfold pack
  cases haction : c.action with
  | instruction =>
    cases hspec : c.instruction with
    | none => exact .error
    | some spec =>
      dsimp only
      rw [packInstruction_eq, packInstruction_eq]
      split
      · exact .error
      · exact packFields_alike halike _
  | data =>
    dsimp only
    unfold packData
    dsimp only
    split
    · exact .error
    · exact packValues_alike halike _
  | ascii =>
    rw [hstring haction]
    exact .ok rfl
  | align => exact .of_eq fun _ => rfl
  | pos => exact .of_eq fun _ => rfl
  | unnamed => exact .error

/-- Statements that are alike have the same cells. -/
theorem block_alike (h : c.Alike c') (address : UInt64) (n cellSize : Int) :
    Corresponds (fun b b' => b.address = b'.address ∧ b.cells = b'.cells)
      (block c address n cellSize) (block c' address n cellSize) := by
  unfold block
  refine (pack_alike h n).bind ?_
  rintro packed _ _ _ rfl
  obtain ⟨_, _⟩ := h
  dsimp only
  split
  · exact .error
  · exact .bind_same fun _ _ => .bind_same fun _ _ => .ok ⟨rfl, rfl⟩

theorem generateFrom_alike {cellSize : Int} {address : UInt64} {cs cs' : List Statement}
    (h : List.Forall₂ Statement.Alike cs cs') :
    Corresponds (List.Forall₂ fun b b' => b.address = b'.address ∧ b.cells = b'.cells)
      (generateFrom cellSize address cs) (generateFrom cellSize address cs') := by
  induction h generalizing address with
  | nil => exact .ok .nil
  | cons hc _ ih =>
    unfold generateFrom
    refine hc.lengthInBits.bind ?_
    rintro n _ _ _ rfl
    refine (block_alike hc _ _ _).bind fun b b' _ _ hb => ?_
    rw [hc.advance]
    exact .bind_same fun next _ => ih.bind fun _ _ _ _ hrest => .ok (.cons hb hrest)

end Code

/-! ## All passes -/

/-- The addresses and cells of statements whose constants are replaced, if they can
be assembled. -/
def Statement.assembled? (m : Machine) (start : UInt64) (cs : List Statement) :
    Option (List (UInt64 × List UInt64)) :=
  Except.toOption do
    let labels ← Label.assign cs start m.cellSize
    let rs ← Label.replace cs labels start m.cellSize
    let blocks ← Code.generate rs start m.cellSize
    return blocks.map fun b => (b.address, b.cells)

theorem Statement.assembled?_alike {m : Machine} {start : UInt64} {cs cs' : List Statement}
    (h : List.Forall₂ (fun c c' => Statement.Alike c c' ∧
      ∀ {j : Nat} {spec : Instruction} {o o' : Token} {f : Field} {pos : Nat},
        c.Writes j spec o f pos → c'.operands[j]? = some o' → f.restricted → f.Finds o o') cs cs') :
    assembled? m start cs = assembled? m start cs' := by
  refine Corresponds.toOption_eq ?_
  refine (Label.assignFrom_alike (h.imp fun _ _ hc => hc.1)).bind ?_
  rintro labels _ _ _ rfl
  refine (Label.replaceFrom_alike h).bind fun rs rs' _ _ hrs => ?_
  refine (Code.generateFrom_alike hrs).bind fun blocks blocks' _ _ hblocks => .ok ?_
  exact map_eq_map_of_forall₂ (hblocks.imp fun b b' hb => Prod.ext hb.1 hb.2)

/-- The cells of statements are those of a program that they are placed in. -/
theorem Statement.placed_of_assembled? {m : Machine} {start : UInt64} {cs : List Statement}
    (hcs : ∀ c ∈ cs, c.WellFormed m) {out : List (UInt64 × List UInt64)}
    (h : assembled? m start cs = some out) : ∃ (p : Program) (spans : List Span),
      p.Placed m start cs spans ∧ p.labels.All Token.IsNumeral ∧
      out = p.blocks.map fun b => (b.address, b.cells) := by
  have h := toOption_eq_some.1 h
  simp only [bind_eq_ok, pure_eq_ok] at h
  obtain ⟨labels, hlabels, rs, hrs, blocks, hblocks, rfl⟩ := h
  obtain ⟨spans, hlayout⟩ := Label.layout_of_assignFrom hlabels
  rw [Label.replace, Label.replaceFrom_eq labels hlayout] at hrs
  have hafter := layout_replaceNames hcs hlayout hrs
  rw [Code.generate, Code.generateFrom_eq hafter] at hblocks
  exact ⟨{ blocks := blocks, statements := rs, labels := labels }, spans,
    ⟨hlayout, hafter, hrs, hblocks⟩, Label.all_of_assignFrom hlabels (Table.All.empty _), rfl⟩

/-- A number that is written for a field with named values finds the value that the
field holds in the end. -/
theorem Statement.OperandPath.lookup_eq {labels : Table Token} {spec : Instruction} {here : Span}
    {b : Block} {j : Nat} {o o' : Token} {f : Field} {pos : Nat}
    (h : OperandPath labels spec here b j o o' f pos) (hkind : o.kind = .constant)
    (hrestricted : f.restricted) : (f.lookup o.contents.trim).map NamedValue.value =
      some (f.decode (spec.slice pos b.row)) := by
  have hnone : Label.named? labels o = none := by
    rw [Label.named?, hkind]
    rfl
  have hreplaced := h.replaced
  simp only [Label.replaceOperand, hnone, hrestricted, if_true] at hreplaced
  split at hreplaced
  · rename_i v hv
    cases hreplaced
    rw [hv, h.decoded, Token.value, Token.integer?_carrying_decimal]
    rfl
  · cases hreplaced

/-- In a program that was assembled, the value found for a number is in its block. -/
theorem Program.Placed.lookup_eq {m : Machine} (hm : m.Valid) {start : UInt64}
    {cs : List Statement} (hcs : ∀ c ∈ cs, c.WellFormed m) {spans : List Span} {p : Program}
    (h : p.Placed m start cs spans) (hlabels : p.labels.All Token.IsNumeral) {i j pos : Nat}
    {c : Statement} {spec : Instruction} {o : Token} {f : Field} (hc : cs[i]? = some c)
    (hwrites : c.Writes j spec o f pos) (hkind : o.kind = .constant) (hrestricted : f.restricted) :
    ∃ b, p.blocks[i]? = some b ∧ b.cellSize = m.cellSize ∧
      (f.lookup o.contents.trim).map NamedValue.value =
        some (f.decode (spec.slice pos b.row)) := by
  obtain ⟨r, here, b, _, _, hb, htrace⟩ := h.trace_of_statement hc
  obtain ⟨o', f', pos', hpath⟩ := htrace.operandPath hm hlabels (hcs c (List.mem_of_getElem? hc))
    hwrites.instruction hwrites.operand
  cases hwrites.slot.symm.trans hpath.slot
  obtain ⟨_, _, _, rfl⟩ := Code.of_block hm htrace.code
  exact ⟨_, hb, rfl, hpath.lookup_eq hkind hrestricted⟩

/-! ## Padded and plain numbers -/

namespace Equ

/-- An operand that names a constant becomes its number, without padding. -/
def plain (resolved : Table Token) (o : Token) : Token :=
  if o.kind = .identifier then
    match resolved.find? o.symbol with
    | some v => { kind := v.kind, contents := v.contents, position := o.position, legal := true }
    | none => o
  else o

/-- A statement with its constants written out. -/
def plainIn (resolved : Table Token) (c : Statement) : Statement :=
  { c with operands := c.operands.map (plain resolved) }

variable {equs : Table Token}

theorem alike_plain (hequs : equs.All Token.IsNumeral) (o : Token) :
    (replace equs o).Alike (plain equs o) := by
  unfold replace plain
  split
  · cases hv : equs.find? o.symbol with
    | none => exact .refl o
    | some v =>
      obtain ⟨hkind, hliteral⟩ := hequs.find? hv
      obtain ⟨n, hn⟩ := Option.isSome_iff_exists.1 hliteral
      refine .inr ⟨hkind, hkind, ?_⟩
      rw [Token.integer?_carrying o v.kind hn, Token.integer?, Text.trim_of_toInt? hn, hn]
  · exact .refl o

theorem plain_of_kind_ne {o : Token} (h : o.kind ≠ .identifier) : plain equs o = o := by
  rw [plain, if_neg h]

theorem alike_plainIn (hequs : equs.All Token.IsNumeral) {m : Machine} {c : Statement}
    (hc : c.WellFormed m) : (replaceIn equs c).Alike (plainIn equs c) := by
  refine .intro (List.forall₂_map_left_iff.2 (List.forall₂_map_right_iff.2 ?_)) fun hascii => ?_
  · exact List.forall₂_same.2 fun o _ => alike_plain hequs o
  · -- A string is not replaced.
    cases hc with
    | ascii hstring =>
      have hkind : ∀ {o : Token}, o.kind = .string → o.kind ≠ .identifier := by
        intro o ho
        rw [ho]
        decide
      simp only [replaceIn, List.map_cons, List.map_nil, plain_of_kind_ne (hkind hstring),
        replace_of_kind_ne (hkind hstring)]
    | instruction => cases hascii
    | data => cases hascii
    | cell haction =>
      rcases haction with rfl | rfl
      · cases hascii
      · cases hascii

theorem wellFormed_plainIn (hequs : equs.All Token.IsNumeral) {m : Machine} {c : Statement}
    (hc : c.WellFormed m) : (plainIn equs c).WellFormed m := by
  refine hc.mapOperands (fun o ho => ?_) fun _ ho => plain_of_kind_ne ho
  unfold plain
  split
  · split
    · rename_i v hv
      obtain ⟨hkind, hliteral⟩ := hequs.find? hv
      exact .inr ⟨hkind, Token.IsLiteral.integer?_isSome (fun _ => hliteral) hkind⟩
    · exact ho
  · exact ho

end Equ

/-- The number of every constant that is written for a field with named values finds
the same value padded and plain. -/
def Statement.SameValues (equs : Table Token) (c : Statement) : Prop :=
  ∀ {j : Nat} {spec : Instruction} {o : Token} {f : Field} {pos : Nat},
    c.Writes j spec o f pos → f.restricted → f.Finds (Equ.replace equs o) (Equ.plain equs o)

theorem Statement.Writes.mapOperands {c : Statement} {j : Nat} {spec : Instruction} {o : Token}
    {f : Field} {pos : Nat} (h : c.Writes j spec o f pos) (g : Token → Token) :
    ({ c with operands := c.operands.map g } : Statement).Writes j spec (g o) f pos := by
  refine ⟨h.instruction, h.slot, ?_⟩
  rw [List.getElem?_map, h.operand]
  rfl

namespace SourceEnv

variable {env : SourceEnv} {name contents : Text} {s : SourceState} {cs : List Statement}
  {equs : Table Token}

/-- Where all constants find the same values, names and numbers are assembled alike. -/
theorem assembled?_of_sameValues (hread : env.parse name contents = .ok s)
    (hresolve : Equ.resolve s.statements s.equs env.machine.equs = .ok (cs, equs))
    (h : ∀ c ∈ s.statements, c.SameValues equs) (start : UInt64) :
    assembled? env.machine start cs =
      assembled? env.machine start (s.statements.map (Equ.plainIn equs)) := by
  have hwell := (wellFormed_of_parse hread).1
  obtain ⟨rfl, _, hequs, _⟩ := Equ.of_resolve hwell.statements hwell.equs hresolve
  refine assembled?_alike (List.forall₂_map_left_iff.2 (List.forall₂_map_right_iff.2 ?_))
  refine List.forall₂_same.2 fun c hc => ?_
  refine ⟨Equ.alike_plainIn hequs (hwell.statements c hc), ?_⟩
  intro j spec o o' f pos hwrites ho' hrestricted
  obtain ⟨source, hsource, rfl⟩ := hwrites.of_replaceIn
  have hplain := (hsource.mapOperands (Equ.plain equs)).operand
  obtain rfl : Equ.plain equs source = o' := Option.some.inj (hplain.symm.trans ho')
  exact h c hc hsource hrestricted

/-- If names and numbers are assembled to the same cells, all constants find the
same values: the cells hold them. -/
theorem sameValues_of_assembled? (hm : env.machine.Valid) (hread : env.parse name contents = .ok s)
    (hresolve : Equ.resolve s.statements s.equs env.machine.equs = .ok (cs, equs)) {start : UInt64}
    {out : List (UInt64 × List UInt64)} (hnames : assembled? env.machine start cs = some out)
    (hnumbers : assembled? env.machine start (s.statements.map (Equ.plainIn equs)) = some out) :
    ∀ c ∈ s.statements, c.SameValues equs := by
  have hwell := (wellFormed_of_parse hread).1
  obtain ⟨rfl, hcs, hequs, _⟩ := Equ.of_resolve hwell.statements hwell.equs hresolve
  have hcs' : ∀ c ∈ s.statements.map (Equ.plainIn equs), c.WellFormed env.machine :=
    List.forall_mem_map.2 fun c hc => Equ.wellFormed_plainIn hequs (hwell.statements c hc)
  obtain ⟨p, spans, hplaced, hlabels, hp⟩ := placed_of_assembled? hcs hnames
  obtain ⟨p', spans', hplaced', hlabels', hp'⟩ := placed_of_assembled? hcs' hnumbers
  intro c hc j spec o f pos hwrites hrestricted
  obtain ⟨i, hi⟩ := List.mem_iff_getElem?.1 hc
  rcases Equ.alike_plain hequs o with hsame | ⟨hkind, hkind', _⟩
  · rw [Field.Finds, hsame]
  · have hi₁ : (s.statements.map (Equ.replaceIn equs))[i]? = some (Equ.replaceIn equs c) := by
      rw [List.getElem?_map, hi]
      rfl
    have hi₂ : (s.statements.map (Equ.plainIn equs))[i]? = some (Equ.plainIn equs c) := by
      rw [List.getElem?_map, hi]
      rfl
    obtain ⟨b, hb, hsize, hfound⟩ := hplaced.lookup_eq hm hcs hlabels hi₁
      (hwrites.mapOperands (Equ.replace equs)) hkind hrestricted
    obtain ⟨b', hb', hsize', hfound'⟩ := hplaced'.lookup_eq hm hcs' hlabels' hi₂
      (hwrites.mapOperands (Equ.plain equs)) hkind' hrestricted
    have hcells : b.cells = b'.cells := by
      have hpair : some (b.address, b.cells) = some (b'.address, b'.cells) := by
        have hout : out[i]? = some (b.address, b.cells) := by
          rw [hp, List.getElem?_map, hb]
          rfl
        have hout' : out[i]? = some (b'.address, b'.cells) := by
          rw [hp', List.getElem?_map, hb']
          rfl
        exact hout.symm.trans hout'
      exact congrArg Prod.snd (Option.some.inj hpair)
    have hrow : b.row = b'.row := by rw [Block.row, Block.row, hcells, hsize, hsize']
    rw [Field.Finds, hfound, hfound', hrow]

/-- Writing the names of constants or their plain numbers gives the same cells
exactly if all constants find the same values of fields, or if nothing is assembled
either way. If no value of a field has a number for a name, it always does. -/
theorem assembled?_plain_iff {m : Option Machine} (haccept : Assembler.accept m = .ok env.machine)
    (hread : env.parse name contents = .ok s)
    (hresolve : Equ.resolve s.statements s.equs env.machine.equs = .ok (cs, equs))
    (start : UInt64) :
    (assembled? env.machine start cs =
        assembled? env.machine start (s.statements.map (Equ.plainIn equs)) ↔
      (∀ c ∈ s.statements, c.SameValues equs) ∨
        assembled? env.machine start cs = none ∧
        assembled? env.machine start (s.statements.map (Equ.plainIn equs)) = none) ∧
    ((∀ spec ∈ env.machine.instructions, ∀ f ∈ spec.fields, ∀ v ∈ f.values, v.name.toInt? = none) →
      assembled? env.machine start cs =
        assembled? env.machine start (s.statements.map (Equ.plainIn equs))) := by
  have hm := Assembler.valid_of_accept haccept
  have hwell := (wellFormed_of_parse hread).1
  obtain ⟨_, _, hequs, _⟩ := Equ.of_resolve hwell.statements hwell.equs hresolve
  refine ⟨⟨fun heq => ?_, ?_⟩, fun hfree => ?_⟩
  · cases hout : assembled? env.machine start cs with
    | none => exact .inr ⟨rfl, heq ▸ hout⟩
    | some out => exact .inl (sameValues_of_assembled? hm hread hresolve hout (heq ▸ hout))
  · rintro (hvalues | ⟨hnames, hnumbers⟩)
    · exact assembled?_of_sameValues hread hresolve hvalues start
    · rw [hnames, hnumbers]
  · refine assembled?_of_sameValues hread hresolve (fun c hc => ?_) start
    intro j spec o f pos hwrites _
    obtain ⟨hspec, hoperand⟩ := (hwell.statements c hc).operand_of_writes hwrites
    have hf : f ∈ spec.fields := by
      have hslot := List.mem_of_mem_drop (List.mem_of_mem_filter (List.mem_of_getElem? hwrites.slot))
      exact List.fst_mem_of_mem_zipIdx hslot
    -- What is looked up is a number, so that nothing is found.
    have hnone {t : Token} (ht : t.integer?.isSome) : f.lookup t.contents.trim = none := by
      refine List.find?_eq_none.2 fun v hv hname => ?_
      have hv := hfree spec hspec f hf v hv
      rw [beq_iff_eq] at hname
      rw [hname] at hv
      rw [Token.integer?, hv] at ht
      cases ht
    rcases Equ.alike_plain hequs o with hsame | ⟨hkind, _, hinteger⟩
    · rw [Field.Finds, hsame]
    · have hnumber : (Equ.replace equs o).IsNumber :=
        (Equ.isOperand_replace hequs hoperand).isNumber (by rw [hkind]; decide)
      rw [Field.Finds, hnone hnumber.2, hnone (hinteger ▸ hnumber.2)]

end SourceEnv

namespace Sample

/-- A mode with a word and a digit for names. -/
def mode : Field where
  name := "mode"
  bits := 8
  values := [⟨"zero", 0⟩, ⟨"1", 7⟩]

def setMode : Instruction where
  name := "set"
  opcode := 9
  fieldList := some [{ bits := 8 }, mode]

def modeMachine : Machine where
  cellSize := 8
  instructionList := some [setMode]

/-- The digit is written as a constant with a longer name. -/
def modeSource : Text := "mode EQU 1\n set mode\n"

/-- Padded to the width of its name, the digit is not found any more. -/
theorem assembled?_mode : ∃ s cs equs,
    SourceEnv.parse ⟨modeMachine.snapshot, some library⟩ "sample" modeSource = .ok s ∧
    Equ.resolve s.statements s.equs modeMachine.snapshot.equs = .ok (cs, equs) ∧
    assembled? modeMachine.snapshot 0 cs = none ∧
    assembled? modeMachine.snapshot 0 (s.statements.map (Equ.plainIn equs)) = some [(0, [9, 7])] ∧
    ¬∀ c ∈ s.statements, c.SameValues equs := by
  have haccept : Assembler.accept (some modeMachine) = .ok modeMachine.snapshot := by
    decide +kernel
  have hstages : ((SourceState.plainParse? modeMachine.snapshot "sample" modeSource).bind fun s =>
      (Equ.resolve s.statements s.equs modeMachine.snapshot.equs).toOption.map fun r =>
        (assembled? modeMachine.snapshot 0 r.1,
          assembled? modeMachine.snapshot 0 (s.statements.map (Equ.plainIn r.2)))) =
      some (none, some [(0, [9, 7])]) := by decide +kernel
  obtain ⟨s, hs, hstages⟩ := Option.bind_eq_some_iff.1 hstages
  obtain ⟨⟨cs, equs⟩, hresolve, hpair⟩ := Option.map_eq_some_iff.1 hstages
  obtain ⟨hnames, hnumbers⟩ := Prod.mk.inj hpair
  have hread : SourceEnv.parse ⟨modeMachine.snapshot, some library⟩ "sample" modeSource = .ok s :=
    SourceEnv.parse_of_plainParse? hs
  have hresolve := toOption_eq_some.1 hresolve
  refine ⟨s, cs, equs, hread, hresolve, hnames, hnumbers, fun hvalues => ?_⟩
  have hsame := (SourceEnv.assembled?_plain_iff haccept hread hresolve 0).1.2 (.inl hvalues)
  rw [hnames, hnumbers] at hsame
  cases hsame

end Sample

end CellAsm
