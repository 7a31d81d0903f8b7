-- SUMMARY: The code of a program does not depend on the names of its labels.
import CellAsm.Proofs.LabelFlow
import CellAsm.Proofs.Punctuation
import CellAsm.Proofs.Transparency

/-!
# Other names for labels

A label is only ever looked up by its name, so that any other names do as well, if they
differ from each other and from the names that are no labels. The passes go over the two
programs side by side: the tables hold the same addresses under other names, an operand
finds the same address, and although it is padded to another width, it holds the same number.
-/
namespace CellAsm

open Statement

/-! ## Identifiers -/

namespace Lexicon

/-- A text that is written from a character that starts a name and others that may be part
of one. -/
def IsIdentifier (lx : Lexicon) (t : Text) : Prop :=
  t = Text.ofChars t.chars ∧ t.chars.head?.any lx.isNameStart ∧ t.chars.all lx.isNameChar

instance (lx : Lexicon) (t : Text) : Decidable (lx.IsIdentifier t) :=
  inferInstanceAs (Decidable (_ ∧ _ ∧ _))

variable {lx : Lexicon} {t : Text}

theorem IsIdentifier.isBlank_eq_false (h : lx.IsIdentifier t) : ∀ c ∈ t.chars, isBlank c = false :=
  fun c hc => isBlank_of_isNameChar (List.all_eq_true.1 h.2.2 c hc)

theorem IsIdentifier.trim_eq (h : lx.IsIdentifier t) : t.trim = t := by
  rw [h.1]
  exact Text.trim_ofChars h.isBlank_eq_false

theorem IsIdentifier.trim_append (h : lx.IsIdentifier t) {c : Char} (hc : isBlank c = false) :
    (t ++ Text.ofChar c).trim = t ++ Text.ofChar c := by
  have hwritten : t ++ Text.ofChar c = Text.ofChars (t.chars ++ [c]) := by
    rw [Text.ofChars_append, ← h.1, Text.ofChars_cons]
    exact congrArg (t ++ ·) (List.append_nil _).symm
  rw [hwritten]
  refine Text.trim_ofChars (List.forall_mem_append.2 ⟨h.isBlank_eq_false, ?_⟩)
  exact List.forall_mem_singleton.2 hc

end Lexicon

/-- A marker is a single byte and no blank. -/
theorem Punctuation.char_isAscii (p : Punctuation) (r : Role) :
    (p.char r).toNat < 0x80 ∧ isBlank (p.char r) = false :=
  p.char_of_all r (P := fun c => c.toNat < 0x80 ∧ isBlank c = false) (by decide +kernel)

/-! ## Statements with other labels -/

/-- The names of all labels of statements. -/
def Statement.labelNames (cs : List Statement) : List Text :=
  (cs.flatMap Statement.labels).map Token.symbol

/-- A statement without its labels. -/
def Statement.unlabelled (c : Statement) : Statement := { c with labels := [] }

/-- Another identifier for each label of the statements. The identifiers are different, and
no operand that names something else has one of them for a name. -/
structure Renaming (p : Punctuation) (cs : List Statement) where
  name : Text → Text
  identifier : ∀ n ∈ labelNames cs, (Lexicon.ofPunctuation p).IsIdentifier (name n)
  injective : ∀ n ∈ labelNames cs, ∀ k ∈ labelNames cs, name n = name k → n = k
  fresh : ∀ c ∈ cs, ∀ o ∈ c.operands, o.kind = .identifier → o.symbol ∉ labelNames cs →
    ∀ n ∈ labelNames cs, name n ≠ o.symbol

namespace Renaming

variable {p : Punctuation} {cs : List Statement} (ρ : Renaming p cs)

/-- The definition of a label under its new name. -/
def label (l : Token) : Token := { l with contents := ρ.name l.symbol ++ Text.ofChar (p.char .label) }

/-- An operand, under its new name if it is the name of a label. -/
def operand (o : Token) : Token :=
  if o.kind = .identifier ∧ o.symbol ∈ labelNames cs then { o with contents := ρ.name o.symbol }
  else o

def statement (c : Statement) : Statement :=
  { c with labels := c.labels.map ρ.label, operands := c.operands.map ρ.operand }

/-! ## Names -/

theorem symbol_label {l : Token} (hkind : l.kind = .label) (hl : l.symbol ∈ labelNames cs) :
    (ρ.label l).symbol = ρ.name l.symbol := by
  obtain ⟨hascii, hblank⟩ := p.char_isAscii .label
  simp only [Token.symbol_eq, label, hkind, if_true] at hl ⊢
  rw [(ρ.identifier _ hl).trim_append hblank, Utf8.ofChar_one hascii, List.dropLast_concat]

theorem operand_of_label {o : Token} (hkind : o.kind = .identifier)
    (ho : o.symbol ∈ labelNames cs) : ρ.operand o = { o with contents := ρ.name o.symbol } :=
  if_pos ⟨hkind, ho⟩

theorem operand_of_not_label {o : Token} (ho : o.symbol ∉ labelNames cs) : ρ.operand o = o :=
  if_neg fun h => ho h.2

theorem operand_of_kind_ne {o : Token} (hkind : o.kind ≠ .identifier) : ρ.operand o = o :=
  if_neg fun h => hkind h.1

@[simp] theorem kind_operand (o : Token) : (ρ.operand o).kind = o.kind := by
  unfold operand
  split <;> rfl

theorem symbol_operand {o : Token} (hkind : o.kind = .identifier) (ho : o.symbol ∈ labelNames cs) :
    (ρ.operand o).symbol = ρ.name o.symbol := by
  have hidentifier := ρ.identifier _ ho
  rw [ρ.operand_of_label hkind ho, Token.symbol_eq]
  dsimp only
  rw [hkind, if_neg (by decide), hidentifier.trim_eq]

/-! ## Addresses of labels -/

variable {T T' : Table Token}

/-- A table of labels has the same addresses under the new names. -/
theorem find?_name (hnew : T.Renamed ρ.name T') (hT : ∀ n ∈ T.names, n ∈ labelNames cs) {n : Text}
    (hn : n ∈ labelNames cs) : T'.find? (ρ.name n) = T.find? n :=
  hnew.find?_eq fun k hk => ρ.injective k (hT k hk) n hn

/-- A label of a renamed program. -/
def Known (cs : List Statement) (l : Token) : Prop := l.kind = .label ∧ l.symbol ∈ labelNames cs

theorem define_corresponds {address : UInt64} {ls : List Token} (hls : ∀ l ∈ ls, Known cs l)
    (hnew : T.Renamed ρ.name T') (hT : ∀ n ∈ T.names, n ∈ labelNames cs) :
    Corresponds (Table.Renamed ρ.name) (Label.define address T ls)
      (Label.define address T' (ls.map ρ.label)) := by
  induction ls generalizing T T' with
  | nil => exact .ok hnew
  | cons l rest ih =>
    obtain ⟨⟨hkind, hl⟩, hrest⟩ := List.forall_mem_cons.1 hls
    have hfind := ρ.find?_name hnew hT hl
    rw [List.map_cons]
    unfold Label.define
    rw [ρ.symbol_label hkind hl, hfind]
    split
    · exact .error
    · rename_i hnone
      have hold := Table.find?_eq_none_iff.1 hnone
      rw [hnone] at hfind
      refine ih hrest (hnew.insert hold (Table.find?_eq_none_iff.1 hfind) _) ?_
      rw [Table.names_insert hold]
      exact List.forall_mem_append.2 ⟨hT, List.forall_mem_singleton.2 hl⟩

/-! ## Places -/

variable {m : Machine} {c : Statement} {address next : UInt64} {cellSize : Int}

theorem soleCell_corresponds (c : Statement) :
    Corresponds Eq c.soleCell (ρ.statement c).soleCell := by
  unfold soleCell statement
  cases c.operands with
  | nil => exact .error
  | cons o rest =>
    cases rest with
    | nil =>
      rw [List.map_cons, List.map_nil]
      dsimp only
      by_cases hkind : o.kind = .identifier
      · rw [if_pos (by rw [hkind]; decide), if_pos (by rw [kind_operand, hkind]; decide)]
        exact .error
      · rw [ρ.operand_of_kind_ne hkind]
        exact .of_eq fun _ => rfl
    | cons => exact .error

theorem emittedBits_corresponds (hc : c.WellFormed m) :
    Corresponds Eq (c.emittedBits address cellSize)
      ((ρ.statement c).emittedBits address cellSize) := by
  have hcell := ρ.soleCell_corresponds c
  cases hc with
  | instruction => exact .ok rfl
  | data =>
    simp only [statement, emittedBits, List.map_const', List.length_map]
    exact .ok rfl
  | ascii hstring =>
    have hkept := ρ.operand_of_kind_ne (by rw [hstring]; decide)
    simp only [statement, emittedBits, List.map_cons, List.map_nil, hkept]
    exact .ok rfl
  | cell haction =>
    rw [emittedBits_eq, emittedBits_eq]
    rcases haction with rfl | rfl
    · refine hcell.bind ?_
      rintro v _ _ _ rfl
      exact .of_eq fun _ => rfl
    · refine hcell.bind ?_
      rintro v _ _ _ rfl
      exact .of_eq fun _ => rfl

theorem lengthInBits_corresponds (hc : c.WellFormed m) :
    Corresponds Eq (c.lengthInBits address cellSize)
      ((ρ.statement c).lengthInBits address cellSize) := by
  refine (ρ.emittedBits_corresponds hc).bind ?_
  rintro n _ _ _ rfl
  exact .of_eq fun _ => rfl

theorem assignFrom_corresponds {rest : List Statement} (hrest : ∀ c ∈ rest, c.WellFormed m)
    (hlabels : ∀ c ∈ rest, ∀ l ∈ c.labels, Known cs l) (hnew : T.Renamed ρ.name T')
    (hT : ∀ n ∈ T.names, n ∈ labelNames cs) :
    Corresponds (Table.Renamed ρ.name) (Label.assignFrom cellSize address T rest)
      (Label.assignFrom cellSize address T' (rest.map ρ.statement)) := by
  induction rest generalizing address T T' with
  | nil => exact .ok hnew
  | cons c rest ih =>
    obtain ⟨hc, hrest⟩ := List.forall_mem_cons.1 hrest
    obtain ⟨hls, hlabels⟩ := List.forall_mem_cons.1 hlabels
    rw [List.map_cons]
    unfold Label.assignFrom
    refine (ρ.define_corresponds hls hnew hT).bind ?_
    intro marked marked' hmarked _ hrenamed
    refine (ρ.lengthInBits_corresponds hc).bind ?_
    rintro n _ _ _ rfl
    refine .bind_same fun next _ => ih hrest hlabels hrenamed ?_
    rw [Label.names_of_define hmarked]
    refine List.forall_mem_append.2 ⟨hT, List.forall_mem_map.2 fun l hl => (hls l hl).2⟩

/-! ## Operands -/

section Operands

variable (hT : T.names = labelNames cs) (hnew : T.Renamed ρ.name T') {o : Token}

include hT

/-- An operand that names no label is left alone. -/
theorem operand_of_named?_eq_none (h : Label.named? T o = none) : ρ.operand o = o := by
  by_cases hkind : o.kind = .identifier
  · rw [Label.named?, if_pos hkind, Table.find?_eq_none_iff, hT] at h
    exact ρ.operand_of_not_label h
  · exact ρ.operand_of_kind_ne hkind

include hnew

/-- An operand finds the address that it found under its old name. -/
theorem named?_operand (hc : c ∈ cs) (ho : o ∈ c.operands) :
    Label.named? T' (ρ.operand o) = Label.named? T o := by
  unfold Label.named?
  rw [kind_operand]
  split
  · rename_i hkind
    by_cases hlabel : o.symbol ∈ labelNames cs
    · rw [ρ.symbol_operand hkind hlabel, ρ.find?_name hnew (fun n hn => hT ▸ hn) hlabel]
    · have hnone : T.find? o.symbol = none := Table.find?_eq_none_iff.2 (hT ▸ hlabel)
      rw [ρ.operand_of_not_label hlabel, hnone, Table.find?_eq_none_iff, hnew.names_eq, hT,
        List.mem_map]
      rintro ⟨n, hn, hsame⟩
      exact ρ.fresh c hc o ho hkind hlabel n hn hsame
  · rfl

theorem replaceOperand_corresponds (hc : c ∈ cs) (ho : o ∈ c.operands) (spec : Instruction)
    (f : Field) (i : Nat) :
    Corresponds Token.Alike (Label.replaceOperand spec T address next f i o)
      (Label.replaceOperand spec T' address next f i (ρ.operand o)) := by
  have hnamed := ρ.named?_operand hT hnew hc ho
  unfold Label.replaceOperand
  rw [hnamed]
  cases hlabel : Label.named? T o with
  | none =>
    rw [ρ.operand_of_named?_eq_none hT hlabel]
    exact .of_eq .refl
  | some l =>
    dsimp only
    split
    · -- The padding is that of another name, the number is the same.
      refine .ok (.inr ⟨rfl, rfl, ?_⟩)
      rw [Token.integer?_carrying_decimal, Token.integer?_carrying_decimal]
    · exact .error

theorem replaceValue_corresponds (hnumerals : T.All Token.IsNumeral) (hc : c ∈ cs)
    (ho : o ∈ c.operands) :
    Corresponds Token.Alike (Label.replaceValue T o) (Label.replaceValue T' (ρ.operand o)) := by
  have hnamed := ρ.named?_operand hT hnew hc ho
  unfold Label.replaceValue
  rw [kind_operand]
  by_cases hkind : o.kind = .identifier
  · simp only [Label.named?, kind_operand, hkind, if_true] at hnamed
    rw [if_pos hkind, if_pos hkind, hnamed]
    split
    · rename_i l hl
      obtain ⟨hconstant, hliteral⟩ := hnumerals.find? hl
      obtain ⟨v, hv⟩ := Option.isSome_iff_exists.1 hliteral
      refine .ok (.inr ⟨hconstant, hconstant, ?_⟩)
      rw [Token.integer?_carrying _ _ hv, Token.integer?_carrying _ _ hv]
    · exact .error
  · rw [if_neg hkind, if_neg hkind, ρ.operand_of_kind_ne hkind]
    exact .ok (.refl o)

/-- Once names are replaced, a statement differs from the renamed one in its labels and in how
numbers are written. -/
theorem replaceNames_corresponds (hnumerals : T.All Token.IsNumeral) (hmem : c ∈ cs)
    (hc : c.WellFormed m) :
    Corresponds (fun r r' => r.unlabelled.Alike r'.unlabelled) (Label.replaceNames T address next c)
      (Label.replaceNames T' address next (ρ.statement c)) := by
  have hdirective (hspec : c.instruction = none) (haction : c.action ≠ .ascii) :
      Corresponds (fun r r' => r.unlabelled.Alike r'.unlabelled)
        (Label.replaceNames T address next c)
        (Label.replaceNames T' address next (ρ.statement c)) := by
    rw [Label.replaceNames_of_directive hspec, Label.replaceNames_of_directive (by exact hspec)]
    refine (Corresponds.mapM (S := Token.Alike) ?_).bind fun _ _ _ _ hoperands => ?_
    · refine List.forall₂_map_right_iff.2 (List.forall₂_same.2 fun o ho => ?_)
      exact ρ.replaceValue_corresponds hT hnew hnumerals hmem ho
    · exact .ok (.intro hoperands fun hascii => absurd hascii haction)
  cases hc with
  | @instruction _ spec _ operands _ _ _ hmost =>
    rw [Label.replaceNames_of_instruction rfl hmost,
      Label.replaceNames_of_instruction rfl (by simpa [statement] using hmost)]
    refine (Corresponds.mapM (S := Token.Alike) ?_).bind fun _ _ _ _ hoperands => ?_
    · dsimp only [statement]
      rw [List.zip_map_right]
      refine List.forall₂_map_right_iff.2 (List.forall₂_same.2 fun slot hslot => ?_)
      have ho := (List.of_mem_zip hslot).2
      exact ρ.replaceOperand_corresponds hT hnew hmem ho spec slot.1.1 slot.1.2
    · refine .ok (.intro hoperands ?_)
      rintro ⟨⟩
  | data => exact hdirective rfl (by rintro ⟨⟩)
  | @ascii _ _ t hstring =>
    have hkind : t.kind ≠ .identifier := by
      rw [hstring]
      decide
    rw [Label.replaceNames_of_directive rfl, Label.replaceNames_of_directive rfl]
    simp only [statement, List.map_cons, List.map_nil, List.mapM_cons, List.mapM_nil,
      ρ.operand_of_kind_ne hkind, Label.replaceValue_of_kind_ne hkind, ok_bind, pure_eq]
    exact .ok (.refl _)
  | cell haction =>
    refine hdirective rfl ?_
    rcases haction with rfl | rfl
    · rintro ⟨⟩
    · rintro ⟨⟩

theorem replaceFrom_corresponds (hnumerals : T.All Token.IsNumeral) {rest : List Statement}
    (hmem : ∀ c ∈ rest, c ∈ cs) (hrest : ∀ c ∈ rest, c.WellFormed m) :
    Corresponds (fun rs rs' =>
        List.Forall₂ Statement.Alike (rs.map unlabelled) (rs'.map unlabelled))
      (Label.replaceFrom T cellSize address rest)
      (Label.replaceFrom T' cellSize address (rest.map ρ.statement)) := by
  induction rest generalizing address with
  | nil => exact .ok .nil
  | cons c rest ih =>
    obtain ⟨hc, hrest⟩ := List.forall_mem_cons.1 hrest
    obtain ⟨hfirst, hmem⟩ := List.forall_mem_cons.1 hmem
    rw [List.map_cons]
    unfold Label.replaceFrom
    refine (ρ.lengthInBits_corresponds hc).bind ?_
    rintro n _ _ _ rfl
    refine .bind_same fun next _ => ?_
    refine (ρ.replaceNames_corresponds hT hnew hnumerals hfirst hc).bind fun _ _ _ _ hr => ?_
    exact (ih hmem hrest).bind fun _ _ _ _ hrs => .ok (.cons hr hrs)

end Operands

end Renaming

/-! ## Code -/

/-- The code of statements does not depend on their labels. -/
theorem Code.generateFrom_unlabelled (cellSize : Int) (address : UInt64) (cs : List Statement) :
    generateFrom cellSize address (cs.map unlabelled) = generateFrom cellSize address cs := by
  induction cs generalizing address with
  | nil => rfl
  | cons c rest ih =>
    rw [List.map_cons]
    unfold generateFrom
    simp only [ih]
    rfl

/-- The labels and the code of statements whose constants are replaced. -/
def Statement.coded (m : Machine) (start : UInt64) (cs : List Statement) :
    Except Failure (Table Token × List Block) := do
  let labels ← Label.assign cs start m.cellSize
  let rs ← Label.replace cs labels start m.cellSize
  let blocks ← Code.generate rs start m.cellSize
  return (labels, blocks)

namespace SourceEnv

variable {env : SourceEnv} {name contents : Text} {s : SourceState} {cs : List Statement}
  {equs : Table Token}

theorem kind_of_mem_labels (h : env.parse name contents = .ok s) :
    ∀ l ∈ s.labels, l.kind = .label := by
  obtain ⟨ms, gathered, hrun, rfl, _⟩ := exists_run_of_parse h
  have hcarries : gathered.Carries ms := hrun.keeps SourceState.Carries.moves SourceState.Carries.start
  rw [hcarries.labels_closeLabels]
  intro l hl
  obtain ⟨moment, _, hl⟩ := List.mem_flatMap.1 hl
  unfold Moment.labels Line.labels at hl
  split at hl
  · have hkind := List.mem_takeWhile_imp hl
    exact beq_iff_eq.1 hkind
  · cases hl

/-- Under other names for its labels a program has the same code: it is assembled exactly if
it was before, the addresses and the cells are the same, and the table has the new names. -/
theorem coded_renamed (hread : env.parse name contents = .ok s)
    (hresolve : Equ.resolve s.statements s.equs env.machine.equs = .ok (cs, equs))
    (ρ : Renaming env.machine.punctuationTable cs) (start : UInt64) :
    Corresponds (fun r r' => r.1.Renamed ρ.name r'.1 ∧
        List.Forall₂ (fun b b' => b.address = b'.address ∧ b.cells = b'.cells) r.2 r'.2)
      (coded env.machine start cs) (coded env.machine start (cs.map ρ.statement)) := by
  have hwell := (wellFormed_of_parse hread).1
  obtain ⟨hcs, hformed, _⟩ := Equ.of_resolve hwell.statements hwell.equs hresolve
  have hlabels : ∀ c ∈ cs, ∀ l ∈ c.labels, Renaming.Known cs l := by
    intro c hc l hl
    have hmem : l ∈ cs.flatMap Statement.labels := List.mem_flatMap.2 ⟨c, hc, hl⟩
    refine ⟨kind_of_mem_labels hread l ?_, List.mem_map_of_mem hmem⟩
    rw [hcs, List.flatMap_map] at hmem
    exact hmem
  unfold coded
  refine (ρ.assignFrom_corresponds hformed hlabels (.empty _) (List.forall_mem_nil _)).bind ?_
  intro table table' htable _ hrenamed
  have hnames := Label.names_of_assign htable
  have hnumerals := Label.all_of_assignFrom htable (Table.All.empty _)
  refine (ρ.replaceFrom_corresponds hnames hrenamed hnumerals (fun _ h => h) hformed).bind ?_
  intro rs rs' _ _ hrs
  have hcode := @Code.generateFrom_alike env.machine.cellSize start _ _ hrs
  rw [Code.generateFrom_unlabelled, Code.generateFrom_unlabelled] at hcode
  exact hcode.bind fun _ _ _ _ hblocks => .ok ⟨hrenamed, hblocks⟩

end SourceEnv

namespace Sample

/-- The statements of a program with names of all kinds. -/
def resolved : List Statement :=
  (Equ.resolve (read source).statements (read source).equs assembler.machine.equs).toOption.elim []
    Prod.fst

theorem resolved_read : (SourceState.plainParse? assembler.machine "sample" source).isSome ∧
    (Equ.resolve (read source).statements (read source).equs assembler.machine.equs).toOption.map
      Prod.fst = some resolved ∧
    labelNames resolved = (["top", "end"] : List Text) ∧
    (∀ c ∈ resolved, ∀ o ∈ c.operands, o.kind = .identifier → o.symbol ∉ labelNames resolved →
      o.symbol = Text.ofString "r1") ∧
    (coded assembler.machine 0 resolved).toOption.map (fun r => r.2.map (·.cells)) =
      some [[1, 6], [0, 0], [2, 1], [1, 250], [255, 255, 0, 6], [104, 105]] := by decide +kernel

/-- One label gets the name that the other had, and that one gets a longer name. -/
def rename (n : Text) : Text := if n = Text.ofString "top" then "end" else "finish"

def renamed : Renaming assembler.machine.punctuationTable resolved where
  name := rename
  identifier := by
    rw [resolved_read.2.2.1]
    decide +kernel
  injective := by
    rw [resolved_read.2.2.1]
    decide +kernel
  fresh c hc o ho hkind hlabel := by
    rw [resolved_read.2.2.2.1 c hc o ho hkind hlabel, resolved_read.2.2.1]
    decide +kernel

/-- The cells are the same, although one label has the name of another and that one has a
longer name. -/
theorem coded_names : ∃ r r', coded assembler.machine 0 resolved = .ok r ∧
    coded assembler.machine 0 (resolved.map renamed.statement) = .ok r' ∧
    r.2.map (·.cells) = [[1, 6], [0, 0], [2, 1], [1, 250], [255, 255, 0, 6], [104, 105]] ∧
    r'.1.names = (["end", "finish"] : List Text) ∧
    List.Forall₂ (fun b b' => b.address = b'.address ∧ b.cells = b'.cells) r.2 r'.2 := by
  obtain ⟨hread, hresolve, hlabels, _, hcoded⟩ := resolved_read
  obtain ⟨⟨cs, equs⟩, hresolve, hcs⟩ := Option.map_eq_some_iff.1 hresolve
  obtain ⟨r, hr, hcells⟩ := Option.map_eq_some_iff.1 hcoded
  have hr := toOption_eq_some.1 hr
  have hresolve := toOption_eq_some.1 hresolve
  obtain rfl : cs = resolved := hcs
  have hrenamed := SourceEnv.coded_renamed (parse_eq_read hread) hresolve renamed 0
  rw [hr] at hrenamed
  obtain ⟨r', hr', htable, hblocks⟩ := hrenamed.exists_ok
  refine ⟨r, r', hr, hr', hcells, ?_, hblocks⟩
  simp only [coded, bind_eq_ok, pure_eq_ok] at hr
  obtain ⟨table, hassign, _, _, _, _, rfl⟩ := hr
  rw [htable.names_eq, Label.names_of_assign hassign]
  exact congrArg (List.map rename) hlabels

end Sample

end CellAsm
