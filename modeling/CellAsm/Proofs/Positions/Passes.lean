-- SUMMARY: What becomes of a program after reading does not depend on the positions of tokens.
import CellAsm.Proofs.Moments
import CellAsm.Proofs.Positions.Reading

/-!
# Passes without positions

Each pass keeps the positions of the tokens it is given and looks at nothing but their
kind and contents. From statements without positions the same program comes, without
positions.
-/
namespace CellAsm

open Corresponds (ok error branch)

def Block.stripped (b : Block) : Block :=
  { b with source := b.source.stripped, operands := b.operands.map Token.stripped }

/-- The program without positions. Addresses, cells, names and numbers stay. -/
def Program.stripped (p : Program) : Program :=
  { p with
    blocks := p.blocks.map Block.stripped
    statements := p.statements.map Statement.stripped
    labels := p.labels.mapValues Token.stripped
    equs := p.equs.mapValues Token.stripped }

/-! ## Checking names -/

namespace SourceState

theorem stripped_closeLabels (s : SourceState) :
    s.closeLabels.stripped = s.stripped.closeLabels := by
  have hpending : s.stripped.pending = s.pending.map Token.stripped := rfl
  unfold closeLabels
  rw [hpending]
  cases s.pending with
  | nil => rfl
  | cons label rest => exact s.stripped_emit _

theorem checkLabels_stripped (m : Machine) (equs : Table Token) (labels : List Token) :
    Corresponds Eq (checkLabels m equs labels)
      (checkLabels m (equs.mapValues Token.stripped) (labels.map Token.stripped)) := by
  induction labels with
  | nil => exact ok rfl
  | cons l rest ih =>
    simp only [List.map_cons, checkLabels, Token.symbol_stripped, Table.contains_mapValues]
    exact branch (fun _ => error) fun _ => branch (fun _ => error) fun _ => ih

theorem checkNames_stripped (known : Text → Bool) (slots : List (Field × Nat))
    (operands : List Token) :
    Corresponds Eq (checkNames known slots operands)
      (checkNames known slots (operands.map Token.stripped)) := by
  induction operands generalizing slots with
  | nil =>
    rw [List.map_nil]
    exact .of_eq fun _ => rfl
  | cons o rest ih =>
    cases slots with
    | nil => exact branch (fun _ => ih []) fun _ => error
    | cons slot slots => exact branch (fun _ => ih slots) fun _ => error

theorem checkCellOperand_stripped (labels : List Text) (c : Statement) :
    Corresponds Eq (checkCellOperand labels c) (checkCellOperand labels c.stripped) := by
  have hoperands : c.stripped.operands = c.operands.map Token.stripped := rfl
  refine branch (fun _ => ?_) fun _ => ok rfl
  rw [hoperands]
  cases c.operands with
  | nil => exact error
  | cons o rest => exact branch (fun _ => error) fun _ => ok rfl

theorem checkStatements_stripped (known : Text → Bool) (labels : List Text) (cs : List Statement) :
    Corresponds Eq (checkStatements known labels cs)
      (checkStatements known labels (cs.map Statement.stripped)) := by
  induction cs with
  | nil => exact ok rfl
  | cons c rest ih =>
    rw [List.map_cons, checkStatements_cons, checkStatements_cons]
    refine (checkNames_stripped known _ c.operands).bind fun _ _ _ _ _ => ?_
    exact (checkCellOperand_stripped labels c).bind fun _ _ _ _ _ => ih

theorem checkExported_stripped (labels : List Text) (names : List Token) :
    Corresponds Eq (checkExported labels names)
      (checkExported labels (names.map Token.stripped)) := by
  induction names with
  | nil => exact ok rfl
  | cons g rest ih => exact branch (fun _ => ih) fun _ => error

theorem labels_stripped (s : SourceState) : s.stripped.labels = s.labels.map Token.stripped := by
  simp only [labels, stripped, List.flatMap_map, List.map_flatMap]
  rfl

theorem checkSymbols_stripped (m : Machine) (s : SourceState) :
    Corresponds Eq (s.checkSymbols m) (s.stripped.checkSymbols m) := by
  have hsymbols : s.stripped.labels.map Token.symbol = s.labels.map Token.symbol := by
    rw [labels_stripped, List.map_map]
    rfl
  have hequs (name : Text) : s.stripped.equs.contains name = s.equs.contains name :=
    Table.contains_mapValues _ _ _
  simp only [checkSymbols, hsymbols, hequs]
  rw [labels_stripped]
  refine (checkLabels_stripped m s.equs s.labels).bind fun _ _ _ _ _ => ?_
  refine (checkStatements_stripped _ _ s.statements).bind fun _ _ _ _ _ => ?_
  exact checkExported_stripped _ s.exports

end SourceState

theorem SourceEnv.conclude_same (env : SourceEnv) {s s' : SourceState} (hs : s.Same s') :
    Corresponds SourceState.Same (env.conclude s) (env.conclude s') := by
  have hclosed : s.closeLabels.Same s'.closeLabels := by
    rw [SourceState.Same, SourceState.stripped_closeLabels, SourceState.stripped_closeLabels, hs]
  have hcheck := s'.closeLabels.checkSymbols_stripped env.machine
  rw [← hclosed] at hcheck
  have hcheck := (s.closeLabels.checkSymbols_stripped env.machine).join hcheck
    fun _ _ _ ha hb => ha.trans hb.symm
  exact (SourceState.attempt_same _ _ hcheck).bind fun _ _ _ _ _ => ok hclosed

/-! ## Constants -/

namespace Equ

theorem merge_stripped (locals : Table Token) (globals : List NamedValue) :
    merge (locals.mapValues Token.stripped) globals =
      (merge locals globals).mapValues Token.stripped := by
  unfold merge
  induction globals generalizing locals with
  | nil => rfl
  | cons g rest ih =>
    rw [List.foldl_cons, List.foldl_cons, Table.contains_mapValues, ← ih]
    split
    · rfl
    · rw [Table.mapValues_insert]
      rfl

theorem strips_chase (table : Table Token) (name : Text) (steps : Nat) (v : Token) :
    Strips Token.stripped (chase table name steps v)
      (chase (table.mapValues Token.stripped) name steps v.stripped) := by
  induction steps generalizing v with
  | zero =>
    unfold chase
    exact branch (fun _ => error) fun _ => branch (fun _ => ok rfl) fun _ => error
  | succ steps ih =>
    unfold chase
    refine branch (fun _ => ?_) fun _ => branch (fun _ => ok rfl) fun _ => error
    rw [Token.symbol_stripped, Table.find?_mapValues]
    cases table.find? v.symbol with
    | none => exact error
    | some w => exact ih w

theorem strips_follow (table : Table Token) (name : Text) :
    Strips Token.stripped (follow table name)
      (follow (table.mapValues Token.stripped) name) := by
  have hfirst : ((table.mapValues Token.stripped).find? name).getD {} =
      ((table.find? name).getD {}).stripped := by
    rw [Table.find?_mapValues]
    cases table.find? name with
    | none => rfl
    | some v => rfl
  rw [follow, follow, hfirst, Table.size_mapValues]
  exact strips_chase table name _ _

theorem strips_resolveTable (table : Table Token) :
    Strips (Table.mapValues Token.stripped) (resolveTable table)
      (resolveTable (table.mapValues Token.stripped)) := by
  have hentries : (table.mapValues Token.stripped).entries =
      table.entries.map (Prod.map id Token.stripped) := rfl
  rw [resolveTable, resolveTable, hentries]
  refine (strips_mapM (Prod.map id Token.stripped) ?_).bind ?_
  · intro e _
    refine (strips_follow table e.1).bind ?_
    rintro v _ _ _ rfl
    exact ok rfl
  · rintro entries _ _ _ rfl
    exact ok (Table.mapValues_ofList _ _).symm

theorem replace_stripped (resolved : Table Token) (o : Token) :
    replace (resolved.mapValues Token.stripped) o.stripped = (replace resolved o).stripped := by
  unfold replace
  rw [Token.kind_stripped, Token.symbol_stripped, Table.find?_mapValues]
  split
  · cases resolved.find? o.symbol with
    | none => rfl
    | some v => rfl
  · rfl

theorem strips_resolve (cs : List Statement) (locals : Table Token) (globals : List NamedValue) :
    Strips (Prod.map (List.map Statement.stripped) (Table.mapValues Token.stripped))
      (resolve cs locals globals)
      (resolve (cs.map Statement.stripped) (locals.mapValues Token.stripped) globals) := by
  unfold resolve
  rw [merge_stripped]
  refine (strips_resolveTable _).bind ?_
  rintro resolved _ _ _ rfl
  refine ok (Prod.ext ?_ rfl)
  simp only [Prod.map_fst, List.map_map, Function.comp_def, Statement.stripped, replace_stripped]

end Equ

/-! ## Places -/

namespace Statement

variable (c : Statement) (address : UInt64) (cellSize : Int)

theorem operands_stripped : c.stripped.operands = c.operands.map Token.stripped := rfl

theorem strips_soleCell :
    Strips (Prod.map Token.stripped id) c.soleCell c.stripped.soleCell := by
  unfold soleCell
  rw [operands_stripped]
  rcases c.operands with _ | ⟨o, _ | ⟨extra, rest⟩⟩
  · exact error
  · refine branch (fun _ => error) fun _ => ?_
    rw [Token.contents_stripped]
    cases o.contents.trim.toInt? with
    | none => exact error
    | some v => exact branch (fun _ => error) fun _ => ok rfl
  · exact error

theorem emittedBits_stripped :
    Corresponds Eq (c.emittedBits address cellSize) (c.stripped.emittedBits address cellSize) := by
  have hinstruction : c.stripped.instruction = c.instruction := rfl
  have hwidth : c.stripped.width = c.width := rfl
  have haction : c.stripped.action = c.action := rfl
  rw [emittedBits_eq, emittedBits_eq, haction]
  cases c.action with
  | instruction =>
    rw [hinstruction]
    cases c.instruction with
    | none => exact error
    | some spec => exact ok rfl
  | data =>
    dsimp only
    rw [operands_stripped, hwidth, List.map_map]
    exact ok rfl
  | ascii =>
    dsimp only
    rw [operands_stripped, List.map_map]
    exact ok rfl
  | align =>
    refine c.strips_soleCell.bind ?_
    rintro ⟨o, v⟩ _ _ _ rfl
    exact branch (fun _ => error) fun _ => branch (fun _ => error) fun _ => ok rfl
  | pos =>
    refine c.strips_soleCell.bind ?_
    rintro ⟨o, v⟩ _ _ _ rfl
    exact branch (fun _ => error) fun _ => branch (fun _ => error) fun _ => ok rfl
  | unnamed n => exact error

theorem lengthInBits_stripped :
    Corresponds Eq (c.lengthInBits address cellSize)
      (c.stripped.lengthInBits address cellSize) := by
  refine (c.emittedBits_stripped address cellSize).bind ?_
  rintro n _ _ _ rfl
  exact .bind_same fun _ _ => branch (fun _ => ok rfl) fun _ => error

theorem advance_stripped (n : Int) :
    Corresponds Eq (c.advance address n cellSize) (c.stripped.advance address n cellSize) :=
  .bind_same fun _ _ => branch (fun _ => ok rfl) fun _ => error

end Statement

/-! ## Labels -/

namespace Label

theorem strips_define (address : UInt64) (labels : Table Token) (names : List Token) :
    Strips (Table.mapValues Token.stripped) (define address labels names)
      (define address (labels.mapValues Token.stripped) (names.map Token.stripped)) := by
  induction names generalizing labels with
  | nil => exact ok rfl
  | cons l rest ih =>
    rw [List.map_cons, define, define, Token.symbol_stripped, Table.find?_mapValues]
    cases labels.find? l.symbol with
    | some previous => exact error
    | none =>
      have h := ih (labels.insert l.symbol
        { kind := .constant, contents := Text.decimal address.toNat, position := l.position,
          legal := true })
      rw [Table.mapValues_insert] at h
      exact h

theorem strips_assignFrom (cellSize : Int) (address : UInt64) (labels : Table Token)
    (cs : List Statement) :
    Strips (Table.mapValues Token.stripped) (assignFrom cellSize address labels cs)
      (assignFrom cellSize address (labels.mapValues Token.stripped)
        (cs.map Statement.stripped)) := by
  induction cs generalizing address labels with
  | nil => exact ok rfl
  | cons c rest ih =>
    refine (strips_define address labels c.labels).bind ?_
    rintro labels _ _ _ rfl
    refine (c.lengthInBits_stripped address cellSize).bind ?_
    rintro n _ _ _ rfl
    refine (c.advance_stripped address cellSize n).bind ?_
    rintro next _ _ _ rfl
    exact ih next labels

variable (labels : Table Token) (address next : UInt64)

theorem named?_stripped (o : Token) :
    named? (labels.mapValues Token.stripped) o.stripped = (named? labels o).map Token.stripped := by
  unfold named?
  rw [Token.kind_stripped, Token.symbol_stripped, Table.find?_mapValues]
  split <;> rfl

theorem strips_replaceValue (o : Token) :
    Strips Token.stripped (replaceValue labels o)
      (replaceValue (labels.mapValues Token.stripped) o.stripped) := by
  refine branch (fun _ => ?_) fun _ => ok rfl
  rw [Token.symbol_stripped, Table.find?_mapValues]
  cases labels.find? o.symbol with
  | none => exact error
  | some l => exact ok rfl

theorem strips_replaceOperand (spec : Instruction) (f : Field) (i : Nat) (o : Token) :
    Strips Token.stripped (replaceOperand spec labels address next f i o)
      (replaceOperand spec (labels.mapValues Token.stripped) address next f i o.stripped) := by
  unfold replaceOperand
  rw [named?_stripped]
  cases named? labels o with
  | some l =>
    dsimp only [Option.map_some, Token.contents_stripped]
    cases l.contents.toInt? with
    | some v => exact ok rfl
    | none => exact error
  | none =>
    refine branch (fun _ => ?_) fun _ => branch (fun _ => ok rfl) fun _ => error
    rw [Token.contents_stripped]
    cases f.lookup o.contents.trim with
    | some v => exact ok rfl
    | none => exact error

theorem strips_replaceOperands (spec : Instruction) (slots : List (Field × Nat))
    (operands : List Token) :
    Strips (List.map Token.stripped) (replaceOperands spec labels address next slots operands)
      (replaceOperands spec (labels.mapValues Token.stripped) address next slots
        (operands.map Token.stripped)) := by
  induction operands generalizing slots with
  | nil =>
    rw [List.map_nil, replaceOperands, replaceOperands]
    exact ok rfl
  | cons o rest ih =>
    cases slots with
    | nil => exact error
    | cons slot slots =>
      refine (strips_replaceOperand labels address next spec slot.1 slot.2 o).bind ?_
      rintro o _ _ _ rfl
      refine (ih slots).bind ?_
      rintro rest _ _ _ rfl
      exact ok rfl

theorem checkCount_stripped (spec : Instruction) (operands : List Token) :
    Corresponds Eq (checkCount spec operands) (checkCount spec (operands.map Token.stripped)) := by
  rw [checkCount_eq, checkCount_eq, ← List.map_drop]
  cases operands.drop spec.operandSlots.length with
  | nil => exact ok rfl
  | cons o rest => exact error

theorem strips_replaceNames (c : Statement) :
    Strips Statement.stripped (replaceNames labels address next c)
      (replaceNames (labels.mapValues Token.stripped) address next c.stripped) := by
  have hinstruction : c.stripped.instruction = c.instruction := rfl
  rw [replaceNames_eq, replaceNames_eq, hinstruction, Statement.operands_stripped]
  cases c.instruction with
  | none =>
    refine (strips_mapM _ fun o _ => strips_replaceValue labels o).bind ?_
    rintro operands _ _ _ rfl
    exact ok rfl
  | some spec =>
    refine (checkCount_stripped spec c.operands).bind fun _ _ _ _ _ => ?_
    refine (strips_replaceOperands labels address next spec _ _).bind ?_
    rintro operands _ _ _ rfl
    exact ok rfl

theorem strips_replaceFrom (cellSize : Int) (cs : List Statement) :
    Strips (List.map Statement.stripped) (replaceFrom labels cellSize address cs)
      (replaceFrom (labels.mapValues Token.stripped) cellSize address
        (cs.map Statement.stripped)) := by
  induction cs generalizing address with
  | nil => exact ok rfl
  | cons c rest ih =>
    refine (c.lengthInBits_stripped address cellSize).bind ?_
    rintro n _ _ _ rfl
    refine (c.advance_stripped address cellSize n).bind ?_
    rintro next _ _ _ rfl
    refine (strips_replaceNames labels address next c).bind ?_
    rintro c _ _ _ rfl
    refine (ih next).bind ?_
    rintro rest _ _ _ rfl
    exact ok rfl

end Label

/-! ## Code -/

namespace Code

theorem operandValue_stripped (o : Token) :
    Corresponds Eq (operandValue o) (operandValue o.stripped) := by
  refine branch (fun _ => ?_) fun _ => error
  rw [Token.contents_stripped]
  cases o.contents.trim.toInt? with
  | some v => exact ok rfl
  | none => exact error

theorem packFields_stripped (spec : Instruction) (fields : List (Field × Nat))
    (operands : List Token) (p : Packed) :
    Corresponds Eq (packFields spec fields operands p)
      (packFields spec fields (operands.map Token.stripped) p) := by
  induction fields generalizing operands p with
  | nil =>
    rw [packFields, packFields]
    exact ok rfl
  | cons field fields ih =>
    cases operands with
    | nil => exact .of_eq fun _ => rfl
    | cons o rest =>
      refine branch (fun _ => ?_) fun _ => ?_
      · refine (operandValue_stripped o).bind ?_
        rintro v _ _ _ rfl
        refine .bind_same fun _ _ => ?_
        exact branch (fun _ => ih rest _) fun _ => error
      · exact .bind_same fun p _ => ih (o :: rest) p

theorem packValues_stripped (bits width : Int) (operands : List Token) (p : Packed) :
    Corresponds Eq (packValues bits width operands p)
      (packValues bits width (operands.map Token.stripped) p) := by
  induction operands generalizing p with
  | nil => exact ok rfl
  | cons o rest ih =>
    refine (operandValue_stripped o).bind ?_
    rintro v _ _ _ rfl
    exact branch (fun _ => ih _) fun _ => error

theorem packBytes_stripped (operands : List Token) :
    packBytes (operands.map Token.stripped) = packBytes operands := by
  rw [packBytes, packBytes, List.flatMap_map]
  rfl

theorem pack_stripped (c : Statement) (n : Int) :
    Corresponds Eq (pack c n) (pack c.stripped n) := by
  have hinstruction : c.stripped.instruction = c.instruction := rfl
  have hwidth : c.stripped.width = c.width := rfl
  have haction : c.stripped.action = c.action := rfl
  unfold pack
  rw [haction, hinstruction, Statement.operands_stripped]
  cases c.action with
  | instruction =>
    cases c.instruction with
    | none => exact error
    | some spec =>
      dsimp only
      rw [packInstruction_eq, packInstruction_eq]
      cases spec.fields.zipIdx with
      | nil => exact error
      | cons f fields => exact packFields_stripped spec fields c.operands _
  | data =>
    rw [hwidth]
    exact branch (fun _ => error) fun _ => packValues_stripped _ _ c.operands {}
  | ascii =>
    rw [packBytes_stripped]
    exact ok rfl
  | align => exact .of_eq fun _ => rfl
  | pos => exact .of_eq fun _ => rfl
  | unnamed k => exact error

theorem strips_block (c : Statement) (address : UInt64) (n cellSize : Int) :
    Strips Block.stripped (block c address n cellSize)
      (block c.stripped address n cellSize) := by
  refine (pack_stripped c n).bind ?_
  rintro packed _ _ _ rfl
  refine branch (fun _ => error) fun _ => ?_
  refine .bind_same fun _ _ => .bind_same fun cells _ => ?_
  exact ok rfl

theorem strips_generateFrom (cellSize : Int) (address : UInt64) (cs : List Statement) :
    Strips (List.map Block.stripped) (generateFrom cellSize address cs)
      (generateFrom cellSize address (cs.map Statement.stripped)) := by
  induction cs generalizing address with
  | nil => exact ok rfl
  | cons c rest ih =>
    refine (c.lengthInBits_stripped address cellSize).bind ?_
    rintro n _ _ _ rfl
    refine (strips_block c address n cellSize).bind ?_
    rintro b _ _ _ rfl
    refine (c.advance_stripped address cellSize n).bind ?_
    rintro next _ _ _ rfl
    refine (ih next).bind ?_
    rintro blocks _ _ _ rfl
    exact ok rfl

end Code

/-! ## All passes -/

namespace SourceEnv

variable (env : SourceEnv) (start : UInt64)

theorem result_finish (s : SourceState) : (env.finish start s).result = do
    let resolved ← Equ.resolve s.statements s.equs env.machine.equs
    let labels ← Label.assign resolved.1 start env.machine.cellSize
    let statements ← Label.replace resolved.1 labels start env.machine.cellSize
    let blocks ← Code.generate statements start env.machine.cellSize
    return {
      blocks := blocks, statements := statements, labels := labels, equs := resolved.2
      exports := s.exports.map Token.symbol, start := start } := by
  dsimp only [finish]
  cases Equ.resolve s.statements s.equs env.machine.equs with
  | error f => rfl
  | ok resolved =>
    dsimp only [ok_bind]
    cases Label.assign resolved.1 start env.machine.cellSize with
    | error f => rfl
    | ok labels =>
      dsimp only [ok_bind]
      cases Label.replace resolved.1 labels start env.machine.cellSize with
      | error f => rfl
      | ok statements =>
        dsimp only [ok_bind, pure_eq]
        cases Code.generate statements start env.machine.cellSize with
        | error f => rfl
        | ok blocks => rfl

theorem strips_finish (s : SourceState) :
    Strips Program.stripped (env.finish start s).result (env.finish start s.stripped).result := by
  rw [result_finish, result_finish]
  refine (Equ.strips_resolve s.statements s.equs env.machine.equs).bind ?_
  rintro resolved _ _ _ rfl
  refine (Label.strips_assignFrom _ start {} resolved.1).bind ?_
  rintro labels _ _ _ rfl
  refine (Label.strips_replaceFrom labels start _ resolved.1).bind ?_
  rintro statements _ _ _ rfl
  refine (Code.strips_generateFrom _ start statements).bind ?_
  rintro blocks _ _ _ rfl
  have hexports : s.stripped.exports.map Token.symbol = s.exports.map Token.symbol :=
    List.map_map
  rw [hexports]
  exact ok rfl

/-- What differs in positions only is assembled alike, apart from positions. -/
theorem finish_same {s s' : SourceState} (hs : s.Same s') :
    Corresponds (fun p q => p.stripped = q.stripped)
      (env.finish start s).result (env.finish start s').result := by
  have h := env.strips_finish start s'
  rw [← hs] at h
  exact (env.strips_finish start s).join h fun _ _ _ ha hb => ha.symm.trans hb

end SourceEnv

end CellAsm
