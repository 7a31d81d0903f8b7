-- SUMMARY: Every strict operation of the assembler stands behind a check that gives it a result.
import CellAsm.Code.Block
import CellAsm.Proofs.Outcome
import CellAsm.Source.Parse
import CellAsm.Symbol.Label

/-!
# Guarded operations

The reader and the passes index their lists, cut them and divide by operands with strict
operations, and check before each of them that it has a result. The lemmas here give each
function as it is behind its checks, by the shape of its lists, with no strict operation
left. A check that is missing or too weak leaves a fault that such a lemma has no place for.
-/
namespace CellAsm

/-! ## Operands on a line -/

/-- What stands before an operand. -/
inductive Separator
  | start
  | operand
  | comma (t : Token)
deriving DecidableEq, Repr

/-- The operands after what has been read. A comma may only stand between two
operands. -/
def operandsAfter : Separator → List Token → Except Failure (List Token)
  | .comma t, [] => .error (.blame t .trailingComma)
  | _, [] => .ok []
  | before, t :: rest =>
    if t.kind = .comma then
      match before with
      | .operand => operandsAfter (.comma t) rest
      | _ => .error (.blame t .unexpectedComma)
    else do
      let operands ← operandsAfter .operand rest
      return t :: operands

/-- What the loop over the tokens knows when `before` stands in front of the next one. -/
inductive Separator.Known : Separator → Bool → List Token → List Token → Prop
  | start : Known .start true [] []
  | operand {done operands : List Token} (hpos : 0 < operands.length) :
      Known .operand false operands done
  | comma {done operands : List Token} {t : Token} (hpos : 0 < operands.length) :
      Known (.comma t) true operands (done ++ [t])

/-- The rest of the loop, whatever was read before. -/
theorem collectOperands_eq {before : Separator} {comma : Bool} {operands done : List Token}
    (h : before.Known comma operands done) (ts : List Token) :
    (collectOperands comma operands ts >>= fun collected =>
      endOperands (done ++ ts) collected.1 collected.2) =
      operandsAfter before ts >>= fun more => pure (operands ++ more) := by
  induction ts generalizing before comma operands done with
  | nil =>
    rw [collectOperands, ok_bind, List.append_nil]
    dsimp only
    cases h with
    | start => rfl
    | operand => simp [operandsAfter, endOperands, pure, Except.pure]
    | @comma done _ t hpos =>
      rw [endOperands, if_pos ⟨rfl, hpos⟩, Strict.get_last List.getLast?_concat]
      rfl
  | cons t rest ih =>
    by_cases ht : t.kind = .comma
    · rw [collectOperands, if_pos ht]
      cases h with
      | start => simp [operandsAfter, ht]; rfl
      | comma => simp [operandsAfter, ht]; rfl
      | operand hpos =>
        rw [if_neg Bool.false_ne_true, operandsAfter, if_pos ht, List.append_cons]
        exact ih (.comma hpos)
    · have hnext : Separator.Known .operand false (operands ++ [t]) (done ++ [t]) :=
        .operand (by simp)
      have hsplit : operandsAfter before (t :: rest) =
          operandsAfter .operand rest >>= fun more => pure (t :: more) := by
        cases before with
        | start => exact if_neg ht
        | operand => exact if_neg ht
        | comma => exact if_neg ht
      rw [collectOperands, if_neg ht, List.append_cons done, ih hnext, hsplit, bind_assoc]
      simp only [pure_bind, List.append_assoc, List.singleton_append]

theorem splitOperands_eq (ts : List Token) : splitOperands ts = operandsAfter .start ts := by
  have h := collectOperands_eq .start ts
  simp only [List.nil_append, bind_pure] at h
  exact h

/-! ## Templates -/

namespace Template

/-- The lines a call of the template stands for, with as many arguments as parameters. -/
def instantiate (m : Template) (arguments : List Token) : List Line :=
  let pairs := (m.params.map Token.contents).zip arguments
  m.body.map fun line => line.map (substitute pairs)

theorem bindFrom_eq {arguments params : List Token} {i : Nat}
    (h : i + params.length = arguments.length) : bindFrom arguments i params =
      .ok ((params.map Token.contents).zip (arguments.drop i)) := by
  induction params generalizing i with
  | nil => rfl
  | cons p rest ih =>
    have hlt : i < arguments.length := by simp only [List.length_cons] at h; omega
    rw [bindFrom, Strict.get_of_getElem? (List.getElem?_eq_getElem hlt), ok_bind,
      ih (by simp only [List.length_cons] at h; omega), List.drop_eq_getElem_cons hlt]
    rfl

theorem expand_eq (t : Template) {arguments : List Token}
    (h : arguments.length = t.params.length) : t.expand arguments = .ok (t.instantiate arguments) := by
  rw [expand, bindFrom_eq (by omega), ok_bind]
  rfl

end Template

namespace SourceState

variable {m : Machine} {s : SourceState} {keyword name : Token} {rest : List Token}

theorem expansion_eq (t : Template) (call : Token) (rest : List Token) :
    expansion t call rest = splitOperands rest >>= fun arguments =>
      if arguments.length ≠ t.params.length then
        .error (.blame call (.argumentCount t.name.contents t.params.length arguments.length))
      else .ok (t.instantiate arguments) := by
  unfold expansion
  congr 1
  funext arguments
  split
  · rfl
  · rename_i h
    exact t.expand_eq (not_not.1 h)

/-! ## Lines that are no calls -/

@[simp] theorem startsWith_nil (k : TokenKind) : startsWith k [] = .ok false := rfl

@[simp] theorem startsWith_cons (k : TokenKind) (t : Token) (ts : List Token) :
    startsWith k (t :: ts) = .ok (t.kind = k) := by
  simp [startsWith, pure, Except.pure]

/-- The only token, if its kind is accepted. -/
def sole? (accepts : TokenKind → Bool) : List Token → Option Token
  | [t] => if accepts t.kind then some t else none
  | _ => none

theorem soleOf_eq (accepts : TokenKind → Bool) (ts : List Token) :
    soleOf accepts ts = .ok (sole? accepts ts) := by
  match ts with
  | [] => rfl
  | [t] => simp [soleOf, sole?, pure, Except.pure]
  | _ :: _ :: _ => simp [soleOf, sole?]

theorem of_sole? {accepts : TokenKind → Bool} {ts : List Token} {t : Token}
    (h : sole? accepts ts = some t) : ts = [t] ∧ accepts t.kind := by
  match ts with
  | [] => cases h
  | [u] =>
    obtain ⟨haccepts, h⟩ := Option.ite_none_right_eq_some.1 h
    cases h
    exact ⟨rfl, haccepts⟩
  | _ :: _ :: _ => cases h

theorem ascii_eq : s.ascii keyword rest = match sole? (· == .string) rest with
    | some t => .ok (s.emit { action := .ascii, keyword := keyword, operands := [t] })
    | none => .error (.blame keyword (.stringMissing keyword.contents)) := by
  rewrite [ascii, soleOf_eq, ok_bind]
  rfl

theorem cellDirective_eq (action : Action) : s.cellDirective keyword action rest =
    match sole? (fun k => k == .constant || k == .identifier) rest with
    | some t => .ok (s.emit { action := action, keyword := keyword, operands := [t] })
    | none => .error (.blame keyword (.constantMissing keyword.contents)) := by
  rewrite [cellDirective, soleOf_eq, ok_bind]
  rfl

theorem defineEqu_eq : s.defineEqu m keyword name rest = match s.pending with
    | label :: _ => .error (.blame label (.labelOnEqu label.contents))
    | [] =>
      if name.kind ≠ .identifier then .error (.blame name (.equName name.kind))
      else match rest with
        | [value] =>
          match s.equNames.find? name.symbol with
          | some previous => .error (.blame name (.equRedefined name.symbol previous.position))
          | none => do
            checkEquValue m s name.symbol value
            return { s with
              equs := s.equs.insert name.symbol value
              equNames := s.equNames.insert name.symbol name }
        | _ => .error (.blame keyword (.equValueCount name.contents)) := by
  unfold defineEqu
  cases s.pending with
  | cons label more => simp
  | nil =>
    match rest with
    | [] => simp
    | [value] =>
      rewrite [if_neg (by simp)]
      exact if_congr Iff.rfl rfl (if_neg (by simp))
    | _ :: _ :: _ => simp

theorem bracketed_eq (ts : List Token) : bracketed keyword ts = match ts with
    | first :: more =>
      if first.kind = .leftBracket then
        if (more.getLast?.getD first).kind ≠ .rightBracket then
          .error (.blame (more.getLast?.getD first) (.dataUnclosed keyword.contents))
        else if more.dropLast.isEmpty then
          .error (.blame (more.getLast?.getD first) (.dataEmpty keyword.contents))
        else .ok more.dropLast
      else if more.isEmpty then .ok ts
      else .error (.blame keyword (.dataUnbracketed keyword.contents))
    | [] => .error (.blame keyword (.dataUnbracketed keyword.contents)) := by
  cases ts with
  | nil => rfl
  | cons first more =>
    have hlast : (first :: more).getLast? = some (more.getLast?.getD first) := List.getLast?_cons
    rw [bracketed, startsWith_cons, ok_bind, Strict.get_last hlast, ok_bind]
    simp only [decide_eq_true_eq]
    split
    · rename_i hopen
      split
      · rfl
      · rename_i hclosed
        -- a bracket that closes is not the one that opens
        have hne : more ≠ [] := by
          rintro rfl
          rw [List.getLast?_nil, Option.getD_none, hopen] at hclosed
          exact hclosed nofun
        rw [Strict.slice_inner first hne, ok_bind]
    · cases more with
      | nil => rfl
      | cons => simp

theorem afterCount_eq (count first : Token) (more : List Token) :
    afterCount (count :: first :: more) =
      .ok (if first.kind = .comma then more else first :: more) := by
  rw [afterCount, Strict.suffix_cons_one, ok_bind, Strict.get_cons_zero, ok_bind]
  split
  · exact Strict.suffix_cons_one first more
  · rfl

theorem data_eq : s.data keyword rest = match rest with
    | count :: first :: more =>
      if count.kind ≠ .constant then .error (.blame keyword (.dataIncomplete keyword.contents))
      else match count.contents.toInt? with
        | some n =>
          if 1 ≤ n ∧ n ≤ 8 then
            bracketed keyword (if first.kind = .comma then more else first :: more) >>=
              fun values => s.values keyword values n
          else .error (.blame count (.dataWidth keyword.contents))
        | none => .error (.blame count (.dataWidth keyword.contents))
    | _ => .error (.blame keyword (.dataIncomplete keyword.contents)) := by
  match rest with
  | [] => rfl
  | [_] => rfl
  | count :: first :: more =>
    rw [data, if_neg (by simp), Strict.get_cons_zero, ok_bind, afterCount_eq]
    rfl

theorem startTemplate_eq : s.startTemplate m keyword rest = match rest with
    | name :: rest =>
      if name.kind ≠ .identifier then .error (.blame keyword .templateUnnamed)
      else match s.templates.find? name.contents with
        | some previous =>
          .error (.blame name (.templateRedefined name.contents previous.name.position))
        | none =>
          if (m.instruction? name.contents).isSome then
            .error (.blame name (.templateShadows name.contents))
          else do
            let params ← splitOperands rest
            Template.checkParams name [] params
            return { s with defining := some { name := name, params := params } }
    | [] => .error (.blame keyword .templateUnnamed) := by
  cases rest with
  | nil => rfl
  | cons name rest =>
    rw [startTemplate, startsWith_cons, ok_bind, Strict.get_cons_zero, ok_bind,
      Strict.suffix_cons_one, ok_bind]
    exact (if_congr decide_eq_true_iff rfl rfl).trans (ite_not ..).symm

theorem collect_eq (t : Template) (line : Line) : s.collect t line = match line with
    | [] => .ok { s with defining := some { t with body := t.body ++ [line] } }
    | head :: rest =>
      match head.kind with
      | .templateEnd =>
        match rest with
        | extra :: _ => .error (.blame extra (.afterTemplateEnd extra.kind))
        | [] =>
          .ok { s with
            templates := s.templates.insert t.name.contents t
            defining := none
            log := s.log ++ [.templateDefined t.name.contents t.body.length] }
      | .templateStart => .error (.blame head (.templateNested t.name.contents))
      | _ => .ok { s with defining := some { t with body := t.body ++ [line] } } := by
  match line with
  | [] => rfl
  | [head] =>
    rw [collect, if_neg (by simp), Strict.get_cons_zero, ok_bind]
    rfl
  | head :: extra :: more =>
    rewrite [collect, if_neg (by simp), Strict.get_cons_zero, ok_bind, Strict.get_cons_one, ok_bind,
      if_pos (by simp)]
    rfl

/-! ## Lines with labels in front -/

/-- The leading labels of a line wait for the next statement. -/
def addLabels (s : SourceState) (line : Line) : SourceState :=
  { s with pending := s.pending ++ line.takeWhile (·.kind == .label) }

theorem takeLabels_eq (s : SourceState) (line : Line) :
    s.takeLabels line = .ok (s.addLabels line, line.dropWhile (·.kind == .label)) := by
  induction line generalizing s with
  | nil =>
    rw [takeLabels, addLabels, List.takeWhile_nil, List.append_nil]
    rfl
  | cons t rest ih =>
    rw [takeLabels, if_neg (by simp), Strict.get_cons_zero, ok_bind]
    by_cases ht : t.kind = .label
    · rw [if_pos ht, Strict.suffix_cons_one]
      simp [ih, addLabels, ht]
    · simp [addLabels, ht]

theorem equBefore_eq : s.equBefore m keyword rest = match rest with
    | [] => .error (.blame keyword .equIncomplete)
    | name :: value => s.defineEqu m keyword name value := by
  cases rest with
  | nil => rfl
  | cons => simp [equBefore]

/-- The name a line `name EQU value` defines, the keyword, and the value. -/
def equLine? (head : Token) (rest : List Token) : Option (Token × List Token) :=
  match rest with
  | keyword :: value =>
    if head.kind = .identifier ∧ keyword.kind = .equ then some (keyword, value) else none
  | [] => none

theorem startsWith_equ (rest : List Token) : ∃ b, startsWith .equ rest = .ok b ∧
    ∀ head : Token, (head.kind = .identifier ∧ b) ↔ (equLine? head rest).isSome := by
  cases rest with
  | nil => exact ⟨false, rfl, fun head => by simp [equLine?]⟩
  | cons keyword value =>
    refine ⟨_, startsWith_cons .equ keyword value, ?_⟩
    intro head
    simp [equLine?]

theorem equBetween_eq {head : Token} {value : List Token}
    (h : equLine? head rest = some (keyword, value)) :
    s.equBetween m head rest = s.defineEqu m keyword head value := by
  cases rest with
  | nil => cases h
  | cons keyword' value' =>
    obtain ⟨_, h⟩ := Option.ite_none_right_eq_some.1 h
    cases h
    simp [equBetween]

/-- The file name on an include line. -/
def fileName? (ts : List Token) : Option Token := sole? (· == .string) ts

theorem soleOf_string (ts : List Token) : soleOf (· == .string) ts = .ok (fileName? ts) :=
  soleOf_eq ..

/-! ## The end of a program -/

/-- Puts the labels at the end of the program on a statement that emits nothing. -/
def closeLabels (s : SourceState) : SourceState :=
  match s.pending with
  | [] => s
  | label :: _ => s.emit { action := .data, keyword := label, width := 1 }

theorem close_eq (s : SourceState) : s.close = .ok s.closeLabels := by
  unfold close closeLabels
  cases s.pending with
  | nil => rfl
  | cons => simp [pure, Except.pure]

/-- Every name among the operands is known, or is a value of its field. -/
def checkNames (known : Text → Bool) : List (Field × Nat) → List Token → Except Failure Unit
  | _, [] => .ok ()
  | [], o :: rest =>
    if o.kind ≠ .identifier ∨ known o.symbol then checkNames known [] rest
    else .error (.blame o (.undefinedSymbol o.contents))
  | (f, _) :: slots, o :: rest =>
    if o.kind ≠ .identifier ∨ known o.symbol ∨ (f.lookup o.contents).isSome then
      checkNames known slots rest
    else .error (.blame o (.undefinedSymbol o.contents))

end SourceState

/-! ## Fields of operands -/

namespace Instruction

variable {s : Instruction}

theorem length_operandFields (s : Instruction) : s.operandFields.length = s.operandSlots.length :=
  List.length_map ..

theorem getElem?_of_mem_operandSlots {slot : Field × Nat} (h : slot ∈ s.operandSlots) :
    s.fields[slot.2]? = some slot.1 :=
  List.mem_zipIdx_iff_getElem?.1 (List.mem_of_mem_drop (List.mem_of_mem_filter h))

/-- The field of an operand is found by the position of the operand. -/
theorem get_slot {ε : Type} [OfFault ε] {j : Nat} {slot : Field × Nat}
    (h : s.operandSlots[j]? = some slot) :
    Strict.get s.operandFields j = (.ok slot.2 : Except ε Nat) ∧
      Strict.get s.fields slot.2 = (.ok slot.1 : Except ε Field) := by
  constructor
  · apply Strict.get_of_getElem?
    rw [operandFields, List.getElem?_map, h]
    rfl
  · exact Strict.get_of_getElem? (getElem?_of_mem_operandSlots (List.mem_of_getElem? h))

end Instruction

namespace SourceState

theorem checkNamesFrom_eq (known : Text → Bool) (spec : Option Instruction) (j : Nat)
    (operands : List Token) : checkNamesFrom known spec j operands =
      checkNames known (((spec.map Instruction.operandSlots).getD []).drop j) operands := by
  induction operands generalizing j with
  | nil => rw [checkNamesFrom, checkNames]
  | cons o rest ih =>
    rw [checkNamesFrom, ih]
    cases hslot : ((spec.map Instruction.operandSlots).getD [])[j]? with
    | none =>
      have hle := List.getElem?_eq_none_iff.1 hslot
      have hnames : namesValue spec j o = .ok false := by
        cases spec with
        | none => rfl
        | some spec => exact if_neg (by rw [spec.length_operandFields]; exact Nat.not_lt.2 hle)
      rw [hnames, ok_bind, List.drop_eq_nil_of_le hle, List.drop_eq_nil_of_le (Nat.le_succ_of_le hle),
        checkNames]
      rfl
    | some slot =>
      obtain ⟨hlt, rfl⟩ := List.getElem?_eq_some_iff.1 hslot
      cases spec with
      | none => cases hslot
      | some spec =>
        obtain ⟨hi, hf⟩ := Instruction.get_slot (ε := Failure) hslot
        have hnames : namesValue (some spec) j o =
            .ok (spec.operandSlots[j].1.lookup o.contents).isSome := by
          rw [namesValue, if_pos (by rw [spec.length_operandFields]; exact hlt), hi, ok_bind, hf]
          rfl
        rw [hnames, ok_bind, List.drop_eq_getElem_cons hlt, checkNames]
        by_cases hknown : o.kind ≠ .identifier ∨ known o.symbol
        · rw [if_pos hknown, if_pos (or_assoc.1 (.inl hknown))]
        · rw [if_neg hknown]
          simp only [← or_assoc, hknown, false_or]
          rfl

theorem checkCellOperand_eq (labels : List Text) (c : Statement) : checkCellOperand labels c =
    if c.action = .align ∨ c.action = .pos then
      match c.operands with
      | o :: _ =>
        if o.kind = .identifier ∧ o.symbol ∈ labels then
          .error (.blame o (.labelNotAllowed c.keyword.contents))
        else .ok ()
      | [] => .error (.fault .outOfRange)
    else .ok () := by
  unfold checkCellOperand
  split
  · cases c.operands with
    | nil => rfl
    | cons => simp
  · rfl

theorem checkStatements_cons (known : Text → Bool) (labels : List Text) (c : Statement)
    (rest : List Statement) : checkStatements known labels (c :: rest) = (do
      checkNames known ((c.instruction.map Instruction.operandSlots).getD []) c.operands
      checkCellOperand labels c
      checkStatements known labels rest) := by
  rw [checkStatements, checkNamesFrom_eq, List.drop_zero]

end SourceState

/-! ## Lengths and addresses -/

namespace Statement

/-- The sole operand of an alignment or position, and its value. -/
def soleCell (c : Statement) : Except Failure (Token × UInt64) :=
  match c.operands with
  | [o] =>
    if o.kind ≠ .constant then
      .error (.blame o (.constantNeeded c.keyword.contents o.contents))
    else match o.contents.trim.toInt? with
      | none => .error (.blame o (.malformedInteger o.contents))
      | some v =>
        if v < 0 ∨ 2 ^ 64 ≤ v then .error (.blame o (.outOfRange o.contents))
        else .ok (o, UInt64.ofNat v.toNat)
  | _ => .error (.blame c.keyword (.soleOperand c.keyword.contents))

theorem cellOperand_eq (c : Statement) : c.cellOperand = c.soleCell >>= fun x => pure x.2 := by
  unfold cellOperand soleCell
  match c.operands with
  | [] => rfl
  | [o] =>
    rw [if_neg (by simp), Strict.get_cons_zero, ok_bind]
    dsimp only
    split
    · rfl
    · cases o.contents.trim.toInt? with
      | none => rfl
      | some v =>
        dsimp only
        split
        · rfl
        · rfl
  | _ :: _ :: _ => exact if_pos (by simp)

theorem operands_of_soleCell {c : Statement} {x : Token × UInt64} (h : c.soleCell = .ok x) :
    c.operands = [x.1] := by
  unfold soleCell at h
  split at h
  · rename_i o hoperands
    split at h
    · cases h
    · split at h
      · cases h
      · split at h
        · cases h
        · cases h
          exact hoperands
  · cases h

/-- The bits of a number of zero cells that operand `o` asks for. -/
def fillFor (c : Statement) (o : Token) (cells : UInt64) (cellSize : Int) : Except Failure Int :=
  if maxFillCells < cells.toNat then
    .error (.blame o (.fillTooLong c.keyword.contents o.contents cells))
  else .ok ((cells.toNat * cellSize).bmod (2 ^ 64))

theorem fill_eq_fillFor {c : Statement} {o : Token} (h : c.operands = [o]) (cells : UInt64)
    (cellSize : Int) : c.fill cells cellSize = c.fillFor o cells cellSize := by
  rw [fill, h, Strict.get_cons_zero]
  rfl

/-- An alignment divides by its operand, which is not zero. -/
theorem emittedBits_align {c : Statement} (h : c.action = .align) (address : UInt64)
    (cellSize : Int) : c.emittedBits address cellSize = c.soleCell >>= fun x =>
      if x.2 = 0 then .error (.blame x.1 .zeroAlignment)
      else c.fillFor x.1 ((x.2 - address % x.2) % x.2) cellSize := by
  rw [emittedBits, h]
  dsimp only
  rw [cellOperand_eq, bind_assoc]
  refine bind_congr_of_ok fun x hx => ?_
  rw [pure_bind, operands_of_soleCell hx]
  split
  · rfl
  · rename_i hne
    rw [Strict.wordMod_eq hne, ok_bind, Strict.wordMod_eq hne, ok_bind,
      fill_eq_fillFor (operands_of_soleCell hx)]

theorem emittedBits_pos {c : Statement} (h : c.action = .pos) (address : UInt64)
    (cellSize : Int) : c.emittedBits address cellSize = c.soleCell >>= fun x =>
      if x.2 < address then .error (.blame x.1 (.positionBehind x.2 address))
      else c.fillFor x.1 (x.2 - address) cellSize := by
  rw [emittedBits, h]
  dsimp only
  rw [cellOperand_eq, bind_assoc]
  refine bind_congr_of_ok fun x hx => ?_
  rw [pure_bind, operands_of_soleCell hx]
  split
  · rfl
  · exact fill_eq_fillFor (operands_of_soleCell hx) ..

theorem emittedBits_eq (c : Statement) (address : UInt64) (cellSize : Int) :
    c.emittedBits address cellSize = match c.action with
      | .instruction =>
        match c.instruction with
        | some spec => .ok spec.lengthInBits
        | none => .error (.blame c.keyword .noInstruction)
      | .data => .ok (totalWidth (c.operands.map fun _ => 8 * c.width))
      | .ascii => .ok (c.operands.map fun o => 8 * (o.contents.length : Int)).sum
      | .align => c.soleCell >>= fun x =>
        if x.2 = 0 then .error (.blame x.1 .zeroAlignment)
        else c.fillFor x.1 ((x.2 - address % x.2) % x.2) cellSize
      | .pos => c.soleCell >>= fun x =>
        if x.2 < address then .error (.blame x.1 (.positionBehind x.2 address))
        else c.fillFor x.1 (x.2 - address) cellSize
      | .unnamed _ => .error (.blame c.keyword (.unknownAction c.action.text)) := by
  cases h : c.action with
  | instruction =>
    rewrite [emittedBits, h]
    rfl
  | align => rw [emittedBits_align h]
  | pos => rw [emittedBits_pos h]
  | _ => rw [emittedBits, h]

theorem lengthInBits_eq (c : Statement) (address : UInt64) (cellSize : Int) :
    c.lengthInBits address cellSize = c.emittedBits address cellSize >>= fun n =>
      if cellSize = 0 then .error (.fault .divisionByZero)
      else if n.tmod cellSize = 0 then .ok n
      else .error (.blame c.keyword (.partialCell n cellSize)) := by
  unfold lengthInBits
  congr 1
  funext n
  by_cases h : cellSize = 0
  · rw [if_pos h, Strict.mod, if_pos h]
    rfl
  · rw [if_neg h, Strict.mod_eq h, ok_bind]

/-- The number of cells that `n` bits take, as an unsigned word. -/
def cellCount (n cellSize : Int) : Int := cellWord (n.tdiv cellSize)

theorem advance_eq {cellSize : Int} (h : cellSize ≠ 0) (c : Statement) (address : UInt64)
    (n : Int) : c.advance address n cellSize =
      if address.toNat + cellCount n cellSize < 2 ^ 64 then
        .ok (UInt64.ofNat (address.toNat + cellCount n cellSize).toNat)
      else .error (.blame c.keyword (.addressOverflow address)) := by
  rw [advance, Strict.div_eq h, ok_bind]
  rfl

end Statement

/-! ## Operands of instructions -/

namespace Label

/-- The operands of an instruction, each for its slot. -/
def replaceOperands (spec : Instruction) (labels : Table Token) (address next : UInt64) :
    List (Field × Nat) → List Token → Except Failure (List Token)
  | _, [] => .ok []
  | [], _ :: _ => .error (.fault .outOfRange)
  | (f, i) :: slots, o :: rest => do
    let o ← replaceOperand spec labels address next f i o
    return o :: (← replaceOperands spec labels address next slots rest)

theorem replaceFields_eq (spec : Instruction) (labels : Table Token) (address next : UInt64)
    (j : Nat) (operands : List Token) : replaceFields spec labels address next j operands =
      replaceOperands spec labels address next (spec.operandSlots.drop j) operands := by
  induction operands generalizing j with
  | nil => rw [replaceFields, replaceOperands]
  | cons o rest ih =>
    cases hslot : spec.operandSlots[j]? with
    | none =>
      have hle := List.getElem?_eq_none_iff.1 hslot
      rw [List.drop_eq_nil_of_le hle, replaceOperands, replaceFields, Strict.get, dif_neg]
      · rfl
      · rw [spec.length_operandFields]
        omega
    | some slot =>
      obtain ⟨hlt, rfl⟩ := List.getElem?_eq_some_iff.1 hslot
      obtain ⟨hi, hf⟩ := Instruction.get_slot (ε := Failure) hslot
      rw [List.drop_eq_getElem_cons hlt, replaceFields, hi, ok_bind, hf, ok_bind, ih]
      rfl

theorem replaceNames_eq (labels : Table Token) (address next : UInt64) (c : Statement) :
    replaceNames labels address next c = (do
      let operands ← match c.instruction with
        | none => c.operands.mapM (replaceValue labels)
        | some spec => do
          checkCount spec c.operands
          replaceOperands spec labels address next spec.operandSlots c.operands
      return { c with operands := operands }) := by
  unfold replaceNames
  cases c.instruction with
  | none => rfl
  | some spec =>
    dsimp only
    rewrite [replaceFields_eq, List.drop_zero]
    rfl

theorem checkCount_eq (spec : Instruction) (operands : List Token) : checkCount spec operands =
    match operands.drop spec.operandSlots.length with
    | [] => .ok ()
    | o :: _ => .error (.blame o (.tooManyOperands spec.name)) := by
  rw [checkCount, spec.length_operandFields]
  by_cases h : spec.operandSlots.length < operands.length
  · rw [if_pos h, List.drop_eq_getElem_cons h,
      Strict.get_of_getElem? (List.getElem?_eq_getElem h)]
    rfl
  · rw [if_neg h, List.drop_eq_nil_of_le (Nat.not_lt.1 h)]

end Label

namespace Code

/-- Packs fields. One that takes no operand, or whose operand is left out, is zero. -/
def packFields (spec : Instruction) :
    List (Field × Nat) → List Token → Packed → Except Failure Packed
  | [], _, p => .ok p
  | (f, i) :: fields, o :: rest, p =>
    if f.takesOperand then do
      let v ← operandValue o
      fault (checkBits f.bits)
      if f.holds v then packFields spec fields rest (p.append v f.bits)
      else
        .error (.blame o (.valueTooWide v (Instruction.fieldLabel f i) spec.name f.bits f.signed
          f.lo f.hi))
    else do
      let p ← fault (p.appendZeros f.bits)
      packFields spec fields (o :: rest) p
  | (f, _) :: fields, [], p => do
    let p ← fault (p.appendZeros f.bits)
    packFields spec fields [] p

/-- The operands behind those used so far are packed into the fields from position `i` on. -/
theorem packPositions_eq {spec : Instruction} {i n : Nat} (h : i + n = spec.fields.length)
    (operands : List Token) (next : Nat) (p : Packed) :
    packPositions spec operands (List.range' i n) next p =
      packFields spec (spec.fields.zipIdx.drop i) (operands.drop next) p := by
  induction n generalizing i next p with
  | zero =>
    rw [List.range'_zero, List.drop_eq_nil_of_le (by rw [List.length_zipIdx]; omega),
      packPositions, packFields]
  | succ n ih =>
    have hlt : i < spec.fields.length := by omega
    have hfields : spec.fields.zipIdx.drop i =
        (spec.fields[i], i) :: spec.fields.zipIdx.drop (i + 1) := by
      rw [List.drop_eq_getElem_cons (by rw [List.length_zipIdx]; exact hlt), List.getElem_zipIdx,
        Nat.zero_add]
    rw [List.range'_succ, packPositions, hfields,
      Strict.get_of_getElem? (List.getElem?_eq_getElem hlt), ok_bind]
    simp only [ih (show i + 1 + n = spec.fields.length by omega)]
    by_cases hnext : next < operands.length
    · rw [List.drop_eq_getElem_cons hnext, packFields,
        Strict.get_of_getElem? (List.getElem?_eq_getElem hnext), ok_bind]
      cases htakes : spec.fields[i].takesOperand with
      | true => simp [Nat.not_le.2 hnext]
      | false => simp
    · rw [List.drop_eq_nil_of_le (Nat.not_lt.1 hnext), packFields,
        if_pos (.inr (Nat.not_lt.1 hnext))]

theorem packInstruction_eq (spec : Instruction) (operands : List Token) :
    packInstruction spec operands = match spec.fields.zipIdx with
      | [] => .error (.fault .outOfRange)
      | (f, _) :: fields =>
        packFields spec fields operands (Packed.append {} spec.opcode.toNat f.bits) := by
  unfold packInstruction
  cases hfields : spec.fields with
  | nil => rfl
  | cons f fs =>
    have hlength : 1 + fs.length = spec.fields.length := by
      rw [hfields, List.length_cons, Nat.add_comm]
    rw [Strict.get_cons_zero, ok_bind, List.length_cons, Nat.add_sub_cancel,
      packPositions_eq hlength, hfields, List.drop_zero, List.zipIdx_cons]
    rfl

end Code

end CellAsm
