-- SUMMARY: The form of the statements that reading a program produces.
import CellAsm.Proofs.Reading
import CellAsm.Proofs.Scanning
import CellAsm.Proofs.Table
import CellAsm.Proofs.Validity

/-!
# Statements of a program

A statement that was read is an instruction of the machine with as many operands
as it takes, data of one to eight bytes each, a single string, or an alignment or
position with one operand. Every constant among its operands is an integer
literal, and every name is without blanks around it. The passes after reading rely
on this form.
-/
namespace CellAsm

/-! ## Statements and what has been gathered -/

/-- An operand that holds an integer, perhaps with blanks around it. -/
def Token.IsNumber (o : Token) : Prop := o.kind = .constant ∧ o.integer?.isSome

/-- An operand that is a name without blanks around it. -/
def Token.IsName (o : Token) : Prop := o.kind = .identifier ∧ o.contents.trim = o.contents

/-- An operand of an instruction or of a directive: a name, or a number. -/
def Token.IsOperand (o : Token) : Prop := o.IsName ∨ o.IsNumber

theorem Token.IsOperand.isNumber {o : Token} (h : o.IsOperand) (hkind : o.kind ≠ .identifier) :
    o.IsNumber :=
  h.resolve_left fun hname => hkind hname.1

theorem Token.IsScanned.isOperand {o : Token} (h : o.IsScanned)
    (hkind : o.kind = .identifier ∨ o.kind = .constant) : o.IsOperand := by
  rcases hkind with hkind | hkind
  · exact .inl ⟨hkind, h.trimmed hkind⟩
  · exact .inr ⟨hkind, h.literal.integer?_isSome hkind⟩

/-- The forms of the statements of a program for machine `m`, with operands that
have the property `P`. -/
inductive Statement.Formed (m : Machine) (P : Token → Prop) : Statement → Prop
  | instruction {labels : List Token} {spec : Instruction} {keyword : Token} {operands : List Token}
      (hspec : spec ∈ m.instructions) (hoperands : ∀ o ∈ operands, P o)
      (hleast : spec.minOperands ≤ operands.length)
      (hmost : operands.length ≤ spec.operandSlots.length) :
      Formed m P
        { labels := labels, instruction := some spec, keyword := keyword, operands := operands }
  | data {labels : List Token} {keyword : Token} {operands : List Token} {width : Int}
      (hoperands : ∀ o ∈ operands, P o) (hwidth : 1 ≤ width ∧ width ≤ 8) :
      Formed m P
        { labels := labels, action := .data, keyword := keyword, operands := operands
          width := width }
  | ascii {labels : List Token} {keyword t : Token} (hstring : t.kind = .string) :
      Formed m P { labels := labels, action := .ascii, keyword := keyword, operands := [t] }
  | cell {labels : List Token} {action : Action} {keyword o : Token}
      (haction : action = .align ∨ action = .pos) (hoperand : P o) :
      Formed m P { labels := labels, action := action, keyword := keyword, operands := [o] }

/-- A statement as it is read. -/
abbrev Statement.WellFormed (m : Machine) : Statement → Prop := Formed m Token.IsOperand

theorem Statement.WellFormed.withLabels {m : Machine} {c : Statement} (h : c.WellFormed m)
    (labels : List Token) : ({ c with labels := labels } : Statement).WellFormed m := by
  cases h with
  | instruction hspec hoperands hleast hmost => exact .instruction hspec hoperands hleast hmost
  | data hoperands hwidth => exact .data hoperands hwidth
  | ascii hstring => exact .ascii hstring
  | cell haction hoperand => exact .cell haction hoperand

def Template.IsScanned (t : Template) : Prop := ∀ line ∈ t.body, ∀ tok ∈ line, tok.IsScanned

/-- What has been gathered is well formed. -/
structure SourceState.WellFormed (m : Machine) (s : SourceState) : Prop where
  statements : ∀ c ∈ s.statements, c.WellFormed m
  equs : s.equs.All Token.IsLiteral
  templates : s.templates.All Template.IsScanned
  defining : ∀ t, s.defining = some t → t.IsScanned

/-! ## Operands on a line -/

theorem mem_of_operandsAfter {before : Separator} {ts operands : List Token}
    (h : operandsAfter before ts = .ok operands) : ∀ o ∈ operands, o ∈ ts := by
  induction ts generalizing before operands with
  | nil =>
    cases before <;> cases h <;> intro o ho <;> cases ho
  | cons t rest ih =>
    intro o ho
    by_cases hcomma : t.kind = .comma
    · cases before with
      | operand =>
        simp only [operandsAfter, hcomma, if_true] at h
        exact List.mem_cons_of_mem _ (ih h o ho)
      | start => simp [operandsAfter, hcomma] at h
      | comma _ => simp [operandsAfter, hcomma] at h
    · have hcons : ∃ more, operandsAfter .operand rest = .ok more ∧ t :: more = operands := by
        cases before <;> simpa [operandsAfter, hcomma] using h
      obtain ⟨more, hmore, rfl⟩ := hcons
      rcases List.mem_cons.1 ho with rfl | ho
      · exact List.mem_cons_self
      · exact List.mem_cons_of_mem _ (ih hmore o ho)

theorem mem_of_splitOperands {ts operands : List Token} (h : splitOperands ts = .ok operands) :
    ∀ o ∈ operands, o ∈ ts := by
  rw [splitOperands_eq] at h
  exact mem_of_operandsAfter h

namespace SourceState

theorem isOperand_of_checkOperands {cause : TokenKind → Cause} {operands : List Token}
    (hscanned : ∀ o ∈ operands, o.IsScanned) (h : checkOperands cause operands = .ok ()) :
    ∀ o ∈ operands, o.IsOperand := by
  induction operands with
  | nil => exact List.forall_mem_nil _
  | cons o rest ih =>
    obtain ⟨ho, hrest⟩ := List.forall_mem_cons.1 hscanned
    unfold checkOperands at h
    split at h
    · rename_i hkind
      exact List.forall_mem_cons.2 ⟨ho.isOperand hkind, ih hrest h⟩
    · cases h

/-! ## Every kind of line keeps what has been gathered well formed -/

namespace WellFormed

variable {m : Machine} {s s' : SourceState} {keyword head : Token} {rest : List Token}

theorem emit (h : s.WellFormed m) {c : Statement} (hc : c.WellFormed m) :
    (s.emit c).WellFormed m where
  statements := List.forall_mem_append.2
    ⟨h.statements, List.forall_mem_singleton.2 (hc.withLabels s.pending)⟩
  equs := h.equs
  templates := h.templates
  defining := h.defining

theorem instruction (h : s.WellFormed m) (hrest : ∀ t ∈ rest, t.IsScanned)
    (hs' : s.instruction m head rest = .ok s') : s'.WellFormed m := by
  unfold SourceState.instruction at hs'
  split at hs'
  · cases hs'
  · rename_i spec hspec
    simp only [bind_eq_ok] at hs'
    obtain ⟨operands, hsplit, _, hcheck, hs'⟩ := hs'
    split at hs'
    · cases hs'
    · rename_i hcount
      cases hs'
      have hscanned : ∀ o ∈ operands, o.IsScanned :=
        fun o ho => hrest o (mem_of_splitOperands hsplit o ho)
      exact h.emit (.instruction (Machine.instruction?_mem hspec)
        (isOperand_of_checkOperands hscanned hcheck) (by omega) (by omega))

theorem defineEqu {name : Token} (h : s.WellFormed m) (hrest : ∀ t ∈ rest, t.IsScanned)
    (hs' : s.defineEqu m keyword name rest = .ok s') : s'.WellFormed m := by
  rw [defineEqu_eq] at hs'
  split at hs'
  · cases hs'
  · split at hs'
    · cases hs'
    · split at hs'
      · rename_i value
        split at hs'
        · cases hs'
        · simp only [bind_eq_ok, pure_eq_ok] at hs'
          obtain ⟨_, _, rfl⟩ := hs'
          exact ⟨h.statements, h.equs.insert (hrest value List.mem_cons_self).literal, h.templates,
            h.defining⟩
      · cases hs'

theorem exportNames (h : s.WellFormed m) (hs' : s.exportNames keyword rest = .ok s') :
    s'.WellFormed m := by
  simp only [SourceState.exportNames, bind_eq_ok] at hs'
  obtain ⟨names, _, hs'⟩ := hs'
  split at hs'
  · cases hs'
  · simp only [bind_eq_ok, pure_eq_ok] at hs'
    obtain ⟨_, _, rfl⟩ := hs'
    exact ⟨h.statements, h.equs, h.templates, h.defining⟩

theorem ascii (h : s.WellFormed m) (hs' : s.ascii keyword rest = .ok s') : s'.WellFormed m := by
  rw [ascii_eq] at hs'
  split at hs'
  · rename_i t hsole
    cases hs'
    exact h.emit (.ascii (beq_iff_eq.1 (of_sole? hsole).2))
  · cases hs'

theorem values {width : Int} (h : s.WellFormed m) (hrest : ∀ t ∈ rest, t.IsScanned)
    (hwidth : 1 ≤ width ∧ width ≤ 8) (hs' : s.values keyword rest width = .ok s') :
    s'.WellFormed m := by
  simp only [SourceState.values, bind_eq_ok, pure_eq_ok] at hs'
  obtain ⟨operands, hsplit, _, hcheck, rfl⟩ := hs'
  have hscanned : ∀ o ∈ operands, o.IsScanned :=
    fun o ho => hrest o (mem_of_splitOperands hsplit o ho)
  exact h.emit (.data (isOperand_of_checkOperands hscanned hcheck) hwidth)

theorem sized {width : Int} (h : s.WellFormed m) (hrest : ∀ t ∈ rest, t.IsScanned)
    (hwidth : 1 ≤ width ∧ width ≤ 8) (hs' : s.sized keyword rest width = .ok s') :
    s'.WellFormed m := by
  unfold SourceState.sized at hs'
  split at hs'
  · cases hs'
  · exact h.values hrest hwidth hs'

theorem mem_of_bracketed {ts values : List Token} (h : bracketed keyword ts = .ok values) :
    ∀ t ∈ values, t ∈ ts := by
  rw [bracketed_eq] at h
  split at h
  · rename_i first more
    split at h
    · split at h
      · cases h
      · split at h
        · cases h
        · cases h
          intro t ht
          exact List.mem_cons_of_mem _ ((List.dropLast_sublist more).mem ht)
    · split at h
      · cases h
        exact fun t ht => ht
      · cases h
  · cases h

theorem data (h : s.WellFormed m) (hrest : ∀ t ∈ rest, t.IsScanned)
    (hs' : s.data keyword rest = .ok s') : s'.WellFormed m := by
  rw [data_eq] at hs'
  split at hs'
  · rename_i count first more
    have hafter : ∀ t ∈ (if first.kind = .comma then more else first :: more), t.IsScanned := by
      intro t ht
      split at ht
      · exact hrest t (List.mem_cons_of_mem _ (List.mem_cons_of_mem _ ht))
      · exact hrest t (List.mem_cons_of_mem _ ht)
    split at hs'
    · cases hs'
    · split at hs'
      · split at hs'
        · rename_i hwidth
          simp only [bind_eq_ok] at hs'
          obtain ⟨values, hvalues, hs'⟩ := hs'
          exact h.values (fun t ht => hafter t (mem_of_bracketed hvalues t ht)) hwidth hs'
        · cases hs'
      · cases hs'
  · cases hs'

theorem cellDirective {action : Action} (haction : action = .align ∨ action = .pos)
    (h : s.WellFormed m) (hrest : ∀ t ∈ rest, t.IsScanned)
    (hs' : s.cellDirective keyword action rest = .ok s') : s'.WellFormed m := by
  rw [cellDirective_eq] at hs'
  split at hs'
  · rename_i t hsole
    obtain ⟨rfl, hkind⟩ := of_sole? hsole
    cases hs'
    refine h.emit (.cell haction ((hrest t List.mem_cons_self).isOperand ?_))
    simpa [or_comm] using hkind
  · cases hs'

theorem startTemplate (h : s.WellFormed m) (hs' : s.startTemplate m keyword rest = .ok s') :
    s'.WellFormed m := by
  rw [startTemplate_eq] at hs'
  split at hs'
  · split at hs'
    · cases hs'
    · split at hs'
      · cases hs'
      · split at hs'
        · cases hs'
        · simp only [bind_eq_ok, pure_eq_ok] at hs'
          obtain ⟨params, _, _, _, rfl⟩ := hs'
          refine ⟨h.statements, h.equs, h.templates, ?_⟩
          intro t ht
          cases ht
          exact List.forall_mem_nil _
  · cases hs'

theorem collect {t : Template} {line : Line} (h : s.WellFormed m)
    (hline : ∀ tok ∈ line, tok.IsScanned) (hdefining : s.defining = some t)
    (hs' : s.collect t line = .ok s') : s'.WellFormed m := by
  have hbody : ({ t with body := t.body ++ [line] } : Template).IsScanned :=
    List.forall_mem_append.2 ⟨h.defining t hdefining, List.forall_mem_singleton.2 hline⟩
  have hmore : ({ s with defining := some { t with body := t.body ++ [line] } } :
      SourceState).WellFormed m := by
    refine ⟨h.statements, h.equs, h.templates, ?_⟩
    intro u hu
    cases hu
    exact hbody
  rw [collect_eq] at hs'
  split at hs'
  · cases hs'
    exact hmore
  · split at hs'
    · split at hs'
      · cases hs'
      · cases hs'
        refine ⟨h.statements, h.equs, h.templates.insert (h.defining t hdefining), ?_⟩
        intro u hu
        cases hu
    · cases hs'
    · cases hs'
      exact hmore

theorem plainLine (h : s.WellFormed m) (hrest : ∀ t ∈ rest, t.IsScanned)
    (hs' : s.plainLine m head rest = .ok s') : s'.WellFormed m := by
  unfold SourceState.plainLine at hs'
  split at hs'
  · rw [equBefore_eq] at hs'
    split at hs'
    · cases hs'
    · exact h.defineEqu (fun t ht => hrest t (List.mem_cons_of_mem _ ht)) hs'
  · exact h.startTemplate hs'
  · cases hs'
  · exact h.exportNames hs'
  · exact h.ascii hs'
  · exact h.data hrest hs'
  · exact h.sized hrest (by omega) hs'
  · exact h.sized hrest (by omega) hs'
  · exact h.cellDirective (.inl rfl) hrest hs'
  · exact h.cellDirective (.inr rfl) hrest hs'
  · exact h.instruction hrest hs'
  · cases hs'

/-- The lines that a call of a template stands for hold tokens of its body and of
the call. -/
theorem expansion {t : Template} {lines : List Line} (ht : t.IsScanned)
    (hrest : ∀ tok ∈ rest, tok.IsScanned) (hlines : SourceState.expansion t head rest = .ok lines) :
    ∀ line ∈ lines, ∀ tok ∈ line, tok.IsScanned := by
  rw [expansion_eq, bind_eq_ok] at hlines
  obtain ⟨arguments, hsplit, hlines⟩ := hlines
  split at hlines
  · cases hlines
  · cases hlines
    intro line hline tok htok
    obtain ⟨body, hbody, rfl⟩ := List.mem_map.1 hline
    obtain ⟨original, horiginal, rfl⟩ := List.mem_map.1 htok
    unfold Template.substitute
    split
    · cases hlookup : ((t.params.map Token.contents).zip arguments).lookup original.contents with
      | none => exact ht body hbody original horiginal
      | some argument =>
        have hmem : argument ∈ arguments := (List.of_mem_zip (mem_of_lookup hlookup)).2
        exact hrest argument (mem_of_splitOperands hsplit argument hmem)
    · exact ht body hbody original horiginal

end WellFormed

theorem wellFormed_empty (m : Machine) : ({} : SourceState).WellFormed m where
  statements := List.forall_mem_nil _
  equs := Table.All.empty _
  templates := Table.All.empty _
  defining := by
    intro t ht
    cases ht

theorem WellFormed.closeLabels {m : Machine} {s : SourceState} (h : s.WellFormed m) :
    s.closeLabels.WellFormed m := by
  unfold SourceState.closeLabels
  split
  · exact h
  · exact h.emit (.data (List.forall_mem_nil _) (by omega))

end SourceState

namespace SourceEnv

theorem invariant_wellFormed (env : SourceEnv) :
    Invariant env Token.IsScanned (SourceState.WellFormed env.machine) where
  scanned hline := env.linesOf_scanned _ _ _ hline
  labels _ h := ⟨h.statements, h.equs, h.templates, h.defining⟩
  record _ h := ⟨h.statements, h.equs, h.templates, h.defining⟩
  collect hline h hdefining hs' := h.collect hline hdefining hs'
  equ hrest h hs' := h.defineEqu hrest hs'
  plain hrest h hs' := h.plainLine hrest hs'
  expansion hrest h htemplate hlines :=
    SourceState.WellFormed.expansion (h.templates.find? htemplate) hrest hlines

/-- Everything that a program is read into is well formed, and its names are
checked. -/
theorem wellFormed_of_parse {env : SourceEnv} {name contents : Text} {s : SourceState}
    (h : env.parse name contents = .ok s) :
    s.WellFormed env.machine ∧ s.checkSymbols env.machine = .ok () := by
  obtain ⟨gathered, hgathered, rfl, hcheck⟩ :=
    env.invariant_wellFormed.parse (SourceState.wellFormed_empty env.machine) h
  exact ⟨hgathered.closeLabels, hcheck⟩

end SourceEnv

end CellAsm
