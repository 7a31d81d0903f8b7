-- SUMMARY: What a failure is blamed on is a token at hand.
import CellAsm.Proofs.Passes

/-!
# Blame

Every failure is blamed on a token. It is one of the line that is read, or one that was
read before and kept: a waiting label, an operand of a statement, the name of an open
template. A set of positions that has those of a line and of all tokens kept from
earlier lines therefore has the position of every failure, and of what is kept from
the line. The set is left open here; tokens that are made up while assembling have no
place in it.
-/
namespace CellAsm

/-- The failure is blamed on a token at one of the positions. -/
def Failure.BlamedAt (R : Position → Prop) (e : Failure) : Prop :=
  ∃ t c, e = .blame t c ∧ R t.position

/-- All tokens of a line are at these positions. -/
def Line.Within (R : Position → Prop) (line : Line) : Prop := ∀ t ∈ line, R t.position

structure Template.Within (R : Position → Prop) (t : Template) : Prop where
  name : R t.name.position
  body : ∀ line ∈ t.body, line.Within R

structure Statement.Within (R : Position → Prop) (c : Statement) : Prop where
  labels : Line.Within R c.labels
  keyword : R c.keyword.position
  operands : Line.Within R c.operands

/-- All tokens that have been gathered are at these positions. -/
structure SourceState.Within (R : Position → Prop) (s : SourceState) : Prop where
  statements : ∀ c ∈ s.statements, c.Within R
  pending : Line.Within R s.pending
  equs : s.equs.All fun v => R v.position
  exports : Line.Within R s.exports
  templates : s.templates.All (Template.Within R)
  defining : ∀ t, s.defining = some t → t.Within R

variable {R : Position → Prop}

theorem Failure.blamedAt {t : Token} (h : R t.position) (c : Cause) :
    (Failure.blame t c).BlamedAt R :=
  ⟨t, c, rfl, h⟩

/-- A computation that is blamed on a token at one of the positions if it fails. -/
abbrev Blamed {α : Type} (R : Position → Prop) (P : α → Prop) (x : Except Failure α) : Prop :=
  Ends P (Failure.BlamedAt R) x

theorem Blamed.blame {α : Type} {P : α → Prop} {t : Token} (h : R t.position) (c : Cause) :
    Blamed R P (.error (.blame t c) : Except Failure α) :=
  .error (Failure.blamedAt h c)

open Blamed (blame)

/-! ## Operands -/

theorem blamed_operandsAfter {before : Separator} {ts : List Token}
    (hbefore : ∀ t, before = .comma t → R t.position) (hts : Line.Within R ts) :
    Blamed R (Line.Within R) (operandsAfter before ts) := by
  fun_induction operandsAfter before ts with
  | case1 t => exact blame (hbefore t rfl) _
  | case2 => exact .ok hts
  | case3 t rest _ ih =>
    obtain ⟨ht, hrest⟩ := List.forall_mem_cons.1 hts
    refine ih ?_ hrest
    rintro t' ⟨⟩
    exact ht
  | case4 => exact blame (hts _ List.mem_cons_self) _
  | case5 before t rest _ ih =>
    obtain ⟨ht, hrest⟩ := List.forall_mem_cons.1 hts
    refine (ih nofun hrest).bind fun operands hoperands => ?_
    exact .ok (List.forall_mem_cons.2 ⟨ht, hoperands⟩)

theorem blamed_splitOperands {ts : List Token} (hts : Line.Within R ts) :
    Blamed R (Line.Within R) (splitOperands ts) := by
  rw [splitOperands_eq]
  exact blamed_operandsAfter nofun hts

theorem Template.blamed_checkParams {name : Token} {seen : List Text} {params : List Token}
    (h : Line.Within R params) : Blamed R (fun _ => True) (checkParams name seen params) := by
  fun_induction checkParams name seen params with
  | case1 => exact .ok trivial
  | case2 => exact blame (h _ List.mem_cons_self) _
  | case3 => exact blame (h _ List.mem_cons_self) _
  | case4 _ _ _ _ _ ih => exact ih (List.forall_mem_cons.1 h).2

/-! ## Lines -/

namespace SourceState

variable {m : Machine} {s : SourceState} {keyword : Token} {rest : List Token}

theorem blamed_checkLegal {line : Line} (h : line.Within R) :
    Blamed R (fun _ => True) (checkLegal line) := by
  fun_induction checkLegal line with
  | case1 => exact .ok trivial
  | case2 => exact blame (h _ List.mem_cons_self) _
  | case3 _ _ _ ih => exact ih (List.forall_mem_cons.1 h).2

theorem blamed_checkOperands {cause : TokenKind → Cause} {operands : List Token}
    (h : Line.Within R operands) : Blamed R (fun _ => True) (checkOperands cause operands) := by
  fun_induction checkOperands cause operands with
  | case1 => exact .ok trivial
  | case2 _ _ _ ih => exact ih (List.forall_mem_cons.1 h).2
  | case3 => exact blame (h _ List.mem_cons_self) _

theorem blamed_checkExports {names : List Token} (h : Line.Within R names) :
    Blamed R (fun _ => True) (checkExports keyword names) := by
  fun_induction checkExports keyword names with
  | case1 => exact .ok trivial
  | case2 _ _ _ ih => exact ih (List.forall_mem_cons.1 h).2
  | case3 => exact blame (h _ List.mem_cons_self) _

/-- What a line leaves behind: tokens at the same positions, and no fewer records. -/
structure Keeps (R : Position → Prop) (s s' : SourceState) : Prop where
  within : s'.Within R
  log : s.log ⊆ s'.log

namespace Within

theorem emit (h : s.Within R) {c : Statement} (hkeyword : R c.keyword.position)
    (hoperands : Line.Within R c.operands) : s.Keeps R (s.emit c) where
  within := {
    statements := List.forall_mem_append.2
      ⟨h.statements, List.forall_mem_singleton.2 ⟨h.pending, hkeyword, hoperands⟩⟩
    pending := List.forall_mem_nil _
    equs := h.equs
    exports := h.exports
    templates := h.templates
    defining := h.defining }
  log := List.Subset.refl _

theorem addLabels (h : s.Within R) {line : Line} (hline : line.Within R) :
    s.Keeps R (s.addLabels line) where
  within := { h with
    pending := List.forall_mem_append.2
      ⟨h.pending, fun t ht => hline t ((List.takeWhile_sublist _).mem ht)⟩ }
  log := List.Subset.refl _

variable (h : s.Within R) (hkeyword : R keyword.position) (hrest : Line.Within R rest)

include h hkeyword hrest

theorem blamed_instruction : Blamed R (s.Keeps R) (s.instruction m keyword rest) := by
  unfold instruction
  split
  · exact blame hkeyword _
  · apply (blamed_splitOperands hrest).bind
    intro operands hoperands
    apply (blamed_checkOperands hoperands).bind
    intro _ _
    dsimp only
    split
    · exact blame hkeyword _
    · exact .ok (h.emit hkeyword hoperands)

theorem blamed_exportNames : Blamed R (s.Keeps R) (s.exportNames keyword rest) := by
  apply (blamed_splitOperands hrest).bind
  intro names hnames
  split
  · exact blame hkeyword _
  · apply (blamed_checkExports hnames).bind
    intro _ _
    exact .ok ⟨{ h with exports := List.forall_mem_append.2 ⟨h.exports, hnames⟩ }, List.Subset.refl _⟩

theorem blamed_ascii : Blamed R (s.Keeps R) (s.ascii keyword rest) := by
  rw [ascii_eq]
  split
  · rename_i t ht
    obtain ⟨rfl, _⟩ := of_sole? ht
    exact .ok (h.emit hkeyword hrest)
  · exact blame hkeyword _

theorem blamed_values (width : Int) : Blamed R (s.Keeps R) (s.values keyword rest width) := by
  apply (blamed_splitOperands hrest).bind
  intro operands hoperands
  apply (blamed_checkOperands hoperands).bind
  intro _ _
  exact .ok (h.emit hkeyword hoperands)

theorem blamed_sized (width : Int) : Blamed R (s.Keeps R) (s.sized keyword rest width) := by
  unfold sized
  split
  · exact blame hkeyword _
  · exact h.blamed_values hkeyword hrest width

omit h in
theorem blamed_bracketed : Blamed R (Line.Within R) (bracketed keyword rest) := by
  rw [bracketed_eq]
  split
  · rename_i first more
    obtain ⟨hfirst, hmore⟩ := List.forall_mem_cons.1 hrest
    have hlast : R (more.getLast?.getD first).position := by
      cases hlast : more.getLast? with
      | none => exact hfirst
      | some last => exact hmore last (List.mem_of_getLast? hlast)
    split
    · split
      · exact blame hlast _
      · split
        · exact blame hlast _
        · exact .ok fun t ht => hmore t ((List.dropLast_sublist _).mem ht)
    · split
      · exact .ok hrest
      · exact blame hkeyword _
  · exact blame hkeyword _

theorem blamed_data : Blamed R (s.Keeps R) (s.data keyword rest) := by
  rw [data_eq]
  split
  · rename_i count first more
    obtain ⟨hcount, hfirst⟩ := List.forall_mem_cons.1 hrest
    split
    · exact blame hkeyword _
    · split
      · split
        · have hvalues : Line.Within R (if first.kind = .comma then more else first :: more) := by
            split
            · exact (List.forall_mem_cons.1 hfirst).2
            · exact hfirst
          apply (blamed_bracketed hkeyword hvalues).bind
          intro values hvalues
          exact h.blamed_values hkeyword hvalues _
        · exact blame hcount _
      · exact blame hcount _
  · exact blame hkeyword _

theorem blamed_cellDirective (action : Action) :
    Blamed R (s.Keeps R) (s.cellDirective keyword action rest) := by
  rw [cellDirective_eq]
  split
  · rename_i t ht
    obtain ⟨rfl, _⟩ := of_sole? ht
    exact .ok (h.emit hkeyword hrest)
  · exact blame hkeyword _

theorem blamed_defineEqu {name : Token} (hname : R name.position) :
    Blamed R (s.Keeps R) (s.defineEqu m keyword name rest) := by
  rw [defineEqu_eq]
  split
  · rename_i label _ hpending
    exact blame (h.pending label (hpending ▸ List.mem_cons_self)) _
  · split
    · exact blame hname _
    · split
      · rename_i value
        have hvalue := hrest value List.mem_cons_self
        split
        · exact blame hname _
        · have hcheck : Blamed R (fun _ => True) (checkEquValue m s name.symbol value) := by
            unfold checkEquValue
            split
            · exact .ok trivial
            · split
              · exact .ok trivial
              · exact blame hvalue _
            · exact blame hvalue _
          apply hcheck.bind
          intro _ _
          exact .ok ⟨{ h with equs := h.equs.insert hvalue }, List.Subset.refl _⟩
      · exact blame hkeyword _

theorem blamed_startTemplate : Blamed R (s.Keeps R) (s.startTemplate m keyword rest) := by
  rw [startTemplate_eq]
  split
  · rename_i name more
    obtain ⟨hname, hmore⟩ := List.forall_mem_cons.1 hrest
    split
    · exact blame hkeyword _
    · split
      · exact blame hname _
      · split
        · exact blame hname _
        · apply (blamed_splitOperands hmore).bind
          intro params hparams
          apply (Template.blamed_checkParams hparams).bind
          intro _ _
          refine .ok ⟨{ h with defining := ?_ }, List.Subset.refl _⟩
          rintro t ⟨⟩
          exact ⟨hname, List.forall_mem_nil _⟩
  · exact blame hkeyword _

theorem blamed_plainLine : Blamed R (s.Keeps R) (s.plainLine m keyword rest) := by
  unfold plainLine
  split
  · rw [equBefore_eq]
    split
    · exact blame hkeyword _
    · obtain ⟨hname, hmore⟩ := List.forall_mem_cons.1 hrest
      exact h.blamed_defineEqu hkeyword hmore hname
  · exact h.blamed_startTemplate hkeyword hrest
  · exact blame hkeyword _
  · exact h.blamed_exportNames hkeyword hrest
  · exact h.blamed_ascii hkeyword hrest
  · exact h.blamed_data hkeyword hrest
  · exact h.blamed_sized hkeyword hrest _
  · exact h.blamed_sized hkeyword hrest _
  · exact h.blamed_cellDirective hkeyword hrest _
  · exact h.blamed_cellDirective hkeyword hrest _
  · exact h.blamed_instruction hkeyword hrest
  · exact blame hkeyword _

omit hkeyword hrest

/-- A line of an open template goes into its body, or closes it. -/
theorem blamed_collect {t : Template} (hdefining : s.defining = some t) {line : Line}
    (hline : line.Within R) : Blamed R (s.Keeps R) (s.collect t line) := by
  have ht := h.defining t hdefining
  have hmore : s.Keeps R { s with defining := some { t with body := t.body ++ [line] } } := by
    refine ⟨{ h with defining := ?_ }, List.Subset.refl _⟩
    rintro t' ⟨⟩
    exact ⟨ht.name, List.forall_mem_append.2 ⟨ht.body, List.forall_mem_singleton.2 hline⟩⟩
  rw [collect_eq]
  split
  · exact .ok hmore
  · rename_i head rest
    obtain ⟨hhead, hrest⟩ := List.forall_mem_cons.1 hline
    split
    · split
      · exact blame (hrest _ List.mem_cons_self) _
      · exact .ok ⟨{ h with templates := h.templates.insert ht, defining := nofun },
          List.subset_append_left _ _⟩
    · exact blame hhead _
    · exact .ok hmore

end Within

/-- The lines of an expansion have their tokens from the template and from the call. -/
theorem blamed_expansion {t : Template} (ht : t.Within R) (hkeyword : R keyword.position)
    (hrest : Line.Within R rest) :
    Blamed R (fun lines => ∀ line ∈ lines, Line.Within R line) (expansion t keyword rest) := by
  rw [expansion_eq]
  apply (blamed_splitOperands hrest).bind
  intro arguments harguments
  split
  · exact blame hkeyword _
  · refine .ok (List.forall_mem_map.2 fun line hline => List.forall_mem_map.2 fun tok htok => ?_)
    have hown : R tok.position := ht.body line hline tok htok
    unfold Template.substitute
    split
    · cases hlookup : ((t.params.map Token.contents).zip arguments).lookup tok.contents with
      | none => exact hown
      | some argument => exact harguments argument (List.of_mem_zip (mem_of_lookup hlookup)).2
    · exact hown

/-! ## Names -/

theorem blamed_checkLabels {equs : Table Token} {labels : List Token} (h : Line.Within R labels) :
    Blamed R (fun _ => True) (checkLabels m equs labels) := by
  fun_induction checkLabels m equs labels with
  | case1 => exact .ok trivial
  | case2 => exact blame (h _ List.mem_cons_self) _
  | case3 => exact blame (h _ List.mem_cons_self) _
  | case4 _ _ _ _ ih => exact ih (List.forall_mem_cons.1 h).2

theorem blamed_checkNames {known : Text → Bool} {slots : List (Field × Nat)}
    {operands : List Token} (h : Line.Within R operands) :
    Blamed R (fun _ => True) (checkNames known slots operands) := by
  fun_induction checkNames known slots operands with
  | case1 => exact .ok trivial
  | case2 _ _ _ ih => exact ih (List.forall_mem_cons.1 h).2
  | case3 => exact blame (h _ List.mem_cons_self) _
  | case4 _ _ _ _ _ _ ih => exact ih (List.forall_mem_cons.1 h).2
  | case5 => exact blame (h _ List.mem_cons_self) _

/-- An alignment or position that was read has an operand to blame. -/
theorem blamed_checkCellOperand {labels : List Text} {c : Statement} (hc : c.WellFormed m)
    (h : Line.Within R c.operands) : Blamed R (fun _ => True) (checkCellOperand labels c) := by
  cases hc with
  | instruction => exact .ok trivial
  | data => exact .ok trivial
  | ascii => exact .ok trivial
  | cell haction =>
    rw [checkCellOperand_eq, if_pos haction]
    dsimp only
    split
    · exact blame (h _ List.mem_cons_self) _
    · exact .ok trivial

theorem blamed_checkStatements {known : Text → Bool} {labels : List Text}
    {statements : List Statement} (hformed : ∀ c ∈ statements, c.WellFormed m)
    (h : ∀ c ∈ statements, c.Within R) :
    Blamed R (fun _ => True) (checkStatements known labels statements) := by
  induction statements with
  | nil => exact .ok trivial
  | cons c rest ih =>
    obtain ⟨hc, hrest⟩ := List.forall_mem_cons.1 h
    obtain ⟨hcformed, hformed⟩ := List.forall_mem_cons.1 hformed
    rw [checkStatements_cons]
    apply (blamed_checkNames hc.operands).bind
    intro _ _
    apply (blamed_checkCellOperand hcformed hc.operands).bind
    intro _ _
    exact ih hformed hrest

theorem blamed_checkExported {labels : List Text} {exports : List Token}
    (h : Line.Within R exports) : Blamed R (fun _ => True) (checkExported labels exports) := by
  fun_induction checkExported labels exports with
  | case1 => exact .ok trivial
  | case2 _ _ _ ih => exact ih (List.forall_mem_cons.1 h).2
  | case3 => exact blame (h _ List.mem_cons_self) _

namespace Within

theorem closeLabels (h : s.Within R) : s.Keeps R s.closeLabels := by
  unfold SourceState.closeLabels
  split
  · exact ⟨h, List.Subset.refl _⟩
  · rename_i label _ hpending
    exact h.emit (h.pending label (hpending ▸ List.mem_cons_self)) (List.forall_mem_nil _)

theorem blamed_checkSymbols (h : s.Within R) (hformed : s.WellFormed m) :
    Blamed R (fun _ => True) (s.checkSymbols m) := by
  have hlabels : Line.Within R s.labels := by
    intro l hl
    obtain ⟨c, hc, hlabel⟩ := List.mem_flatMap.1 hl
    exact (h.statements c hc).labels l hlabel
  apply (blamed_checkLabels hlabels).bind
  intro _ _
  apply (blamed_checkStatements hformed.statements h.statements).bind
  intro _ _
  exact blamed_checkExported h.exports

end Within

end SourceState

/-! ## Constants -/

namespace Equ

/-- A number is never blamed, so it does not matter where it comes from. -/
def Within (R : Position → Prop) (v : Token) : Prop := v.kind = .constant ∨ R v.position

theorem blamed_chase {table : Table Token} (htable : table.All (Within R)) {name : Text}
    {steps : Nat} {v : Token} (hv : Within R v) :
    Blamed R (fun _ => True) (chase table name steps v) := by
  have hposition (hkind : v.kind ≠ .constant) : R v.position := hv.resolve_left hkind
  induction steps generalizing v with
  | zero =>
    unfold chase
    split
    · rename_i hname
      exact blame (hposition (by rw [hname]; decide)) _
    · split
      · exact .ok trivial
      · rename_i hkind
        exact blame (hposition hkind) _
  | succ steps ih =>
    unfold chase
    split
    · rename_i hname
      dsimp only
      split
      · exact blame (hposition (by rw [hname]; decide)) _
      · rename_i w hw
        exact ih (htable.find? hw) (htable.find? hw).resolve_left
    · split
      · exact .ok trivial
      · rename_i hkind
        exact blame (hposition hkind) _

theorem blamed_resolve (statements : List Statement) {locals : Table Token}
    (h : locals.All fun v => R v.position) (globals : List NamedValue) :
    Blamed R (fun _ => True) (resolve statements locals globals) := by
  have htable : (merge locals globals).All (Within R) :=
    all_merge (fun _ => .inl rfl) (fun e he => .inr (h e he)) globals
  have hfollow : ∀ e ∈ (merge locals globals).entries,
      Blamed R (fun _ => True) (follow (merge locals globals) e.1) := by
    intro e he
    obtain ⟨v, hv⟩ := Option.ne_none_iff_exists'.1 fun hnone =>
      Table.find?_eq_none_iff.1 hnone (List.mem_map_of_mem he)
    unfold follow
    rw [hv]
    exact blamed_chase htable (htable.find? hv)
  have hentries : Blamed R (fun _ => True) (resolveTable (merge locals globals)) := by
    apply Ends.bind (Ends.mapM (R := fun _ => True) ?_)
    · intro _ _
      exact .ok trivial
    · intro e he
      exact (hfollow e he).bind fun _ _ => .ok trivial
  apply hentries.bind
  intro _ _
  exact .ok trivial

theorem position_replace (resolved : Table Token) (o : Token) :
    (replace resolved o).position = o.position := by
  unfold replace
  split
  · split
    · rfl
    · rfl
  · rfl

theorem within_replaceIn (resolved : Table Token) {c : Statement} (h : c.Within R) :
    (replaceIn resolved c).Within R where
  labels := h.labels
  keyword := h.keyword
  operands := by
    refine List.forall_mem_map.2 fun o ho => ?_
    rw [position_replace]
    exact h.operands o ho

end Equ

/-! ## Layout and labels -/

namespace Statement.Within

variable {c : Statement} (h : c.Within R)

include h

theorem blamed_soleCell : Blamed R (fun x => R x.1.position) c.soleCell := by
  unfold soleCell
  split
  · rename_i o hoperands
    have ho : R o.position := h.operands o (hoperands ▸ List.mem_cons_self)
    split
    · exact blame ho _
    · split
      · exact blame ho _
      · split
        · exact blame ho _
        · exact .ok ho
  · exact blame h.keyword _

omit h in
theorem blamed_fillFor {o : Token} (ho : R o.position) (cells : UInt64) (cellSize : Int) :
    Blamed R (fun _ => True) (c.fillFor o cells cellSize) := by
  unfold fillFor
  split
  · exact blame ho _
  · exact .ok trivial

theorem blamed_emittedBits (address : UInt64) (cellSize : Int) :
    Blamed R (fun _ => True) (c.emittedBits address cellSize) := by
  rw [emittedBits_eq]
  split
  · split
    · exact .ok trivial
    · exact blame h.keyword _
  · exact .ok trivial
  · exact .ok trivial
  · apply h.blamed_soleCell.bind
    intro x hx
    split
    · exact blame hx _
    · exact blamed_fillFor hx _ _
  · apply h.blamed_soleCell.bind
    intro x hx
    split
    · exact blame hx _
    · exact blamed_fillFor hx _ _
  · exact blame h.keyword _

theorem blamed_lengthInBits (address : UInt64) {cellSize : Int} (hcell : cellSize ≠ 0) :
    Blamed R (fun _ => True) (c.lengthInBits address cellSize) := by
  rw [lengthInBits_eq]
  apply (h.blamed_emittedBits address cellSize).bind
  intro n _
  rw [if_neg hcell]
  split
  · exact .ok trivial
  · exact blame h.keyword _

omit h in
/-- Without a cell size there is nothing to divide by. -/
example : lengthInBits { action := .data, width := 1 } 0 0 = .error (.fault .divisionByZero) := rfl

theorem blamed_advance (address : UInt64) (n : Int) {cellSize : Int} (hcell : cellSize ≠ 0) :
    Blamed R (fun _ => True) (c.advance address n cellSize) := by
  rw [advance_eq hcell]
  split
  · exact .ok trivial
  · exact blame h.keyword _

end Statement.Within

namespace Label

theorem blamed_define {address : UInt64} {labels : Table Token} {ls : List Token}
    (h : Line.Within R ls) : Blamed R (fun _ => True) (define address labels ls) := by
  fun_induction define address labels ls with
  | case1 => exact .ok trivial
  | case2 => exact blame (h _ List.mem_cons_self) _
  | case3 _ _ _ _ ih => exact ih (List.forall_mem_cons.1 h).2

theorem blamed_assignFrom {cellSize : Int} (hcell : cellSize ≠ 0) (address : UInt64)
    (labels : Table Token) {statements : List Statement} (h : ∀ c ∈ statements, c.Within R) :
    Blamed R (fun _ => True) (assignFrom cellSize address labels statements) := by
  induction statements generalizing address labels with
  | nil => exact .ok trivial
  | cons c rest ih =>
    obtain ⟨hc, hrest⟩ := List.forall_mem_cons.1 h
    apply (blamed_define hc.labels).bind
    intro labels _
    apply (hc.blamed_lengthInBits address hcell).bind
    intro n _
    apply (hc.blamed_advance address n hcell).bind
    intro next _
    exact ih next labels hrest

end Label

end CellAsm
