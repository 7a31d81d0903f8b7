-- SUMMARY: Replacing constants keeps statements well formed and leaves labels alone.
import CellAsm.Proofs.Statements
import CellAsm.Symbol.Equ

/-!
# Constants and statements

Every constant leads to an integer literal, so an operand that names one becomes a
number, and the statement keeps its form. A name that is neither a constant of the
program nor one of the machine is left as it is.
-/
namespace CellAsm

/-- The number of a constant or of a label, as it stands in a table. -/
def Token.IsNumeral (t : Token) : Prop := t.kind = .constant ∧ t.contents.toInt?.isSome

/-- An operand that is replaced by a numeral is a number. -/
theorem Token.IsNumeral.isNumber_carrying {t : Token} (h : t.IsNumeral) (o : Token) :
    (o.carrying t.kind t.contents).IsNumber := by
  obtain ⟨hkind, hliteral⟩ := h
  obtain ⟨n, hn⟩ := Option.isSome_iff_exists.1 hliteral
  exact ⟨hkind, by rw [integer?_carrying o t.kind hn]; rfl⟩

/-- A statement keeps its form when names among its operands are replaced. -/
theorem Statement.WellFormed.mapOperands {m : Machine} {c : Statement} (h : c.WellFormed m)
    {g : Token → Token} (hg : ∀ o : Token, o.IsOperand → (g o).IsOperand)
    (hkept : ∀ o : Token, o.kind ≠ .identifier → g o = o) :
    ({ c with operands := c.operands.map g } : Statement).WellFormed m := by
  have hmap {operands : List Token} (hoperands : ∀ o ∈ operands, o.IsOperand) :
      ∀ o ∈ operands.map g, o.IsOperand :=
    List.forall_mem_map.2 fun o ho => hg o (hoperands o ho)
  cases h with
  | instruction hspec hoperands hleast hmost =>
    refine .instruction hspec (hmap hoperands) ?_ ?_
    · rw [List.length_map]; exact hleast
    · rw [List.length_map]; exact hmost
  | data hoperands hwidth => exact .data (hmap hoperands) hwidth
  | @ascii labels keyword t hstring =>
    have ht : g t = t := hkept t (by rw [hstring]; decide)
    simp only [List.map_cons, List.map_nil, ht]
    exact .ascii hstring
  | cell haction hoperand => exact .cell haction (hg _ hoperand)

namespace Equ

/-! ## Following constants -/

theorem isLiteral_literal (n : Int) : (literal n).IsLiteral := by
  intro _
  rw [literal, Text.toInt?_decimal]
  rfl

theorem isNumeral_of_chase {table : Table Token} (htable : table.All Token.IsLiteral) {name : Text}
    {steps : Nat} {v w : Token} (hv : v.IsLiteral) (h : chase table name steps v = .ok w) :
    Token.IsNumeral w := by
  induction steps generalizing v with
  | zero =>
    unfold chase at h
    split at h
    · cases h
    · split at h
      · rename_i hkind
        cases h
        exact ⟨hkind, hv hkind⟩
      · cases h
  | succ steps ih =>
    unfold chase at h
    split at h
    · dsimp only at h
      split at h
      · cases h
      · rename_i next hnext
        exact ih (htable.find? hnext) h
    · split at h
      · rename_i hkind
        cases h
        exact ⟨hkind, hv hkind⟩
      · cases h

theorem isNumeral_of_follow {table : Table Token} (htable : table.All Token.IsLiteral) {name : Text}
    {w : Token} (h : follow table name = .ok w) : Token.IsNumeral w := by
  unfold follow at h
  refine isNumeral_of_chase htable ?_ h
  cases hfind : table.find? name with
  | none =>
    intro hkind
    cases hkind
  | some v => exact htable.find? hfind

/-- A resolved table has for each constant the number that it leads to. -/
theorem entries_of_resolveTable {table resolved : Table Token}
    (h : resolveTable table = .ok resolved) :
    List.Forall₂ (fun e e' => ∃ w, follow table e.1 = .ok w ∧ e' = (e.1, w)) table.entries
      resolved.entries := by
  simp only [resolveTable, bind_eq_ok, pure_eq_ok] at h
  obtain ⟨entries, hmap, rfl⟩ := h
  have hentries : List.Forall₂ (fun e e' => ∃ w, follow table e.1 = .ok w ∧ e' = (e.1, w))
      table.entries entries := by
    refine (mapM_eq_ok.1 hmap).imp fun e e' he => ?_
    simp only [bind_eq_ok, pure_eq_ok] at he
    obtain ⟨w, hw, rfl⟩ := he
    exact ⟨w, hw, rfl⟩
  have hnames : entries.map Prod.fst = table.entries.map Prod.fst := by
    rw [← List.forall₂_eq_eq_eq, List.forall₂_map_left_iff, List.forall₂_map_right_iff]
    refine hentries.flip.imp fun e' e he => ?_
    obtain ⟨w, _, rfl⟩ := he
    rfl
  rw [Table.entries_ofList (hnames ▸ table.distinct)]
  exact hentries

/-- Resolving keeps the names of a table and leaves a number under each. -/
theorem of_resolveTable {table resolved : Table Token} (htable : table.All Token.IsLiteral)
    (h : resolveTable table = .ok resolved) : resolved.All Token.IsNumeral ∧ resolved.names = table.names := by
  have hentries := entries_of_resolveTable h
  unfold Table.All Table.names
  generalize table.entries = source, resolved.entries = entries at hentries
  induction hentries with
  | nil => exact ⟨List.forall_mem_nil _, rfl⟩
  | cons he _ ih =>
    obtain ⟨number, hnumber, rfl⟩ := he
    obtain ⟨hall, hnames⟩ := ih
    exact ⟨List.forall_mem_cons.2 ⟨isNumeral_of_follow htable hnumber, hall⟩,
      by rw [List.map_cons, List.map_cons, hnames]⟩

/-! ## The constants in force -/

theorem all_merge {P : Token → Prop} (hliteral : ∀ n, P (literal n)) {locals : Table Token}
    (h : locals.All P) (globals : List NamedValue) : (merge locals globals).All P := by
  unfold merge
  induction globals generalizing locals with
  | nil => exact h
  | cons g rest ih =>
    rw [List.foldl_cons]
    split
    · exact ih h
    · exact ih (h.insert (hliteral g.value))

/-- The constants in force are those of the program and those of the machine. -/
theorem find?_merge_eq_none_iff {locals : Table Token} {globals : List NamedValue} {name : Text} :
    (merge locals globals).find? name = none ↔
      locals.find? name = none ∧ ∀ g ∈ globals, g.name ≠ name := by
  unfold merge
  induction globals generalizing locals with
  | nil => simp
  | cons g rest ih =>
    rw [List.foldl_cons, ih, List.forall_mem_cons]
    split
    · rename_i hlocal
      -- A constant of the program hides the one of the machine.
      refine ⟨fun ⟨hnone, hrest⟩ => ⟨hnone, ?_, hrest⟩, fun ⟨hnone, _, hrest⟩ => ⟨hnone, hrest⟩⟩
      rintro rfl
      rw [Table.contains, hnone] at hlocal
      cases hlocal
    · rw [Table.find?_insert]
      by_cases hg : name = g.name
      · simp [hg]
      · simp [hg, Ne.symm hg]

/-! ## Operands and statements -/

theorem isOperand_replace {resolved : Table Token} (hresolved : resolved.All Token.IsNumeral) {o : Token}
    (h : o.IsOperand) : (replace resolved o).IsOperand := by
  unfold replace
  split
  · split
    · rename_i v hv
      exact .inr ((hresolved.find? hv).isNumber_carrying o)
    · exact h
  · exact h

theorem replace_of_kind_ne {resolved : Table Token} {o : Token} (h : o.kind ≠ .identifier) :
    replace resolved o = o := by
  rw [replace, if_neg h]

/-- A name that is no constant is left as it is. -/
theorem replace_of_find?_eq_none {resolved : Table Token} {o : Token}
    (h : resolved.find? o.symbol = none) : replace resolved o = o := by
  unfold replace
  split
  · rw [h]
  · rfl

/-- What is still a name was not replaced. -/
theorem replace_of_identifier {resolved : Table Token} (hresolved : resolved.All Token.IsNumeral)
    {o : Token} (h : (replace resolved o).kind = .identifier) : replace resolved o = o := by
  cases hfind : resolved.find? o.symbol with
  | none => exact replace_of_find?_eq_none hfind
  | some v =>
    unfold replace at h ⊢
    split at h
    · rw [hfind] at h
      have hkind : v.kind = .identifier := h
      rw [(hresolved.find? hfind).1] at hkind
      cases hkind
    · rename_i hkind
      rw [if_neg hkind]

/-- A statement with its constants replaced. -/
def replaceIn (resolved : Table Token) (c : Statement) : Statement :=
  { c with operands := c.operands.map (replace resolved) }

theorem wellFormed_replaceIn {m : Machine} {resolved : Table Token}
    (hresolved : resolved.All Token.IsNumeral) {c : Statement} (h : c.WellFormed m) :
    (replaceIn resolved c).WellFormed m :=
  h.mapOperands (fun _ ho => isOperand_replace hresolved ho) fun _ ho => replace_of_kind_ne ho

/-- What resolving constants does to the statements of a program. -/
theorem of_resolve {m : Machine} {statements cs : List Statement} {locals resolved : Table Token}
    {globals : List NamedValue} (hstatements : ∀ c ∈ statements, c.WellFormed m)
    (hlocals : locals.All Token.IsLiteral)
    (h : resolve statements locals globals = .ok (cs, resolved)) :
    cs = statements.map (replaceIn resolved) ∧ (∀ c ∈ cs, c.WellFormed m) ∧
      resolved.All Token.IsNumeral ∧ resolved.names = (merge locals globals).names := by
  simp only [resolve, bind_eq_ok, pure_eq_ok, Prod.mk.injEq] at h
  obtain ⟨_, htable, rfl, rfl⟩ := h
  obtain ⟨hnumbers, hnames⟩ := of_resolveTable (all_merge isLiteral_literal hlocals globals) htable
  refine ⟨rfl, ?_, hnumbers, hnames⟩
  exact List.forall_mem_map.2 fun c hc => wellFormed_replaceIn hnumbers (hstatements c hc)

end Equ

end CellAsm
