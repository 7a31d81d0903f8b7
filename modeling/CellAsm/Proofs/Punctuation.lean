-- SUMMARY: Punctuation tables that were read, and reading a full table back.
import CellAsm.Machine.Reading
import CellAsm.Machine.Writing
import CellAsm.Proofs.Outcome
import CellAsm.Proofs.Table
import CellAsm.Proofs.Utf8
import Mathlib.Data.List.Nodup
import Mathlib.Logic.Function.Basic

/-!
# Punctuation tables in descriptions

A table is read as changes to the standard one, so it covers the whole set of
characters, and a valid one covers nothing else. Such a table is written in full.
Read again, each marker role leaves its standard holder only through that
character's own entry, and the entries restore the table as it was.
-/
namespace CellAsm

open Json (Value)

theorem isSome_of_any {α : Type} {o : Option α} {p : α → Bool} (h : o.any p) : o.isSome := by
  cases o with
  | none => exact h
  | some a => rfl

namespace Role

theorem name?_of_ofName? {t : Text} {r : Role} (h : ofName? t = some r) : r.name?.isSome := by
  unfold ofName? at h
  have hname := List.find?_some h
  exact isSome_of_any hname

theorem ofName?_text {r : Role} (h : r.name?.isSome) : ofName? r.text = some r := by
  cases r with
  | unnamed code => cases h
  | _ => decide +kernel

theorem isUtf8_text {r : Role} (h : r.name?.isSome) : r.text.IsUtf8 := by
  cases r with
  | unnamed code => cases h
  | _ => exact Text.isUtf8_ofString _

theorem ne_symbol_of_mem_markers {r : Role} (h : r ∈ markers) : r ≠ symbol := by
  rintro rfl
  exact absurd h (by decide)

end Role

namespace Punctuation

/-! ## Looking characters up -/

theorem find?_of_mem {p : Punctuation} {c : Char} {r : Role} (h : (c, r) ∈ p.entries) :
    p.find? c = some r :=
  lookup_of_mem p.distinct h

theorem find?_insert (p : Punctuation) (c : Char) (r : Role) (d : Char) :
    (p.insert c r).find? d = if d = c then some r else p.find? d :=
  lookup_put p.entries c r d

theorem find?_char_of_ne {p : Punctuation} {r : Role} (hr : r ≠ .symbol) (h : p.char r ≠ '\x00') :
    p.find? (p.char r) = some r := by
  unfold char at h ⊢
  cases hfind : charset.find? fun c => (p.find? c).getD .symbol == r with
  | none =>
    rw [hfind] at h
    exact absurd rfl h
  | some c =>
    have hc : (p.find? c).getD .symbol = r := by simpa using List.find?_some hfind
    cases hrole : p.find? c with
    | none =>
      rw [hrole] at hc
      exact absurd hc.symm hr
    | some s =>
      rw [hrole] at hc
      exact hrole.trans (congrArg some hc)

theorem char_ne_of_find? {p : Punctuation} {r : Role} {c : Char} (hc : c ∈ charset)
    (h : p.find? c = some r) : p.char r ≠ '\x00' := by
  unfold char
  cases hfind : charset.find? fun c => (p.find? c).getD .symbol == r with
  | none =>
    have hother := List.find?_eq_none.1 hfind c hc
    rw [h] at hother
    exact absurd (beq_self_eq_true r) hother
  | some d =>
    rintro rfl
    exact absurd (List.mem_of_find?_eq_some hfind) (by decide +kernel)

/-! ## Tables that cover the character set -/

theorem entries_ofRoles (g : Char → Role) : (ofRoles g).entries = charset.map fun c => (c, g c) :=
  rfl

section Full

variable {p : Punctuation} {g : Char → Role} {extra : List (Char × Role)}
  (hp : p.entries = (ofRoles g).entries ++ extra) (hextra : ∀ e ∈ extra, e.1 ∉ charset)
include hp hextra

theorem insert_of_mem {c : Char} (hc : c ∈ charset) (r : Role) :
    (p.insert c r).entries = (ofRoles (Function.update g c r)).entries ++ extra := by
  have hlisted : (p.find? c).isSome := by
    have hentry : (c, g c) ∈ p.entries := hp ▸ List.mem_append_left _ (List.mem_map_of_mem hc)
    rw [find?_of_mem hentry]
    rfl
  have hkept : extra.map (fun e => if e.1 == c then (c, r) else e) = extra := by
    refine (List.map_congr_left fun e he => if_neg ?_).trans (List.map_id extra)
    intro heq
    exact hextra e he (eq_of_beq heq ▸ hc)
  refine (if_pos hlisted).trans ?_
  rw [hp, List.map_append, hkept]
  rw [entries_ofRoles, entries_ofRoles, List.map_map]
  congr 1
  refine List.map_congr_left fun d _ => ?_
  by_cases hd : d = c
  · subst hd
    simp
  · simp [hd]

theorem insert_of_not_mem {c : Char} (hc : c ∉ charset) (r : Role) :
    ∃ extra', (p.insert c r).entries = (ofRoles g).entries ++ extra' ∧
      ∀ e ∈ extra', e.1 ∉ charset := by
  by_cases hlisted : (p.find? c).isSome
  · refine ⟨extra.map fun e => if e.1 == c then (c, r) else e, (if_pos hlisted).trans ?_, ?_⟩
    · rw [hp, List.map_append]
      rw [entries_ofRoles, List.map_map]
      congr 1
      refine List.map_congr_left fun d hd => ?_
      have hne : d ≠ c := by
        rintro rfl
        exact hc hd
      simp [hne]
    · refine List.forall_mem_map.2 fun e he => ?_
      split
      · exact hc
      · exact hextra e he
  · refine ⟨extra ++ [(c, r)], (if_neg hlisted).trans ?_, ?_⟩
    · rw [hp, List.append_assoc]
    · exact List.forall_mem_append.2 ⟨hextra, by simpa using hc⟩

end Full

/-! ## Tables that were read -/

structure Described (p : Punctuation) : Prop where
  /-- The whole set of characters has roles. -/
  covers : ∃ g extra, p.entries = (ofRoles g).entries ++ extra ∧ ∀ e ∈ extra, e.1 ∉ charset
  roles : ∀ e ∈ p.entries, e.2.name?.isSome

theorem standard_described : standard.Described where
  covers := ⟨_, [], (List.append_nil _).symm, List.forall_mem_nil _⟩
  roles := by decide

theorem Described.insert {p : Punctuation} (h : p.Described) (c : Char) {r : Role}
    (hr : r.name?.isSome) : (p.insert c r).Described where
  covers := by
    obtain ⟨g, extra, hp, hextra⟩ := h.covers
    by_cases hc : c ∈ charset
    · exact ⟨_, extra, insert_of_mem hp hextra hc r, hextra⟩
    · exact ⟨g, insert_of_not_mem hp hextra hc r⟩
  roles := by
    intro e he
    rcases mem_put he with rfl | he
    · exact hr
    · exact h.roles e he

theorem Described.assign {p : Punctuation} (h : p.Described) (listed : List Char) (c : Char) {r : Role}
    (hr : r.name?.isSome) : (p.assign listed c r).Described := by
  unfold Punctuation.assign
  dsimp only
  split
  · exact (h.insert _ rfl).insert c hr
  · exact h.insert c hr

theorem ofAssignments_described {entries : List (Char × Role)}
    (h : ∀ e ∈ entries, e.2.name?.isSome) : (ofAssignments entries).Described := by
  unfold ofAssignments
  refine List.foldlRecOn entries _ standard_described fun p hp e he => ?_
  exact hp.assign _ e.1 (h e he)

/-- A valid table covers the set and nothing else. -/
theorem Described.eq_ofRoles {p : Punctuation} (h : p.Described) (hvalid : p.validate = .ok ()) :
    ∃ g, p = ofRoles g ∧ ∀ c ∈ charset, (g c).name?.isSome := by
  obtain ⟨g, extra, hp, hextra⟩ := h.covers
  unfold validate at hvalid
  split at hvalid
  · cases hvalid
  · rename_i hfind
    have hnil : extra = [] := by
      refine List.eq_nil_iff_forall_not_mem.2 fun e he => hextra e he ?_
      have hin := List.find?_eq_none.1 hfind e (hp ▸ List.mem_append_right _ he)
      simpa [isPunctuation] using hin
    rw [hnil, List.append_nil] at hp
    refine ⟨g, Punctuation.ext hp, fun c hc => h.roles (c, g c) ?_⟩
    exact hp ▸ List.mem_map_of_mem hc

end Punctuation

namespace Machine

theorem readRole_named {key role : Text} {e : Char × Role} (h : readRole key role = .ok e) :
    e.2.name?.isSome := by
  unfold readRole at h
  split at h
  · split at h
    · rename_i hname
      cases h
      exact Role.name?_of_ofName? hname
    · cases h
  · cases h

theorem readPunctuation_described {v : Value} {p : Punctuation} (h : readPunctuation v = .ok p) :
    p.Described := by
  simp only [readPunctuation, bind_eq_ok, pure_eq_ok] at h
  obtain ⟨names, _, entries, hentries, rfl⟩ := h
  refine Punctuation.ofAssignments_described fun e he => ?_
  obtain ⟨i, hi⟩ := List.mem_iff_getElem?.1 he
  obtain ⟨name, _, hname⟩ := forall₂_getElem?_right (mapM_eq_ok.1 hentries) hi
  exact readRole_named hname

end Machine

/-! ## Reading a table back -/

namespace Punctuation

theorem char_mem (p : Punctuation) (r : Role) : p.char r ∈ charset ∨ p.char r = '\x00' := by
  unfold char
  cases hfind : charset.find? fun c => (p.find? c).getD .symbol == r with
  | none => exact .inr rfl
  | some c => exact .inl (List.mem_of_find?_eq_some hfind)

/-- What can be checked for NUL and the whole set holds for the character of every role. -/
theorem char_of_all (p : Punctuation) (r : Role) {P : Char → Prop} [DecidablePred P]
    (h : ('\x00' :: charset).all fun c => decide (P c)) : P (p.char r) := by
  refine of_decide_eq_true (List.all_eq_true.1 h (p.char r) ?_)
  rcases p.char_mem r with hmem | hnul
  · exact List.mem_cons_of_mem _ hmem
  · exact hnul ▸ List.mem_cons_self

/-- Where the whole set is listed, no role is taken from a character. -/
theorem assign_of_listed {listed : List Char} (hlisted : ∀ c ∈ charset, c ∈ listed) (g : Char → Role)
    {c : Char} (hc : c ∈ charset) (r : Role) :
    (ofRoles g).assign listed c r = ofRoles (Function.update g c r) := by
  have hkept : ((ofRoles g).char r != '\x00' && (ofRoles g).char r != c &&
      !listed.contains ((ofRoles g).char r)) = false := by
    rcases char_mem (ofRoles g) r with hmem | hnul
    · simp [hlisted _ hmem]
    · simp [hnul]
  unfold assign
  dsimp only
  rw [if_neg]
  · apply Punctuation.ext
    rw [insert_of_mem (List.append_nil _).symm (List.forall_mem_nil _) hc, List.append_nil]
  simp only [Bool.and_assoc] at hkept ⊢
  rw [hkept, Bool.and_false]
  decide

theorem foldl_assign {listed : List Char} (hlisted : ∀ c ∈ charset, c ∈ listed)
    {l : List (Char × Role)} (hl : ∀ e ∈ l, e.1 ∈ charset) (g : Char → Role) :
    l.foldl (fun p e => p.assign listed e.1 e.2) (ofRoles g) =
      ofRoles (l.foldl (fun g e => Function.update g e.1 e.2) g) := by
  induction l generalizing g with
  | nil => rfl
  | cons e l ih =>
    rw [List.forall_mem_cons] at hl
    rw [List.foldl_cons, List.foldl_cons, assign_of_listed hlisted g hl.1, ih hl.2]

theorem foldl_update_of_not_mem {l : List (Char × Role)} {c : Char} (h : c ∉ l.map Prod.fst)
    (g : Char → Role) : l.foldl (fun g e => Function.update g e.1 e.2) g c = g c := by
  induction l generalizing g with
  | nil => rfl
  | cons e l ih =>
    simp only [List.map_cons, List.mem_cons, not_or] at h
    rw [List.foldl_cons, ih h.2, Function.update_of_ne h.1]

theorem foldl_update_of_mem {l : List (Char × Role)} (hnodup : (l.map Prod.fst).Nodup) {c : Char}
    {r : Role} (h : (c, r) ∈ l) (g : Char → Role) :
    l.foldl (fun g e => Function.update g e.1 e.2) g c = r := by
  induction l generalizing g with
  | nil => cases h
  | cons e l ih =>
    rw [List.map_cons, List.nodup_cons] at hnodup
    rcases List.mem_cons.1 h with rfl | h
    · rw [List.foldl_cons, foldl_update_of_not_mem hnodup.1, Function.update_self]
    · rw [List.foldl_cons, ih hnodup.2 h]

theorem map_fst_ofRoles (g : Char → Role) : (ofRoles g).entries.map Prod.fst = charset := by
  rw [entries_ofRoles, List.map_map]
  exact List.map_id charset

theorem sorted_perm (p : Punctuation) : p.sorted.Perm p.entries := List.mergeSort_perm _ _

theorem named_of_mem_sorted {g : Char → Role} (h : ∀ c ∈ charset, (g c).name?.isSome) :
    ∀ e ∈ (ofRoles g).sorted, e.2.name?.isSome := by
  intro e he
  have hentry := (sorted_perm _).mem_iff.1 he
  obtain ⟨c, hc, rfl⟩ := List.mem_map.1 hentry
  exact h c hc

/-- The entries of a full table, in any order, give the table again. -/
theorem ofAssignments_perm {g : Char → Role} {l : List (Char × Role)}
    (h : l.Perm (ofRoles g).entries) : ofAssignments l = ofRoles g := by
  have hkeys : (l.map Prod.fst).Perm charset := by
    have hperm := h.map Prod.fst
    rwa [map_fst_ofRoles] at hperm
  have hlisted : ∀ c ∈ charset, c ∈ l.map Prod.fst := fun c hc => hkeys.mem_iff.2 hc
  have hcharset : ∀ e ∈ l, e.1 ∈ charset := fun e he => hkeys.mem_iff.1 (List.mem_map_of_mem he)
  have hnodup : (l.map Prod.fst).Nodup := hkeys.nodup_iff.2 nodup_charset
  unfold ofAssignments standard
  rw [foldl_assign hlisted hcharset]
  apply Punctuation.ext
  rw [entries_ofRoles, entries_ofRoles]
  refine List.map_congr_left fun c hc => ?_
  have hentry : (c, g c) ∈ l := h.mem_iff.2 (List.mem_map_of_mem hc)
  rw [foldl_update_of_mem hnodup hentry]

end Punctuation

/-- A character with the role of the given name. -/
def Role.assigned (e : Char × Text) : Char × Role := (e.1, (Role.ofName? e.2).getD .symbol)

namespace Machine

variable {names : List (Char × Text)}

/-- The value lists the names of roles, in this order. -/
def NamesRoles (v : Value) (names : List (Char × Text)) : Prop :=
  ∃ t, roleNames v = .ok t ∧ t.entries = names.map fun e => (Text.ofChar e.1, e.2)

theorem namesRoles_object (hnodup : (names.map Prod.fst).Nodup) :
    NamesRoles (.object (names.map fun e => (Text.ofChar e.1, .string e.2))) names := by
  have hkeys : ((names.map fun e => (Text.ofChar e.1, e.2)).map Prod.fst).Nodup := by
    have hinjective := List.Nodup.map Text.ofChar_injective hnodup
    rwa [List.map_map] at hinjective ⊢
  refine ⟨_, ?_, Table.entries_ofList hkeys⟩
  rw [Table.ofList, List.foldl_map, roleNames, List.foldlM_map]
  exact List.foldlM_pure

theorem NamesRoles.readPunctuation_eq {v : Value} (hnamed : ∀ e ∈ names, (Role.ofName? e.2).isSome)
    (hv : NamesRoles v names) :
    readPunctuation v = .ok (Punctuation.ofAssignments (names.map Role.assigned)) := by
  have hroles : (names.map fun e => (Text.ofChar e.1, e.2)).mapM (fun e => readRole e.1 e.2) =
      .ok (names.map Role.assigned) := by
    rw [mapM_eq_ok, List.forall₂_map_left_iff, List.forall₂_map_right_iff, List.forall₂_same]
    intro e he
    obtain ⟨r, hr⟩ := Option.isSome_iff_exists.1 (hnamed e he)
    simp only [readRole, Text.chars_ofChar, Role.assigned, hr, Option.getD_some]
  obtain ⟨t, hread, hentries⟩ := hv
  simp only [readPunctuation, hread, ok_bind, hentries, hroles]
  rfl

/-- Roles that are written by their names are assigned when they are read. -/
theorem readPunctuation_written {l : List (Char × Role)} (hnodup : (l.map Prod.fst).Nodup)
    (hnamed : ∀ e ∈ l, e.2.name?.isSome) :
    readPunctuation (.object (l.map fun e => (Text.ofChar e.1, .string e.2.text))) =
      .ok (Punctuation.ofAssignments l) := by
  have hkeys : ((l.map fun e => (e.1, e.2.text)).map Prod.fst).Nodup := by
    rw [List.map_map]
    exact hnodup
  have hnames : ∀ e ∈ l.map fun e => (e.1, e.2.text), (Role.ofName? e.2).isSome := by
    refine List.forall_mem_map.2 fun e he => ?_
    rw [Role.ofName?_text (hnamed e he)]
    rfl
  have hassigned : (l.map fun e => (e.1, e.2.text)).map Role.assigned = l := by
    rw [List.map_map]
    refine (List.map_congr_left fun e he => ?_).trans (List.map_id l)
    rw [Function.comp_apply, Role.assigned, Role.ofName?_text (hnamed e he)]
    rfl
  have hread := (namesRoles_object hkeys).readPunctuation_eq hnames
  rw [hassigned, List.map_map] at hread
  exact hread

/-- A full table is read back as it was. -/
theorem readPunctuation_toJson {g : Char → Role} (h : ∀ c ∈ Punctuation.charset, (g c).name?.isSome) :
    readPunctuation (Punctuation.ofRoles g).toJson = .ok (Punctuation.ofRoles g) := by
  have hperm := Punctuation.sorted_perm (Punctuation.ofRoles g)
  have hnodup : ((Punctuation.ofRoles g).sorted.map Prod.fst).Nodup :=
    (hperm.map Prod.fst).nodup_iff.2 (Punctuation.ofRoles g).distinct
  rw [Punctuation.toJson, readPunctuation_written hnodup (Punctuation.named_of_mem_sorted h),
    Punctuation.ofAssignments_perm hperm]

end Machine

end CellAsm
