-- SUMMARY: The constants of a program refer backwards only, so they can be resolved.
import CellAsm.Proofs.Chains
import CellAsm.Proofs.Constants
import CellAsm.Proofs.History

/-!
# The order of constants

A constant has to be defined before another may stand for it. So the value of each
constant of a program is a number, a constant of the machine, or a constant of the
program that was defined before. Going back along these definitions ends in a number. A
constant of the program that hides one of the machine is the only way out of that order:
an earlier constant may then stand for the later one.
-/
namespace CellAsm

/-- An element of a list with one added at the end is that one, or is in the list. -/
theorem of_concat_eq {α : Type} {l before after : List α} {x y : α}
    (h : l ++ [x] = before ++ y :: after) :
    (l = before ∧ x = y) ∨ ∃ more, l = before ++ y :: more := by
  rcases List.eq_nil_or_concat after with rfl | ⟨more, last, rfl⟩
  · obtain ⟨hleft, hlast⟩ := List.append_inj' h rfl
    exact .inl ⟨hleft, List.head_eq_of_cons_eq hlast⟩
  · rw [List.concat_eq_append, ← List.cons_append, ← List.append_assoc] at h
    exact .inr ⟨more, (List.append_inj' h rfl).1⟩

namespace Equ

/-- A value that a constant may have after the definitions `before`. -/
inductive Known (globals : List NamedValue) (before : List (Text × Token)) (v : Token) : Prop
  | number (hkind : v.kind = .constant)
  | ofMachine {g : NamedValue} (hkind : v.kind = .identifier)
      (hglobal : globals.find? (·.name == v.symbol) = some g)
  | earlier {u : Token} (hkind : v.kind = .identifier) (hbefore : (v.symbol, u) ∈ before)

/-- Every constant is new where it is defined, and its value is known there. -/
def Ordered (globals : List NamedValue) (entries : List (Text × Token)) : Prop :=
  ∀ before name v after, entries = before ++ (name, v) :: after →
    name ∉ before.map Prod.fst ∧ Known globals before v

/-- The value `v`, which stands after the definitions `before`, leads back to `w`: at each step
either to the constants of the machine or to an earlier definition, after those before it. -/
inductive Backward (globals : List NamedValue) : List (Text × Token) → Token → Token → Prop
  | number {before : List (Text × Token)} {v : Token} (hkind : v.kind = .constant) :
      Backward globals before v v
  | ofMachine {before : List (Text × Token)} {v : Token} {g : NamedValue}
      (hkind : v.kind = .identifier) (hglobal : globals.find? (·.name == v.symbol) = some g) :
      Backward globals before v (literal g.value)
  | earlier {before after : List (Text × Token)} {v u w : Token} (hkind : v.kind = .identifier)
      (h : Backward globals before u w) :
      Backward globals (before ++ (v.symbol, u) :: after) v w

variable {globals : List NamedValue} {entries before after : List (Text × Token)} {name : Text}
  {v w : Token}

theorem ordered_nil : Ordered globals [] := by
  intro before name v after h
  cases (List.append_eq_nil_iff.1 h.symm).2

namespace Ordered

/-- What was defined up to some point is in order. -/
theorem left (h : Ordered globals (before ++ after)) : Ordered globals before := by
  rintro before' name v rest rfl
  exact h before' name v (rest ++ after) (by rw [List.append_assoc, List.cons_append])

theorem concat (h : Ordered globals entries) (hnew : name ∉ entries.map Prod.fst)
    (hknown : Known globals entries v) : Ordered globals (entries ++ [(name, v)]) := by
  intro before name' v' after heq
  rcases of_concat_eq heq with ⟨rfl, hlast⟩ | ⟨more, hmore⟩
  · cases hlast
    exact ⟨hnew, hknown⟩
  · exact h before name' v' more hmore

/-- Every known value leads back to a number. -/
theorem exists_backward (h : Ordered globals before) (hknown : Known globals before v) :
    ∃ w, Backward globals before v w ∧ w.kind = .constant := by
  induction hlength : before.length using Nat.strong_induction_on generalizing before v with
  | _ n ih =>
    cases hknown with
    | number hkind => exact ⟨v, .number hkind, hkind⟩
    | ofMachine hkind hglobal => exact ⟨_, .ofMachine hkind hglobal, rfl⟩
    | @earlier u hkind hbefore =>
      obtain ⟨earlier, after, rfl⟩ := List.append_of_mem hbefore
      have hlt : earlier.length < n := by
        rw [← hlength, List.length_append, List.length_cons]
        omega
      obtain ⟨w, hback, hw⟩ := ih _ hlt h.left (h earlier _ u after rfl).2 rfl
      exact ⟨w, .earlier hkind hback, hw⟩

end Ordered

/-! ## Following constants back -/

/-- A constant of the program hides the one of the machine, and the first of those that the
machine has under a name is in force. -/
theorem find?_merge (locals : Table Token) (globals : List NamedValue) (name : Text) :
    (merge locals globals).find? name = (locals.find? name).or
      ((globals.find? (·.name == name)).map fun g => literal g.value) := by
  unfold merge
  induction globals generalizing locals with
  | nil => simp
  | cons g rest ih =>
    rw [List.foldl_cons, ih]
    by_cases hg : g.name = name
    · subst hg
      rw [List.find?_cons_of_pos (by simp)]
      cases hlocal : locals.find? g.name with
      | none => simp [Table.contains, hlocal, Table.find?_insert]
      | some v => simp [Table.contains, hlocal]
    · rw [List.find?_cons_of_neg (by simpa using hg)]
      split
      · rfl
      · rw [Table.find?_insert, if_neg (Ne.symm hg)]

/-- More steps do not change what is found. -/
theorem chase_mono {table : Table Token} {steps more : Nat} (hle : steps ≤ more)
    (h : chase table name steps v = .ok w) : chase table name more v = .ok w := by
  induction steps generalizing more v with
  | zero =>
    unfold chase at h ⊢
    split at h
    · cases h
    · rename_i hkind
      rw [if_neg hkind]
      exact h
  | succ steps ih =>
    obtain ⟨more, rfl⟩ := Nat.exists_eq_add_of_le' hle
    rw [← Nat.add_assoc]
    unfold chase at h ⊢
    split at h
    · rename_i hkind
      rw [if_pos hkind]
      dsimp only at h ⊢
      split at h
      · cases h
      · exact ih (by omega) h
    · rename_i hkind
      rw [if_neg hkind]
      exact h

/-- Going back from a value takes at most one step for each definition before it, and one more
to the constants of the machine. -/
theorem Backward.chase {locals : Table Token} (hback : Backward globals before v w)
    (hdisjoint : ∀ n ∈ locals.names, globals.find? (·.name == n) = none)
    (hbefore : before <+: locals.entries) :
    chase (merge locals globals) name (before.length + 1) v = .ok w := by
  induction hback with
  | number hkind =>
    unfold Equ.chase
    rw [if_neg (by rw [hkind]; decide), if_pos hkind]
  | @ofMachine before v g hkind hglobal =>
    have hnone : locals.find? v.symbol = none := by
      rw [Table.find?_eq_none_iff]
      intro hmem
      cases hglobal.symm.trans (hdisjoint _ hmem)
    have hfind : (merge locals globals).find? v.symbol = some (literal g.value) := by
      rw [find?_merge, hnone, hglobal]
      rfl
    unfold Equ.chase
    simp only [hkind, if_true, hfind]
    unfold Equ.chase
    rfl
  | @earlier before after v u w hkind _ ih =>
    obtain ⟨rest, hrest⟩ := hbefore
    rw [List.append_assoc, List.cons_append] at hrest
    have hlocal : locals.find? v.symbol = some u := by
      apply Table.find?_of_mem
      rw [← hrest]
      exact List.mem_append_right _ List.mem_cons_self
    have hfind : (merge locals globals).find? v.symbol = some u := by
      rw [find?_merge, hlocal]
      rfl
    have hchase := ih ⟨_, hrest⟩
    unfold Equ.chase
    simp only [hkind, if_true, hfind]
    refine chase_mono ?_ hchase
    rw [List.length_append, List.length_cons]
    omega

/-- A constant that is followed to a number within some bound is followed to it within the one
that is used. -/
theorem follow_of_chase {table : Table Token} {steps : Nat} (hfind : table.find? name = some v)
    (h : chase table name steps v = .ok w) : follow table name = .ok w := by
  have hfollowed : Followed table name steps name (chase table name steps v) :=
    followed_chase hfind
  rw [h] at hfollowed
  cases hfollowed with
  | number hend hkind => exact follow_of_endsIn hend hkind (Table.mem_names_of_find? hfind)

/-- Each constant leads back to a number, and that is what it is followed to. -/
theorem Ordered.exists_follow {locals : Table Token} (hordered : Ordered globals locals.entries)
    (hdisjoint : ∀ n ∈ locals.names, globals.find? (·.name == n) = none)
    (hentries : locals.entries = before ++ (name, v) :: after) :
    ∃ w, Backward globals before v w ∧ w.kind = .constant ∧
      chase (merge locals globals) name (before.length + 1) v = .ok w ∧
      (merge locals globals).find? name = some v ∧ follow (merge locals globals) name = .ok w := by
  have hsplit := hordered
  rw [hentries] at hsplit
  obtain ⟨w, hback, hconstant⟩ := hsplit.left.exists_backward (hordered _ _ _ _ hentries).2
  have hchase : chase (merge locals globals) name (before.length + 1) v = .ok w :=
    hback.chase hdisjoint ⟨_, hentries.symm⟩
  have hfind : (merge locals globals).find? name = some v := by
    have hlocal : locals.find? name = some v := by
      apply Table.find?_of_mem
      rw [hentries]
      exact List.mem_append_right _ List.mem_cons_self
    rw [find?_merge, hlocal]
    rfl
  exact ⟨w, hback, hconstant, hchase, hfind, follow_of_chase hfind hchase⟩

/-! ## Resolving all constants -/

/-- Every constant in force is followed to a number. -/
theorem Ordered.exists_follow_of_mem {locals : Table Token}
    (hordered : Ordered globals locals.entries)
    (hdisjoint : ∀ n ∈ locals.names, globals.find? (·.name == n) = none)
    (hmem : name ∈ (merge locals globals).names) :
    ∃ w, follow (merge locals globals) name = .ok w := by
  cases hlocal : locals.find? name with
  | some v =>
    obtain ⟨before, after, hentries, _⟩ := List.lookup_eq_some_iff.1 hlocal
    obtain ⟨w, _, _, _, _, hw⟩ := hordered.exists_follow hdisjoint hentries
    exact ⟨w, hw⟩
  | none =>
    cases hfind : (merge locals globals).find? name with
    | none => exact absurd hmem (Table.find?_eq_none_iff.1 hfind)
    | some v =>
      have hglobal := hfind
      rw [find?_merge, hlocal, Option.none_or, Option.map_eq_some_iff] at hglobal
      obtain ⟨g, _, rfl⟩ := hglobal
      have hend := endsIn_self hfind (by rintro ⟨⟩)
      exact ⟨_, follow_of_endsIn hend rfl hmem⟩

/-- Constants in order, none of which hides one of the machine, can be resolved. -/
theorem exists_resolve {locals : Table Token} (statements : List Statement)
    (hordered : Ordered globals locals.entries)
    (hdisjoint : ∀ n ∈ locals.names, globals.find? (·.name == n) = none) :
    ∃ cs resolved, resolve statements locals globals = .ok (cs, resolved) := by
  cases hresolve : resolve statements locals globals with
  | ok r => exact ⟨r.1, r.2, rfl⟩
  | error f =>
    exfalso
    simp only [resolve, resolveTable, bind_eq_error] at hresolve
    rcases hresolve with (hmap | ⟨_, _, ⟨⟩⟩) | ⟨_, _, ⟨⟩⟩
    obtain ⟨e, he, herror⟩ := exists_of_mapM_eq_error hmap
    obtain ⟨w, hw⟩ := hordered.exists_follow_of_mem hdisjoint (List.mem_map_of_mem he)
    rw [hw] at herror
    cases herror

end Equ

/-! ## The constants of a program -/

namespace SourceState

theorem known_of_checkEquValue {m : Machine} {s : SourceState} {symbol : Text} {value : Token}
    (h : checkEquValue m s symbol value = .ok ()) : Equ.Known m.equs s.equs.entries value := by
  unfold checkEquValue at h
  split at h
  · rename_i hkind
    exact .number hkind
  · rename_i hkind
    split at h
    · rename_i hdefined
      rcases Bool.or_eq_true_iff.1 hdefined with hlocal | hglobal
      · obtain ⟨u, hu⟩ := Option.isSome_iff_exists.1 hlocal
        exact .earlier hkind (mem_of_lookup hu)
      · obtain ⟨g, hg⟩ := Option.isSome_iff_exists.1 hglobal
        exact .ofMachine hkind hg
    · cases h
  · cases h

/-- What a moment makes of the constants. -/
inductive Constants (m : Machine) (s s' : SourceState) : Prop
  | kept (hequs : s'.equs = s.equs) (hnames : s'.equNames = s.equNames)
  | defined {name value : Token} (hnew : s.equNames.find? name.symbol = none)
      (hknown : Equ.Known m.equs s.equs.entries value)
      (hequs : s'.equs = s.equs.insert name.symbol value)
      (hnames : s'.equNames = s.equNames.insert name.symbol name)

end SourceState

namespace SourceEnv

variable {env : SourceEnv}

theorem Moves.constants {m : Moment} {s : SourceState} (h : env.Moves m s) :
    m.state.Constants env.machine s := by
  cases h with
  | read _ hgains =>
    cases hgains with
    | waits => exact .kept rfl rfl
    | adds _ hadds =>
      cases hadds with
      | statement => exact .kept rfl rfl
      | constant _ hnew hvalue =>
        exact .defined hnew (SourceState.known_of_checkEquValue hvalue) rfl rfl
      | exports => exact .kept rfl rfl
    | starts => exact .kept rfl rfl
  | collected _ hcollects =>
    cases hcollects with
    | closes => exact .kept rfl rfl
    | keeps => exact .kept rfl rfl
  | idle => exact .kept rfl rfl

/-- After the moments `ms` the constants stand in the order of their definition: there was a
moment at which exactly those before it were defined. -/
structure InOrder (env : SourceEnv) (ms : List Moment) (s : SourceState) : Prop where
  names : s.equNames.names = s.equs.names
  ordered : Equ.Ordered env.machine.equs s.equs.entries
  moments : ∀ before e after, s.equs.entries = before ++ e :: after →
    ∃ m ∈ ms, m.state.equs.entries = before

namespace InOrder

variable {ms : List Moment} {m : Moment} {s : SourceState}

theorem empty : env.InOrder [] {} where
  names := rfl
  ordered := Equ.ordered_nil
  moments before e after h := by cases (List.append_eq_nil_iff.1 h.symm).2

theorem step (h : env.InOrder ms m.state) (hmoves : env.Moves m s) :
    env.InOrder (ms ++ [m]) s := by
  have hmoments {before : List (Text × Token)} (hm : ∃ m ∈ ms, m.state.equs.entries = before) :
      ∃ m' ∈ ms ++ [m], m'.state.equs.entries = before := by
    obtain ⟨m', hm', heq⟩ := hm
    exact ⟨m', List.mem_append_left _ hm', heq⟩
  cases hmoves.constants with
  | kept hequs hnames =>
    refine ⟨?_, ?_, ?_⟩
    · rw [hequs, hnames]
      exact h.names
    · rw [hequs]
      exact h.ordered
    · intro before e after heq
      rw [hequs] at heq
      exact hmoments (h.moments before e after heq)
  | @defined name value hnew hknown hequs hnames =>
    have hname : name.symbol ∉ m.state.equNames.names := Table.find?_eq_none_iff.1 hnew
    have hlocal : name.symbol ∉ m.state.equs.names := h.names ▸ hname
    have hentries : s.equs.entries = m.state.equs.entries ++ [(name.symbol, value)] := by
      rw [hequs, Table.entries_insert hlocal]
    refine ⟨?_, ?_, ?_⟩
    · rw [hnames, hequs, Table.names_insert hname, Table.names_insert hlocal, h.names]
    · rw [hentries]
      exact h.ordered.concat hlocal hknown
    · intro before e after heq
      rw [hentries] at heq
      rcases of_concat_eq heq with ⟨hbefore, _⟩ | ⟨more, hmore⟩
      · exact ⟨m, List.mem_append_right _ (List.mem_singleton_self m), hbefore⟩
      · exact hmoments (h.moments before e more hmore)

end InOrder

end SourceEnv

namespace Sample

/-- Constants that stand for a number, for one of the machine, and for earlier ones, one of them
defined in an expansion. -/
def constantSource : Text := "a EQU 1\nMACRO d\nb EQU a\nENDM\n d\nc EQU g\ne EQU b\n"

def constantEnv : SourceEnv := ⟨{ assembler.machine with equs := [⟨"g", 5⟩] }, none⟩

/-- What the first source is read as. -/
def constants : SourceState := (constantEnv.parsedAfter? "main" constantSource 16).getD {}

end Sample

end CellAsm
