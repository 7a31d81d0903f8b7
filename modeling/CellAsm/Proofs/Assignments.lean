-- SUMMARY: The punctuation table that a description lists, whatever the order in which it lists it.
import CellAsm.Proofs.Punctuation

/-!
# Listed roles in any order

The characters that a description lists are visited one after the other. A marker role is
taken from the character that holds it at that moment, unless this one is listed as well.
Who holds a role changes on the way, and two visits need not commute. But only one
character that is not listed can ever hold a marker role, the standard holder, and it loses the
role to the first listed character that takes it. So the table depends on which roles are
taken, and not on when.
-/
namespace CellAsm

open Json (Value)

namespace Role

/-- What a character that is not listed does with its role: it gives up a marker role that
is taken. -/
def yielding (taken : List Role) (r : Role) : Role :=
  if r ∈ markers ∧ r ∈ taken then symbol else r

theorem yielding_eq_iff {taken : List Role} {r s : Role} (hs : s ∈ markers) :
    yielding taken r = s ↔ r = s ∧ s ∉ taken := by
  have hsymbol := ne_symbol_of_mem_markers hs
  unfold yielding
  split
  · rename_i h
    constructor
    · intro heq
      exact absurd heq.symm hsymbol
    · rintro ⟨rfl, hnot⟩
      exact absurd h.2 hnot
  · rename_i h
    constructor
    · rintro rfl
      exact ⟨rfl, fun htaken => h ⟨hs, htaken⟩⟩
    · exact And.left

/-- Only the first to take a role makes a difference. -/
theorem yielding_append {taken : List Role} {r s : Role} (h : s = r → s ∈ markers → s ∈ taken) :
    yielding (taken ++ [r]) s = yielding taken s := by
  unfold yielding
  refine if_congr ?_ rfl rfl
  rw [List.mem_append, List.mem_singleton]
  constructor
  · rintro ⟨hmarker, htaken | heq⟩
    · exact ⟨hmarker, htaken⟩
    · exact ⟨hmarker, h heq hmarker⟩
  · rintro ⟨hmarker, htaken⟩
    exact ⟨hmarker, .inl htaken⟩

theorem yielding_append_self {taken : List Role} {r : Role} (h : r ∈ markers) :
    yielding (taken ++ [r]) r = symbol :=
  if_pos ⟨h, List.mem_append_right _ List.mem_cons_self⟩

end Role

namespace Punctuation

/-! ## Visiting the listed characters -/

theorem mem_charset_of_standard {c : Char} {r : Role} (h : standard.find? c = some r) :
    c ∈ charset := by
  obtain ⟨d, hd, heq⟩ := List.mem_map.1 (mem_of_lookup h)
  exact (Prod.mk.inj heq).1 ▸ hd

/-- A marker role has one holder in the standard table. -/
theorem standard_holder {c d : Char} {r : Role} (hr : r ∈ Role.markers)
    (hc : standard.find? c = some r) (hd : standard.find? d = some r) : c = d := by
  have hunique : standard.entries.all fun e => standard.entries.all fun e' =>
      decide (e.2 ∈ Role.markers → e'.2 = e.2 → e.1 = e'.1) := by decide +kernel
  have hall := List.all_eq_true.1 (List.all_eq_true.1 hunique _ (mem_of_lookup hc)) _ (mem_of_lookup hd)
  exact of_decide_eq_true hall hr rfl

/-- The table while the listed characters are visited, when `done` are those behind. -/
structure Visited (listed : List Char) (done : List (Char × Role)) (p : Punctuation) : Prop where
  behind : ∀ e ∈ done, p.find? e.1 = some e.2
  ahead : ∀ c ∈ listed, c ∉ done.map Prod.fst → p.find? c = standard.find? c
  unlisted : ∀ c ∉ listed, p.find? c = (standard.find? c).map (Role.yielding (done.map Prod.snd))

theorem visited_standard (listed : List Char) : Visited listed [] standard where
  behind := List.forall_mem_nil _
  ahead _ _ _ := rfl
  unlisted c _ := by
    have hkept : Role.yielding (([] : List (Char × Role)).map Prod.snd) = id := by
      funext r
      exact if_neg fun h => List.not_mem_nil h.2
    rw [hkept, Option.map_id, id]

namespace Visited

variable {listed : List Char} {done : List (Char × Role)} {p : Punctuation} {c x : Char} {r : Role}

theorem find?_eq_iff (h : Visited listed done p) (hr : r ∈ Role.markers) (hx : x ∉ listed) :
    p.find? x = some r ↔ standard.find? x = some r ∧ r ∉ done.map Prod.snd := by
  rw [h.unlisted x hx, Option.map_eq_some_iff]
  constructor
  · rintro ⟨s, hs, hyield⟩
    obtain ⟨rfl, htaken⟩ := (Role.yielding_eq_iff hr).1 hyield
    exact ⟨hs, htaken⟩
  · rintro ⟨hs, htaken⟩
    exact ⟨r, hs, (Role.yielding_eq_iff hr).2 ⟨rfl, htaken⟩⟩

/-- A marker role that no listed character has taken is found at its standard holder. -/
theorem char_eq (h : Visited listed done p) (hr : r ∈ Role.markers)
    (hx : standard.find? x = some r) (hfind : p.find? x = some r) (htaken : r ∉ done.map Prod.snd) :
    p.char r = x := by
  have hholder := find?_char_of_ne (Role.ne_symbol_of_mem_markers hr)
    (char_ne_of_find? (mem_charset_of_standard hx) hfind)
  refine standard_holder hr ?_ hx
  by_cases hlisted : p.char r ∈ listed
  · by_cases hdone : p.char r ∈ done.map Prod.fst
    · obtain ⟨e, he, heq⟩ := List.mem_map.1 hdone
      have hrole := h.behind e he
      rw [heq, hholder] at hrole
      exact absurd (List.mem_map.2 ⟨e, he, (Option.some.inj hrole).symm⟩) htaken
    · rw [← h.ahead _ hlisted hdone]
      exact hholder
  · exact ((h.find?_eq_iff hr hlisted).1 hholder).1

end Visited

/-- The character `x` gives the role up to `c`, which is visited next. -/
def Yields (listed : List Char) (p : Punctuation) (c : Char) (r : Role) (x : Char) : Prop :=
  r ∈ Role.markers ∧ p.char r = x ∧ x ≠ '\x00' ∧ x ≠ c ∧ x ∉ listed

instance (listed : List Char) (p : Punctuation) (c : Char) (r : Role) (x : Char) :
    Decidable (Yields listed p c r x) :=
  inferInstanceAs (Decidable (_ ∧ _ ∧ _ ∧ _ ∧ _))

theorem find?_assign (listed : List Char) (p : Punctuation) (c : Char) (r : Role) (d : Char) :
    (p.assign listed c r).find? d =
      if d = c then some r else if Yields listed p c r d then some .symbol else p.find? d := by
  have hguard : (Role.markers.contains r && p.char r != '\x00' && p.char r != c &&
      !listed.contains (p.char r)) = true ↔ Yields listed p c r (p.char r) := by
    simp [Yields, and_assoc]
  unfold assign
  dsimp only
  rw [find?_insert]
  refine if_congr Iff.rfl rfl ?_
  split
  · rename_i h
    rw [find?_insert]
    refine if_congr ⟨?_, fun hyields => hyields.2.1.symm⟩ rfl rfl
    rintro rfl
    exact hguard.1 h
  · rename_i h
    have hkept : ¬Yields listed p c r d := by
      intro hyields
      rw [hguard, hyields.2.1] at h
      exact h hyields
    rw [if_neg hkept]

namespace Visited

variable {listed : List Char} {done : List (Char × Role)} {p : Punctuation} {c x : Char} {r : Role}

/-- The standard holder of a marker role yields to the first listed character that takes it. -/
theorem yields_iff (h : Visited listed done p) (hc : c ∈ listed) (hx : x ∉ listed) :
    Yields listed p c r x ↔
      r ∈ Role.markers ∧ standard.find? x = some r ∧ r ∉ done.map Prod.snd := by
  constructor
  · rintro ⟨hr, hchar, hnul, _, _⟩
    rw [← hchar] at hnul
    have hholder := find?_char_of_ne (Role.ne_symbol_of_mem_markers hr) hnul
    rw [hchar] at hholder
    exact ⟨hr, (h.find?_eq_iff hr hx).1 hholder⟩
  · rintro ⟨hr, hstandard, htaken⟩
    have hfind := (h.find?_eq_iff hr hx).2 ⟨hstandard, htaken⟩
    have hchar := h.char_eq hr hstandard hfind htaken
    refine ⟨hr, hchar, ?_, fun heq => hx (heq ▸ hc), hx⟩
    rw [← hchar]
    exact char_ne_of_find? (mem_charset_of_standard hstandard) hfind

/-- One more character is visited. -/
theorem assign (h : Visited listed done p) (hdone : ∀ e ∈ done, e.1 ∈ listed) (hc : c ∈ listed)
    (hnew : c ∉ done.map Prod.fst) (r : Role) :
    Visited listed (done ++ [(c, r)]) (p.assign listed c r) where
  behind := by
    refine List.forall_mem_append.2 ⟨fun e he => ?_, ?_⟩
    · have hne : e.1 ≠ c := fun heq => hnew (heq ▸ List.mem_map_of_mem he)
      have hkept : ¬Yields listed p c r e.1 := fun hyields => hyields.2.2.2.2 (hdone e he)
      rw [find?_assign, if_neg hne, if_neg hkept]
      exact h.behind e he
    · rw [List.forall_mem_singleton, find?_assign, if_pos rfl]
  ahead := by
    intro x hx hahead
    rw [List.map_append, List.mem_append, not_or] at hahead
    have hne : x ≠ c := fun heq => hahead.2 (List.mem_singleton.2 heq)
    have hkept : ¬Yields listed p c r x := fun hyields => hyields.2.2.2.2 hx
    rw [find?_assign, if_neg hne, if_neg hkept]
    exact h.ahead x hx hahead.1
  unlisted := by
    intro x hx
    have hne : x ≠ c := fun heq => hx (heq ▸ hc)
    rw [find?_assign, if_neg hne, List.map_append, List.map_singleton]
    by_cases hyields : Yields listed p c r x
    · obtain ⟨hr, hstandard, _⟩ := (h.yields_iff hc hx).1 hyields
      rw [if_pos hyields, hstandard, Option.map_some, Role.yielding_append_self hr]
    · rw [if_neg hyields, h.unlisted x hx]
      refine Option.map_congr fun s hs => (Role.yielding_append ?_).symm
      rintro rfl hmarker
      by_contra htaken
      exact hyields ((h.yields_iff hc hx).2 ⟨hmarker, hs, htaken⟩)

/-- All that is ahead is visited. -/
theorem foldl {todo : List (Char × Role)} (h : Visited listed done p)
    (hlisted : ∀ e ∈ done ++ todo, e.1 ∈ listed)
    (hdistinct : ((done ++ todo).map Prod.fst).Nodup) :
    Visited listed (done ++ todo) (todo.foldl (fun p e => p.assign listed e.1 e.2) p) := by
  induction todo generalizing done p with
  | nil =>
    rw [List.append_nil]
    exact h
  | cons e todo ih =>
    have hnew : e.1 ∉ done.map Prod.fst := by
      rw [List.map_append, List.map_cons, List.nodup_append] at hdistinct
      intro hmem
      exact hdistinct.2.2 e.1 hmem e.1 List.mem_cons_self rfl
    obtain ⟨hdone, htodo⟩ := List.forall_mem_append.1 hlisted
    have hstep := h.assign hdone (htodo e List.mem_cons_self) hnew e.2
    rw [List.append_cons] at hlisted hdistinct ⊢
    exact ih hstep hlisted hdistinct

end Visited

theorem visited_ofAssignments {entries : List (Char × Role)} (h : (entries.map Prod.fst).Nodup) :
    Visited (entries.map Prod.fst) entries (ofAssignments entries) :=
  (visited_standard _).foldl (fun _ he => List.mem_map_of_mem he) h

/-- Tables that agree on every character have the same entries. -/
theorem perm_entries {p q : Punctuation} (h : ∀ c, p.find? c = q.find? c) :
    p.entries.Perm q.entries := by
  refine (List.perm_ext_iff_of_nodup (.of_map _ p.distinct) (.of_map _ q.distinct)).2 fun e => ?_
  have hmem (p : Punctuation) : e ∈ p.entries ↔ p.find? e.1 = some e.2 :=
    ⟨find?_of_mem, mem_of_lookup⟩
  rw [hmem, hmem, h]

end Punctuation

/-! ## Reading a table -/

/-- Some listed character takes the role. -/
def Role.IsTaken (names : List (Char × Text)) (r : Role) : Prop :=
  ∃ e ∈ names, Role.ofName? e.2 = some r

namespace Punctuation

/-- The table is the standard one with the roles that are listed by their names. -/
structure Follows (p : Punctuation) (names : List (Char × Text)) : Prop where
  listed : ∀ c name r, (c, name) ∈ names → Role.ofName? name = some r → p.find? c = some r
  /-- The standard holder of a marker role gives it up to a listed character. -/
  yielded : ∀ c r, c ∉ names.map Prod.fst → r ∈ Role.markers → standard.find? c = some r →
    r.IsTaken names → p.find? c = some .symbol
  kept : ∀ c ∈ charset, c ∉ names.map Prod.fst →
    (∀ r ∈ Role.markers, standard.find? c = some r → ¬r.IsTaken names) →
    p.find? c = standard.find? c
  absent : ∀ c, c ∉ names.map Prod.fst → c ∉ charset → p.find? c = none

variable {names : List (Char × Text)} (hnamed : ∀ e ∈ names, (Role.ofName? e.2).isSome)
include hnamed

/-- What is listed determines the table. -/
theorem Follows.find?_eq {p q : Punctuation} (hp : p.Follows names) (hq : q.Follows names)
    (c : Char) : p.find? c = q.find? c := by
  by_cases hlisted : c ∈ names.map Prod.fst
  · obtain ⟨e, he, rfl⟩ := List.mem_map.1 hlisted
    obtain ⟨r, hr⟩ := Option.isSome_iff_exists.1 (hnamed e he)
    rw [hp.listed e.1 e.2 r he hr, hq.listed e.1 e.2 r he hr]
  · by_cases hset : c ∈ charset
    · by_cases hkept : ∀ r ∈ Role.markers, standard.find? c = some r → ¬r.IsTaken names
      · rw [hp.kept c hset hlisted hkept, hq.kept c hset hlisted hkept]
      · push Not at hkept
        obtain ⟨r, hr, hstandard, htaken⟩ := hkept
        rw [hp.yielded c r hlisted hr hstandard htaken, hq.yielded c r hlisted hr hstandard htaken]
    · rw [hp.absent c hlisted hset, hq.absent c hlisted hset]

theorem mem_map_assigned {r : Role} :
    r ∈ (names.map Role.assigned).map Prod.snd ↔ r.IsTaken names := by
  rw [List.map_map, List.mem_map]
  refine exists_congr fun e => and_congr_right fun he => ?_
  obtain ⟨s, hs⟩ := Option.isSome_iff_exists.1 (hnamed e he)
  rw [Function.comp_apply, Role.assigned, hs, Option.getD_some, Option.some_inj]

/-- The standard table changed for all that is listed follows the list. -/
theorem follows_ofAssignments (hdistinct : (names.map Prod.fst).Nodup) :
    (ofAssignments (names.map Role.assigned)).Follows names := by
  have hkeys : (names.map Role.assigned).map Prod.fst = names.map Prod.fst := List.map_map
  have h := visited_ofAssignments (hkeys ▸ hdistinct)
  rw [hkeys] at h
  constructor
  · intro c name r hmem hr
    have hentry : Role.assigned (c, name) = (c, r) := by
      rw [Role.assigned, hr]
      rfl
    exact h.behind (c, r) (hentry ▸ List.mem_map_of_mem hmem)
  · intro c r hc hr hstandard htaken
    rw [h.unlisted c hc, hstandard, Option.map_some, Role.yielding,
      if_pos ⟨hr, (mem_map_assigned hnamed).2 htaken⟩]
  · intro c _ hc hkept
    rw [h.unlisted c hc]
    cases hstandard : standard.find? c with
    | none => rfl
    | some r =>
      rw [Option.map_some, Role.yielding, if_neg]
      rintro ⟨hr, htaken⟩
      exact hkept r hr hstandard ((mem_map_assigned hnamed).1 htaken)
  · intro c hc hset
    have hnone : standard.find? c = none :=
      Option.eq_none_iff_forall_ne_some.2 fun r hr => hset (mem_charset_of_standard hr)
    rw [h.unlisted c hc, hnone, Option.map_none]

omit hnamed

theorem Follows.perm {p : Punctuation} {visited : List (Char × Text)} (h : p.Follows visited)
    (hperm : visited.Perm names) : p.Follows names := by
  have hkeys {c : Char} : c ∈ visited.map Prod.fst ↔ c ∈ names.map Prod.fst :=
    (hperm.map Prod.fst).mem_iff
  have htaken {r : Role} : r.IsTaken visited ↔ r.IsTaken names :=
    exists_congr fun e => and_congr_left fun _ => hperm.mem_iff
  constructor
  · exact fun c name r hmem => h.listed c name r (hperm.mem_iff.2 hmem)
  · exact fun c r hc hr hstandard hr' => h.yielded c r (mt hkeys.1 hc) hr hstandard (htaken.2 hr')
  · exact fun c hset hc hkept =>
      h.kept c hset (mt hkeys.1 hc) fun r hr hstandard => mt htaken.1 (hkept r hr hstandard)
  · exact fun c hc => h.absent c (mt hkeys.1 hc)

end Punctuation

namespace Machine

/-- The value lists the roles of characters by their names, in some order. -/
def ListsRoles (v : Value) (names : List (Char × Text)) : Prop :=
  ∃ visited : List (Char × Text), visited.Perm names ∧ NamesRoles v visited

variable {names : List (Char × Text)}

/-- An object with a member for each character, whatever their order, lists their roles. -/
theorem listsRoles_object (hdistinct : (names.map Prod.fst).Nodup) {visited : List (Char × Text)}
    (hperm : visited.Perm names) :
    ListsRoles (.object (visited.map fun e => (Text.ofChar e.1, .string e.2))) names :=
  ⟨visited, hperm, namesRoles_object ((hperm.map Prod.fst).nodup_iff.2 hdistinct)⟩

theorem ListsRoles.exists_read {v : Value} (hdistinct : (names.map Prod.fst).Nodup)
    (hnamed : ∀ e ∈ names, (Role.ofName? e.2).isSome) (hv : ListsRoles v names) :
    ∃ p, readPunctuation v = .ok p ∧ p.Follows names := by
  obtain ⟨visited, hperm, hread⟩ := hv
  have hnamed' : ∀ e ∈ visited, (Role.ofName? e.2).isSome := fun e he => hnamed e (hperm.mem_iff.1 he)
  have hdistinct' := (hperm.map Prod.fst).nodup_iff.2 hdistinct
  exact ⟨_, hread.readPunctuation_eq hnamed',
    (Punctuation.follows_ofAssignments hnamed' hdistinct').perm hperm⟩

/-- Roles that are listed by their names are read as the same table in whatever order they
are listed. -/
theorem readPunctuation_any_order (hdistinct : (names.map Prod.fst).Nodup)
    (hnamed : ∀ e ∈ names, (Role.ofName? e.2).isSome) {v w : Value} (hv : ListsRoles v names)
    (hw : ListsRoles w names) :
    ∃ p q, readPunctuation v = .ok p ∧ readPunctuation w = .ok q ∧ p.Follows names ∧
      p.entries.Perm q.entries := by
  obtain ⟨p, hreadp, hp⟩ := hv.exists_read hdistinct hnamed
  obtain ⟨q, hreadq, hq⟩ := hw.exists_read hdistinct hnamed
  exact ⟨p, q, hreadp, hreadq, hp, Punctuation.perm_entries (hp.find?_eq hnamed hq)⟩

end Machine

namespace Sample

/-- The colon passes its role on and takes that of the semicolon, and a letter takes the
role of the dot, which is listed itself. -/
def reassigned : List (Char × Text) :=
  [('#', "Label"), (':', "comment"), ('.', "symbol"), ('λ', "PSEUDO")]

/-- The same roles in another order, the dot twice. -/
def reordered : Value :=
  .object [(".", .string "illegal"), ("λ", .string "PSEUDO"), (":", .string "comment"),
    ("#", .string "Label"), (".", .string "symbol")]

theorem reassigned_any_order : ∃ p q,
    Machine.readPunctuation
      (.object (reassigned.map fun e => (Text.ofChar e.1, .string e.2))) = .ok p ∧
    Machine.readPunctuation reordered = .ok q ∧ p.find? ':' = some .comment ∧
    p.find? ';' = some .symbol ∧ p.find? 'λ' = some .pseudo ∧ p.find? '!' = some .symbol ∧
    p.find? 'x' = none ∧ p.entries.Perm q.entries := by
  have hdistinct : (reassigned.map Prod.fst).Nodup := by decide +kernel
  have hnamed : ∀ e ∈ reassigned, (Role.ofName? e.2).isSome := by decide +kernel
  have hlists := Machine.listsRoles_object hdistinct (.refl reassigned)
  have hreordered : Machine.ListsRoles reordered reassigned :=
    ⟨[('.', "symbol"), ('λ', "PSEUDO"), (':', "comment"), ('#', "Label")], by decide +kernel, _,
      rfl, rfl⟩
  obtain ⟨p, q, hreadp, hreadq, hp, hperm⟩ :=
    Machine.readPunctuation_any_order hdistinct hnamed hlists hreordered
  refine ⟨p, q, hreadp, hreadq, ?_, ?_, ?_, ?_, ?_, hperm⟩
  · exact hp.listed ':' "comment" .comment (by decide +kernel) (by decide +kernel)
  · exact hp.yielded ';' .comment (by decide +kernel) (by decide) (by decide +kernel)
      ⟨(':', "comment"), by decide +kernel, by decide +kernel⟩
  · exact hp.listed 'λ' "PSEUDO" .pseudo (by decide +kernel) (by decide +kernel)
  · rw [hp.kept '!' (by decide +kernel) (by decide +kernel)]
    · rfl
    · rintro r hr hstandard
      cases hstandard
      exact absurd hr (by decide)
  · exact hp.absent 'x' (by decide +kernel) (by decide +kernel)

end Sample

end CellAsm
