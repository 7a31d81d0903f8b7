-- SUMMARY: Lists of entries in which no key is listed twice.

/-!
# Entries

A map is a list of entries, each with its key in front. Entries are only ever put
under their keys, so that a key has one place in the list.
-/
namespace CellAsm.Entries

variable {κ α : Type} [BEq κ] [LawfulBEq κ]

/-- Replaces the value of a key in place, or adds the key at the end. -/
def put (entries : List (κ × α)) (key : κ) (value : α) : List (κ × α) :=
  if (entries.lookup key).isSome then
    entries.map fun e => if e.1 == key then (key, value) else e
  else entries ++ [(key, value)]

theorem lookup_eq_none_iff {entries : List (κ × α)} {key : κ} :
    entries.lookup key = none ↔ key ∉ entries.map Prod.fst := by
  rw [List.lookup_eq_none_iff, List.mem_map]
  constructor
  · rintro h ⟨e, he, rfl⟩
    exact absurd (h e he) (by simp)
  · intro h e he
    exact bne_iff_ne.2 fun heq => h ⟨e, he, heq.symm⟩

theorem keys_replace (entries : List (κ × α)) (key : κ) (value : α) :
    (entries.map fun e => if e.1 == key then (key, value) else e).map Prod.fst =
      entries.map Prod.fst := by
  rw [List.map_map]
  apply List.map_congr_left
  intro e _
  rw [Function.comp_apply]
  split
  · rename_i h
    exact (eq_of_beq h).symm
  · rfl

theorem nodup_put {entries : List (κ × α)} (h : (entries.map Prod.fst).Nodup) (key : κ) (value : α) :
    ((put entries key value).map Prod.fst).Nodup := by
  unfold put
  split
  · rw [keys_replace]
    exact h
  · rename_i hnew
    rw [Bool.not_eq_true, Option.isSome_eq_false_iff, Option.isNone_iff_eq_none] at hnew
    rw [List.map_append, List.nodup_append]
    refine ⟨h, List.pairwise_singleton _ _, ?_⟩
    rintro a ha b hb rfl
    have hkey : a = key := List.mem_singleton.1 hb
    exact lookup_eq_none_iff.1 hnew (hkey ▸ ha)

end CellAsm.Entries
