-- SUMMARY: Looking names up in a table after others were added.
import CellAsm.Table

/-!
# Lookups in tables

Adding a name changes what is found under that name and nothing else. A property
of all values of a table is kept by adding a value that has it. Values and names can
be changed all at once.
-/
namespace CellAsm

theorem mem_of_lookup {α β : Type} [BEq α] [LawfulBEq α] {entries : List (α × β)} {name : α}
    {value : β} (h : entries.lookup name = some value) : (name, value) ∈ entries := by
  obtain ⟨before, after, rfl, _⟩ := List.lookup_eq_some_iff.1 h
  exact List.mem_append_right _ List.mem_cons_self

/-- Where every key has one place, an entry is what is found under its key. -/
theorem lookup_of_mem {α β : Type} [BEq α] [LawfulBEq α] {entries : List (α × β)} {name : α}
    {value : β} (hdistinct : (entries.map Prod.fst).Nodup)
    (h : (name, value) ∈ entries) : entries.lookup name = some value := by
  obtain ⟨before, after, rfl⟩ := List.append_of_mem h
  refine List.lookup_eq_some_iff.2 ⟨before, after, rfl, fun e he => ?_⟩
  rw [List.map_append, List.map_cons, List.nodup_append] at hdistinct
  exact bne_iff_ne.2 (hdistinct.2.2 e.1 (List.mem_map_of_mem he) name List.mem_cons_self).symm

section Insert

variable {α β : Type} [DecidableEq α] [BEq α] [LawfulBEq α] {entries : List (α × β)} {name : α}

theorem lookup_replace (h : (entries.lookup name).isSome) (value : β) (k : α) :
    (entries.map fun e => if e.1 == name then (name, value) else e).lookup k =
      if k = name then some value else entries.lookup k := by
  have hmap (entries : List (α × β)) :
      (entries.map fun e => if e.1 == name then (name, value) else e).lookup k =
        if k = name then (entries.lookup name).map fun _ => value else entries.lookup k := by
    induction entries with
    | nil => simp
    | cons e rest ih =>
      rw [List.map_cons, List.lookup_cons, List.lookup_cons, List.lookup_cons, ih]
      by_cases he : e.1 = name
      · by_cases hk : k = name
        · simp [he, hk]
        · simp [he, hk, beq_false_of_ne hk]
      · by_cases hk : k = name
        · simp [he, hk, beq_false_of_ne (Ne.symm he)]
        · simp [he, hk]
  obtain ⟨old, hold⟩ := Option.isSome_iff_exists.1 h
  rw [hmap, hold]
  rfl

theorem lookup_concat (h : entries.lookup name = none) (value : β) (k : α) :
    (entries ++ [(name, value)]).lookup k = if k = name then some value else entries.lookup k := by
  rw [List.lookup_append]
  by_cases hk : k = name
  · simp [hk, h]
  · simp [hk, List.lookup_cons, beq_false_of_ne hk]

theorem lookup_put (entries : List (α × β)) (name : α) (value : β) (k : α) :
    (Entries.put entries name value).lookup k =
      if k = name then some value else entries.lookup k := by
  unfold Entries.put
  by_cases h : (entries.lookup name).isSome
  · rw [if_pos h, lookup_replace h]
  · rw [if_neg h, lookup_concat (Option.not_isSome_iff_eq_none.1 h)]

end Insert

theorem mem_put {α β : Type} [BEq α] {entries : List (α × β)} {name : α} {value : β} {e : α × β}
    (h : e ∈ Entries.put entries name value) : e = (name, value) ∨ e ∈ entries := by
  unfold Entries.put at h
  split at h
  · obtain ⟨e', he', rfl⟩ := List.mem_map.1 h
    split
    · exact .inl rfl
    · exact .inr he'
  · rcases List.mem_append.1 h with he | he
    · exact .inr he
    · exact .inl (List.mem_singleton.1 he)

theorem put_of_not_mem {α β : Type} [BEq α] [LawfulBEq α] {entries : List (α × β)} {name : α}
    (h : name ∉ entries.map Prod.fst) (value : β) :
    Entries.put entries name value = entries ++ [(name, value)] := by
  rw [Entries.put, Entries.lookup_eq_none_iff.2 h]
  rfl

namespace Table

variable {α : Type}

theorem find?_insert (t : Table α) (name k : Text) (value : α) :
    (t.insert name value).find? k = if k = name then some value else t.find? k :=
  lookup_put t.entries name value k

@[simp] theorem entries_empty : ({} : Table α).entries = [] := rfl

@[simp] theorem find?_empty (k : Text) : ({} : Table α).find? k = none := rfl

theorem find?_eq_none_iff {t : Table α} {name : Text} : t.find? name = none ↔ name ∉ t.names :=
  Entries.lookup_eq_none_iff

theorem find?_of_mem {t : Table α} {name : Text} {value : α} (h : (name, value) ∈ t.entries) :
    t.find? name = some value :=
  lookup_of_mem t.distinct h

theorem entries_insert {t : Table α} {name : Text} (h : name ∉ t.names) (value : α) :
    (t.insert name value).entries = t.entries ++ [(name, value)] :=
  put_of_not_mem h value

theorem names_insert {t : Table α} {name : Text} (h : name ∉ t.names) (value : α) :
    (t.insert name value).names = t.names ++ [name] := by
  rw [names, entries_insert h, List.map_append]
  rfl

/-- New names are added at the end, in their order. -/
theorem foldl_insert {entries : List (Text × α)} (hnodup : (entries.map Prod.fst).Nodup)
    {t : Table α} (hnew : ∀ e ∈ entries, e.1 ∉ t.names) :
    (entries.foldl (fun (t : Table α) e => t.insert e.1 e.2) t).entries = t.entries ++ entries := by
  induction entries generalizing t with
  | nil => rw [List.foldl_nil, List.append_nil]
  | cons e entries ih =>
    rw [List.map_cons, List.nodup_cons] at hnodup
    rw [List.forall_mem_cons] at hnew
    rw [List.foldl_cons, ih hnodup.2, entries_insert hnew.1, List.append_assoc,
      List.singleton_append]
    intro e' he'
    rw [names_insert hnew.1, List.mem_append, List.mem_singleton, not_or]
    refine ⟨hnew.2 e' he', fun heq => hnodup.1 ?_⟩
    exact heq ▸ List.mem_map_of_mem he'

theorem entries_ofList {entries : List (Text × α)} (h : (entries.map Prod.fst).Nodup) :
    (ofList entries).entries = entries :=
  foldl_insert h (by simp [names])

/-- Every value of the table has the property. -/
def All (p : α → Prop) (t : Table α) : Prop := ∀ e ∈ t.entries, p e.2

theorem All.empty (p : α → Prop) : All p {} := by
  intro e he
  cases he

theorem All.find? {p : α → Prop} {t : Table α} (h : All p t) {name : Text} {value : α}
    (hfind : t.find? name = some value) : p value :=
  h _ (mem_of_lookup hfind)

theorem All.insert {p : α → Prop} {t : Table α} (h : All p t) {name : Text} {value : α}
    (hvalue : p value) : All p (t.insert name value) := by
  intro e he
  rcases mem_put he with rfl | he
  · exact hvalue
  · exact h e he

/-! ## Other values under the same names -/

variable {β : Type}

/-- The table with every value changed. -/
def mapValues (f : α → β) (t : Table α) : Table β where
  entries := t.entries.map (Prod.map id f)
  distinct := by
    rw [List.map_map]
    exact t.distinct

theorem lookup_map (f : α → β) (entries : List (Text × α)) (name : Text) :
    (entries.map (Prod.map id f)).lookup name = (entries.lookup name).map f := by
  induction entries with
  | nil => rfl
  | cons e rest ih =>
    rw [List.map_cons, List.lookup_cons, List.lookup_cons, ih, Prod.map_fst, id]
    split <;> rfl

@[simp] theorem find?_mapValues (f : α → β) (t : Table α) (name : Text) :
    (t.mapValues f).find? name = (t.find? name).map f :=
  lookup_map f t.entries name

@[simp] theorem contains_mapValues (f : α → β) (t : Table α) (name : Text) :
    (t.mapValues f).contains name = t.contains name := by
  rw [contains, contains, find?_mapValues, Option.isSome_map]

@[simp] theorem size_mapValues (f : α → β) (t : Table α) : (t.mapValues f).size = t.size := by
  rw [size, mapValues, List.length_map, size]

theorem mapValues_insert (f : α → β) (t : Table α) (name : Text) (value : α) :
    (t.insert name value).mapValues f = (t.mapValues f).insert name (f value) := by
  apply Table.ext
  simp only [mapValues, insert, Entries.put, lookup_map, Option.isSome_map]
  split
  · rw [List.map_map, List.map_map]
    apply List.map_congr_left
    intro e _
    rw [Function.comp_apply, Function.comp_apply, Prod.map_fst, id]
    split <;> rfl
  · rw [List.map_append]
    rfl

theorem mapValues_ofList (f : α → β) (entries : List (Text × α)) :
    (ofList entries).mapValues f = ofList (entries.map (Prod.map id f)) := by
  have hfold (t : Table α) : (entries.foldl (fun (t : Table α) e => t.insert e.1 e.2) t).mapValues f =
      entries.foldl (fun (t : Table β) e => t.insert e.1 (f e.2)) (t.mapValues f) := by
    induction entries generalizing t with
    | nil => rfl
    | cons e entries ih => rw [List.foldl_cons, List.foldl_cons, ih, mapValues_insert]
  rw [ofList, hfold, ofList, List.foldl_map]
  rfl

theorem mapValues_mapValues {γ : Type} (f : α → β) (g : β → γ) (t : Table α) :
    (t.mapValues f).mapValues g = t.mapValues (g ∘ f) := by
  apply Table.ext
  exact List.map_map

/-! ## The same values under other names -/

/-- The second table has the values of the first under their changed names. -/
def Renamed (f : Text → Text) (t t' : Table α) : Prop := t'.entries = t.entries.map (Prod.map f id)

namespace Renamed

variable {f : Text → Text} {t t' : Table α} {name : Text}

theorem empty (f : Text → Text) : Renamed f ({} : Table α) {} := rfl

theorem names_eq (h : t.Renamed f t') : t'.names = t.names.map f := by
  rw [names, names, h, List.map_map, List.map_map]
  rfl

/-- A name that is not confused with another is found under its new name. -/
theorem find?_eq (ht : t.Renamed f t') (h : ∀ n ∈ t.names, f n = f name → n = name) :
    t'.find? (f name) = t.find? name := by
  unfold find?
  rw [ht]
  unfold names at h
  generalize t.entries = entries at h
  induction entries with
  | nil => rfl
  | cons e rest ih =>
    obtain ⟨he, hrest⟩ := List.forall_mem_cons.1 h
    rw [List.map_cons, List.lookup_cons, List.lookup_cons, ih hrest, Prod.map_fst, Prod.map_snd, id]
    by_cases hname : name = e.1
    · simp [hname]
    · have hnew : f name ≠ f e.1 := fun heq => hname (he heq.symm).symm
      rw [beq_false_of_ne hname, beq_false_of_ne hnew]

theorem insert (h : t.Renamed f t') (hname : name ∉ t.names) (hnew : f name ∉ t'.names) (value : α) :
    (t.insert name value).Renamed f (t'.insert (f name) value) := by
  unfold Renamed
  rw [entries_insert hname, entries_insert hnew, h, List.map_append]
  rfl

end Renamed

end Table

end CellAsm
