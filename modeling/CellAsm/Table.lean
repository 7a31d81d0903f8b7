-- SUMMARY: Finite maps from names, kept in the order in which names were first added.
import CellAsm.Entries
import CellAsm.Text.Basic

/-!
# Tables

Labels, constants, templates and files are looked up by name. A table keeps its
entries in the order in which their names were first added.
-/
namespace CellAsm

@[ext] structure Table (α : Type) where
  entries : List (Text × α)
  distinct : (entries.map Prod.fst).Nodup
deriving DecidableEq, Repr

namespace Table

variable {α : Type}

instance : EmptyCollection (Table α) := ⟨⟨[], List.nodup_nil⟩⟩

def find? (t : Table α) (name : Text) : Option α := t.entries.lookup name

def contains (t : Table α) (name : Text) : Bool := (t.find? name).isSome

def size (t : Table α) : Nat := t.entries.length

def names (t : Table α) : List Text := t.entries.map (·.1)

theorem mem_names_of_find? {t : Table α} {name : Text} {value : α}
    (h : t.find? name = some value) : name ∈ t.names := by
  refine Decidable.byContradiction fun hname => ?_
  rw [find?, Entries.lookup_eq_none_iff.2 hname] at h
  cases h

/-- Replaces the value of a name in place, or adds the name at the end. -/
def insert (t : Table α) (name : Text) (value : α) : Table α where
  entries := Entries.put t.entries name value
  distinct := Entries.nodup_put t.distinct name value

def erase (t : Table α) (name : Text) : Table α where
  entries := t.entries.filter (·.1 != name)
  distinct := t.distinct.sublist (List.filter_sublist.map Prod.fst)

def ofList (entries : List (Text × α)) : Table α :=
  entries.foldl (fun (t : Table α) e => t.insert e.1 e.2) {}

/-- The entries in the byte order of their names. -/
def sorted (t : Table α) : List (Text × α) :=
  t.entries.mergeSort fun a b => Text.le a.1 b.1

end Table

end CellAsm
