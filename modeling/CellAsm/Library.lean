-- SUMMARY: Finite collections of source files that can be opened by name.
import CellAsm.Table

/-!
# Libraries

A library says for each name whether a file can be opened under it. Only
finitely many names can, which is why reading files that include each other
comes to an end.
-/
namespace CellAsm

structure Library where
  /-- The contents of a file, or why it can not be read. -/
  read : Text → Except Text Text
  /-- All names under which a file can be opened. -/
  names : List Text
  mem_names : ∀ {name contents}, read name = .ok contents → name ∈ names

namespace Library

/-- How many more names can be opened when those of `stack` are taken. -/
def unopened (lib : Library) (stack : List Text) : Nat := lib.names.countP (· ∉ stack)

/-- Opening one more name leaves fewer. -/
theorem unopened_cons_lt (lib : Library) {stack : List Text} {name contents : Text}
    (hread : lib.read name = .ok contents) (hnew : name ∉ stack) :
    lib.unopened (name :: stack) < lib.unopened stack := by
  have hmem := lib.mem_names hread
  unfold unopened
  generalize lib.names = names at hmem
  induction names with
  | nil => simp at hmem
  | cons n rest ih =>
    have hle : rest.countP (· ∉ name :: stack) ≤ rest.countP (· ∉ stack) :=
      List.countP_mono_left (by simp)
    simp only [List.countP_cons]
    by_cases hn : n = name
    · subst hn
      simp [hnew] at hle ⊢
      omega
    · have hrest : name ∈ rest := (List.mem_cons.1 hmem).resolve_left (Ne.symm hn)
      have := ih hrest
      simp only [List.mem_cons, hn, false_or] at this ⊢
      omega

-- ---------------------------------------------------------------------------
-- Libraries of files held in a table
-- ---------------------------------------------------------------------------

/-- The reason for which a file that is not there can not be read. -/
def missing (name : Text) : Text := Text.join ["open ", name, ": file does not exist"]

def readTable (files : Table Text) (name : Text) : Except Text Text :=
  match files.find? name with
  | some contents => .ok contents
  | none => .error (missing name)

theorem mem_names_of_readTable {files : Table Text} {name contents : Text}
    (h : readTable files name = .ok contents) : name ∈ files.names := by
  unfold readTable at h
  split at h
  · rename_i c hc
    exact Table.mem_names_of_find? hc
  · simp at h

/-- The files of a table, each under its own name. -/
def ofTable (files : Table Text) : Library where
  read := readTable files
  names := files.names
  mem_names := mem_names_of_readTable

/-- A name without the slash in front that makes it absolute. -/
def unrooted : Text → Text
  | b :: rest => if b = '/'.toUInt8 then rest else b :: rest
  | [] => []

/-- The files of a table that is the root of a file system: a slash in front of a
name makes no difference. -/
def ofRoot (files : Table Text) : Library where
  read name := readTable files (unrooted name)
  names := files.names ++ files.names.map ('/'.toUInt8 :: ·)
  mem_names := by
    intro name contents h
    have hmem := mem_names_of_readTable h
    cases name with
    | nil => exact List.mem_append_left _ hmem
    | cons b rest =>
      by_cases hb : b = '/'.toUInt8
      · rw [unrooted, if_pos hb] at hmem
        exact List.mem_append_right _ (List.mem_map.2 ⟨rest, hmem, by rw [hb]⟩)
      · rw [unrooted, if_neg hb] at hmem
        exact List.mem_append_left _ hmem

end Library

end CellAsm
