-- SUMMARY: Which code a store takes, and what it holds when all of it was loaded.
import CellAsm.Proofs.Image

/-!
# Loading code

Blocks are loaded one after the other, wherever they lie and however they overlap. A
store takes all of them exactly if each has its cell size and ends within it, and then the
last block to cover a cell decides what the cell holds.

The address behind a block is counted in words. A block that reaches past the last address
has a count that comes around to the front of the store, where it looks as if it fitted;
such a block has no cells in the store, and loading it is a fault.
-/
namespace CellAsm

/-- The cell at an address belongs to the block. -/
def Block.Covers (b : Block) (i : Nat) : Prop :=
  b.address.toNat ≤ i ∧ i < b.address.toNat + b.cells.length

instance (b : Block) (i : Nat) : Decidable (b.Covers i) :=
  inferInstanceAs (Decidable (_ ∧ _))

namespace Store

/-- The block has cells of the same size and ends within the store. -/
def Fits (s : Store) (b : Block) : Prop :=
  b.cellSize = s.cellSize ∧ b.address.toNat + b.cells.length ≤ s.size

instance (s : Store) (b : Block) : Decidable (s.Fits b) :=
  inferInstanceAs (Decidable (_ ∧ _))

/-- The block has cells of the same size and reaches past the last address, so that the
count of the address behind it comes around to the store. -/
def ComesAround (s : Store) (b : Block) : Prop :=
  b.cellSize = s.cellSize ∧ 2 ^ 64 ≤ b.address.toNat + b.cells.length ∧
    b.address.toNat + b.cells.length ≤ 2 ^ 64 + s.size

instance (s : Store) (b : Block) : Decidable (s.ComesAround b) :=
  inferInstanceAs (Decidable (_ ∧ _ ∧ _))

/-- A block of the code comes around, and all blocks before it fit. -/
def Faults (s : Store) (code : List Block) : Prop :=
  ∃ before b after, code = before ++ b :: after ∧ (∀ c ∈ before, s.Fits c) ∧ s.ComesAround b

variable {s s' : Store} {b : Block} {code : List Block}

/-! ## One block -/

/-- What becomes of a block: it is written, it comes around, or it is refused. -/
inductive Takes (s : Store) (b : Block) : Except StoreError Store → Prop
  | written (hfits : s.Fits b) : Takes s b (.ok (s.write b.address.toNat b.cells))
  | around (haround : s.ComesAround b) : Takes s b (.error (.fault .outOfRange))
  | refused {e : StoreError} (hfits : ¬s.Fits b) (haround : ¬s.ComesAround b)
      (hfault : ∀ f, e ≠ .fault f) : Takes s b (.error e)

theorem Fits.not_comesAround (hfits : s.Fits b) (hsize : s.size < 2 ^ 64) : ¬s.ComesAround b := by
  rintro ⟨_, hpast, _⟩
  have hroom := hfits.2
  omega

theorem toNat_stopOf_of_past (hlength : b.cells.length < 2 ^ 64)
    (h : 2 ^ 64 ≤ b.address.toNat + b.cells.length) :
    (stopOf b).toNat = b.address.toNat + b.cells.length - 2 ^ 64 := by
  have haddress := b.address.toNat_lt
  rw [stopOf, UInt64.toNat_add, UInt64.toNat_ofNat_of_lt' hlength]
  omega

theorem takes_loadBlock (hsize : s.size < 2 ^ 64) (hlength : b.cells.length < 2 ^ 64) :
    s.Takes b (s.loadBlock b) := by
  by_cases hcell : b.cellSize = s.cellSize
  · by_cases hroom : b.address.toNat + b.cells.length ≤ s.size
    · rw [loadBlock_eq_ok hcell hroom hsize]
      exact .written ⟨hcell, hroom⟩
    · have hfits : ¬s.Fits b := fun hfits => hroom hfits.2
      unfold loadBlock
      rw [if_neg (not_not.2 hcell)]
      by_cases hpast : 2 ^ 64 ≤ b.address.toNat + b.cells.length
      · have hstop := toNat_stopOf_of_past hlength hpast
        by_cases haround : b.address.toNat + b.cells.length ≤ 2 ^ 64 + s.size
        · -- The end comes around to an address below the beginning.
          have hbelow : stopOf b < b.address := by
            rw [UInt64.lt_iff_toNat_lt]
            omega
          rw [if_neg (by omega), if_pos hbelow]
          exact .around ⟨hcell, hpast, haround⟩
        · rw [if_pos (by omega)]
          exact .refused hfits (fun h => haround h.2.2) (by rintro f ⟨⟩)
      · have hstop := toNat_stopOf (b := b) (by omega)
        rw [if_pos (by omega)]
        exact .refused hfits (fun h => hpast h.2.1) (by rintro f ⟨⟩)
  · unfold loadBlock
    rw [if_pos hcell]
    exact .refused (fun h => hcell h.1) (fun h => hcell h.1) (by rintro f ⟨⟩)

/-! ## How loading ends -/

theorem load_cons_of_ok {s₁ : Store} (h : s.loadBlock b = .ok s₁) (rest : List Block) :
    s.load (b :: rest) = s₁.load rest := by
  rw [load, h]

theorem load_cons_of_error {e : StoreError} (h : s.loadBlock b = .error e) (rest : List Block) :
    s.load (b :: rest) = (s, some e) := by
  rw [load, h]

/-- All blocks are written exactly if each of them fits. -/
theorem load_eq_none_iff (hsize : s.size < 2 ^ 64)
    (hlengths : ∀ b ∈ code, b.cells.length < 2 ^ 64) :
    (s.load code).2 = none ↔ ∀ b ∈ code, s.Fits b := by
  induction code generalizing s with
  | nil => exact ⟨fun _ => List.forall_mem_nil _, fun _ => rfl⟩
  | cons b rest ih =>
    obtain ⟨hb, hrest⟩ := List.forall_mem_cons.1 hlengths
    have htakes := s.takes_loadBlock hsize hb
    generalize hload : s.loadBlock b = r at htakes
    rw [List.forall_mem_cons]
    cases htakes with
    | written hfits =>
      rw [load_cons_of_ok hload, ih (s := s.write b.address.toNat b.cells) hsize hrest]
      exact (and_iff_right hfits).symm
    | around haround =>
      rw [load_cons_of_error hload]
      exact ⟨by rintro ⟨⟩, fun h => absurd haround (h.1.not_comesAround hsize)⟩
    | refused hfits =>
      rw [load_cons_of_error hload]
      exact ⟨by rintro ⟨⟩, fun h => absurd h.1 hfits⟩

theorem not_faults_nil (s : Store) : ¬s.Faults [] := by
  rintro ⟨before, b, after, hsplit, _⟩
  exact absurd hsplit.symm (List.append_ne_nil_of_right_ne_nil before (List.cons_ne_nil b after))

theorem faults_cons_iff : s.Faults (b :: code) ↔ s.ComesAround b ∨ s.Fits b ∧ s.Faults code := by
  constructor
  · rintro ⟨before, c, after, hsplit, hbefore, haround⟩
    cases before with
    | nil =>
      cases hsplit
      exact .inl haround
    | cons d before =>
      cases hsplit
      obtain ⟨hfits, hbefore⟩ := List.forall_mem_cons.1 hbefore
      exact .inr ⟨hfits, before, c, after, rfl, hbefore, haround⟩
  · rintro (haround | ⟨hfits, before, c, after, rfl, hbefore, haround⟩)
    · exact ⟨[], b, code, rfl, List.forall_mem_nil _, haround⟩
    · exact ⟨b :: before, c, after, rfl, List.forall_mem_cons.2 ⟨hfits, hbefore⟩, haround⟩

/-- Loading is a fault exactly if a block comes around before another is refused. -/
theorem load_eq_fault_iff (hsize : s.size < 2 ^ 64)
    (hlengths : ∀ b ∈ code, b.cells.length < 2 ^ 64) :
    (∃ f, (s.load code).2 = some (.fault f)) ↔ s.Faults code := by
  induction code generalizing s with
  | nil => exact ⟨by rintro ⟨f, ⟨⟩⟩, fun h => absurd h s.not_faults_nil⟩
  | cons b rest ih =>
    obtain ⟨hb, hrest⟩ := List.forall_mem_cons.1 hlengths
    have htakes := s.takes_loadBlock hsize hb
    generalize hload : s.loadBlock b = r at htakes
    rw [faults_cons_iff]
    cases htakes with
    | written hfits =>
      rw [load_cons_of_ok hload, ih (s := s.write b.address.toNat b.cells) hsize hrest]
      have hnot := hfits.not_comesAround hsize
      exact ⟨fun h => .inr ⟨hfits, h⟩, fun h => (h.resolve_left hnot).2⟩
    | around haround =>
      rw [load_cons_of_error hload]
      exact ⟨fun _ => .inl haround, fun _ => ⟨_, rfl⟩⟩
    | refused hfits haround hfault =>
      rw [load_cons_of_error hload]
      refine ⟨?_, fun h => absurd (h.resolve_left haround).1 hfits⟩
      rintro ⟨f, hf⟩
      exact absurd (Option.some.inj hf) (hfault f)

/-! ## What a loaded store holds -/

/-- The store with blocks written to it one after the other. -/
def writeAll (s : Store) (code : List Block) : Store :=
  code.foldl (fun s b => s.write b.address.toNat b.cells) s

theorem writeAll_cons (s : Store) (b : Block) (code : List Block) :
    s.writeAll (b :: code) = (s.write b.address.toNat b.cells).writeAll code := rfl

theorem writeAll_append (s : Store) (before after : List Block) :
    s.writeAll (before ++ after) = (s.writeAll before).writeAll after :=
  List.foldl_append

@[simp] theorem cellSize_writeAll (s : Store) (code : List Block) :
    (s.writeAll code).cellSize = s.cellSize := by
  induction code generalizing s with
  | nil => rfl
  | cons b code ih => exact ih _

@[simp] theorem size_writeAll (s : Store) (code : List Block) :
    (s.writeAll code).size = s.size := by
  induction code generalizing s with
  | nil => rfl
  | cons b code ih => exact ih _

theorem load_eq_writeAll (hsize : s.size < 2 ^ 64) (hfits : ∀ b ∈ code, s.Fits b) :
    s.load code = (s.writeAll code, none) := by
  induction code generalizing s with
  | nil => rfl
  | cons b code ih =>
    obtain ⟨hb, hcode⟩ := List.forall_mem_cons.1 hfits
    rw [load_cons_of_ok (loadBlock_eq_ok hb.1 hb.2 hsize), writeAll_cons]
    exact ih hsize hcode

/-- A cell that no block covers is as it was. -/
theorem get_writeAll_of_uncovered {i : Nat} (h : ∀ b ∈ code, ¬b.Covers i) :
    (s.writeAll code).get i = s.get i := by
  induction code generalizing s with
  | nil => rfl
  | cons b code ih =>
    obtain ⟨hb, hcode⟩ := List.forall_mem_cons.1 h
    unfold Block.Covers at hb
    rw [writeAll_cons, ih hcode, (s.overlays_write b.address.toNat b.cells).outside (by omega)]

/-- A cell holds what the last block to cover it has there. -/
theorem get_writeAll_of_covered {i : Nat} {before after : List Block} (hcovers : b.Covers i)
    (hlast : ∀ c ∈ after, ¬c.Covers i) :
    b.cells[i - b.address.toNat]? = some ((s.writeAll (before ++ b :: after)).get i) := by
  obtain ⟨hle, hlt⟩ := hcovers
  have hcell := List.getElem?_eq_getElem (l := b.cells) (i := i - b.address.toNat) (by omega)
  have hwrite := ((s.writeAll before).overlays_write b.address.toNat b.cells).inside hcell
  rw [Nat.add_sub_cancel' hle] at hwrite
  rw [writeAll_append, writeAll_cons, get_writeAll_of_uncovered hlast, hwrite]
  exact hcell

/-- The store `s'` is `s` with all blocks written: a cell holds what the last block to cover
it has there, and the others are as they were. -/
structure Holds (s : Store) (code : List Block) (s' : Store) : Prop where
  cellSize : s'.cellSize = s.cellSize
  size : s'.size = s.size
  covered : ∀ (i : Nat) (before : List Block) (b : Block) (after : List Block),
    code = before ++ b :: after → b.Covers i → (∀ c ∈ after, ¬c.Covers i) →
    b.cells[i - b.address.toNat]? = some (s'.get i)
  uncovered : ∀ i : Nat, (∀ b ∈ code, ¬b.Covers i) → s'.get i = s.get i

theorem holds_writeAll (s : Store) (code : List Block) : s.Holds code (s.writeAll code) where
  cellSize := s.cellSize_writeAll code
  size := s.size_writeAll code
  covered := by
    rintro i before b after rfl hcovers hlast
    exact get_writeAll_of_covered hcovers hlast
  uncovered _ h := get_writeAll_of_uncovered h

/-- Code is loaded exactly if every block fits, and then the last block to cover a cell
decides what it holds. Loading is a fault exactly if a block comes around to the front
before another is refused; it never is one if all blocks end within the address space. -/
theorem load_exact (hsize : s.size < 2 ^ 64) (hlengths : ∀ b ∈ code, b.cells.length < 2 ^ 64) :
    ((s.load code).2 = none ↔ ∀ b ∈ code, s.Fits b) ∧
    ((s.load code).2 = none → s.Holds code (s.load code).1) ∧
    ((∃ f, (s.load code).2 = some (.fault f)) ↔ s.Faults code) ∧
    ((∀ b ∈ code, b.address.toNat + b.cells.length < 2 ^ 64) →
      ∀ f, (s.load code).2 ≠ some (.fault f)) := by
  have hnone := load_eq_none_iff hsize hlengths
  have hfault := load_eq_fault_iff hsize hlengths
  refine ⟨hnone, fun h => ?_, hfault, ?_⟩
  · rw [load_eq_writeAll hsize (hnone.1 h)]
    exact s.holds_writeAll code
  · intro hends f hf
    obtain ⟨before, b, after, rfl, _, haround⟩ := hfault.1 ⟨f, hf⟩
    have hend := hends b (by simp)
    have hpast := haround.2.1
    omega

end Store

namespace Sample

/-- A store of four cells. -/
def smallStore : Store := { cellSize := 8, size := 4 }

def lowBlock : Block := { address := 0, cells := [1, 2, 3], cellSize := 8 }

def upperBlock : Block := { address := 2, cells := [9, 8], cellSize := 8 }

/-- A block that reaches past the last address. -/
def lastBlock : Block := { address := 0xffffffffffffffff, cells := [5], cellSize := 8 }

/-- Two blocks overlap, and a third comes around. -/
theorem loaded_and_around : (smallStore.load [lowBlock, upperBlock]).2 = none ∧
    (smallStore.load [lowBlock, upperBlock]).1.get 2 = 9 ∧
    ∃ f, (smallStore.load [lowBlock, lastBlock]).2 = some (.fault f) := by
  have hlow : smallStore.Fits lowBlock := by decide
  have hupper : smallStore.Fits upperBlock := by decide
  obtain ⟨hnone, hholds, _⟩ :=
    @Store.load_exact smallStore [lowBlock, upperBlock] (by decide) (by decide)
  obtain ⟨_, _, hfault, _⟩ :=
    @Store.load_exact smallStore [lowBlock, lastBlock] (by decide) (by decide)
  have hloaded := hnone.2 (by simp [hlow, hupper])
  refine ⟨hloaded, ?_, hfault.2 ?_⟩
  · have hcell := (hholds hloaded).covered 2 [lowBlock] upperBlock [] rfl (by decide)
      (List.forall_mem_nil _)
    exact (Option.some.inj hcell).symm
  · exact ⟨[lowBlock], lastBlock, [], rfl, by simp [hlow], by decide⟩

end Sample

end CellAsm
