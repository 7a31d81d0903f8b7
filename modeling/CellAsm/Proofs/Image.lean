-- SUMMARY: The image of a program holds its code, cell by cell and bit by bit.
import CellAsm.Proofs.ByteRows
import CellAsm.Proofs.Decoding
import CellAsm.Proofs.Placement

/-!
# Images of programs

The blocks of a program lie one after the other, so loading them writes their cells
in one piece. A store that is just large enough then holds zeros and behind them the
code, and its bytes hold the bits of all blocks without a gap, whatever the size of
a cell. Only the last byte is filled up.
-/
namespace CellAsm

/-! ## Stores -/

namespace Store

/-- The store `s'` is `s` with `cells` written from `address` on. -/
structure Overlays (s s' : Store) (address : Nat) (cells : List UInt64) : Prop where
  cellSize : s'.cellSize = s.cellSize
  size : s'.size = s.size
  inside : ∀ {k : Nat} {c : UInt64}, cells[k]? = some c → s'.get (address + k) = c
  outside : ∀ {i : Nat}, i < address ∨ address + cells.length ≤ i → s'.get i = s.get i

theorem Overlays.refl (s : Store) (address : Nat) : Overlays s s address [] where
  cellSize := rfl
  size := rfl
  inside hc := by cases hc
  outside _ := rfl

theorem Overlays.append {s s₁ s₂ : Store} {address : Nat} {front back : List UInt64}
    (hfront : Overlays s s₁ address front)
    (hback : Overlays s₁ s₂ (address + front.length) back) :
    Overlays s s₂ address (front ++ back) where
  cellSize := hback.cellSize.trans hfront.cellSize
  size := hback.size.trans hfront.size
  inside := by
    intro k c hc
    rcases Nat.lt_or_ge k front.length with hk | hk
    · rw [List.getElem?_append_left hk] at hc
      rw [hback.outside (.inl (by omega)), hfront.inside hc]
    · rw [List.getElem?_append_right hk] at hc
      have hindex : address + k = address + front.length + (k - front.length) := by omega
      rw [hindex, hback.inside hc]
  outside := by
    intro i hi
    rw [List.length_append] at hi
    rw [hback.outside (by omega), hfront.outside (by omega)]

theorem overlays_write (s : Store) (address : Nat) (cells : List UInt64) :
    Overlays s (s.write address cells) address cells where
  cellSize := rfl
  size := rfl
  inside := by
    intro k c hc
    have hrun : Run.get? ⟨address, cells.toArray⟩ (address + k) = some c := by
      rw [Run.get?, if_pos (Nat.le_add_right address k), Nat.add_sub_cancel_left]
      simpa using hc
    simp only [get, write, List.findSome?_cons, hrun, Option.getD_some]
  outside := by
    intro i hi
    have hrun : Run.get? ⟨address, cells.toArray⟩ i = none := by
      unfold Run.get?
      split
      · rw [List.getElem?_toArray, List.getElem?_eq_none]
        dsimp only at *
        omega
      · rfl
    simp only [get, write, List.findSome?_cons, hrun]

theorem toNat_stopOf {b : Block} (h : b.address.toNat + b.cells.length < 2 ^ 64) :
    (stopOf b).toNat = b.address.toNat + b.cells.length := by
  rw [stopOf, UInt64.toNat_add, UInt64.toNat_ofNat_of_lt' (by rw [UInt64.size]; omega),
    Nat.mod_eq_of_lt h]

/-- A block that fits is written. -/
theorem loadBlock_eq_ok {s : Store} {b : Block} (hcell : b.cellSize = s.cellSize)
    (hfits : b.address.toNat + b.cells.length ≤ s.size) (hsize : s.size < 2 ^ 64) :
    s.loadBlock b = .ok (s.write b.address.toNat b.cells) := by
  have hstop := toNat_stopOf (b := b) (by omega)
  unfold loadBlock
  rw [if_neg (not_not.2 hcell), if_neg (by omega), if_neg]
  rw [UInt64.lt_iff_toNat_lt]
  omega

end Store

/-! ## Blocks one after the other -/

namespace Block

/-- The blocks lie one after the other from an address on. -/
def Consecutive : Nat → List Block → Prop
  | _, [] => True
  | address, b :: rest =>
    b.address.toNat = address ∧ Consecutive (address + b.cells.length) rest

/-- The cells of all blocks, in order. -/
def code (blocks : List Block) : List UInt64 := blocks.flatMap Block.cells

theorem length_code (blocks : List Block) : (code blocks).length = total blocks :=
  List.length_flatMap

theorem total_cons (b : Block) (rest : List Block) :
    total (b :: rest) = b.cells.length + total rest := by
  rw [total, List.map_cons, List.sum_cons, total]

theorem consecutive_of_address {address : Nat} {blocks : List Block}
    (h : ∀ {i b}, blocks[i]? = some b → b.address.toNat = address + total (blocks.take i)) :
    Consecutive address blocks := by
  induction blocks generalizing address with
  | nil => trivial
  | cons b rest ih =>
    refine ⟨h (i := 0) rfl, ih fun {i c} hc => ?_⟩
    rw [h (i := i + 1) hc, List.take_succ_cons, total_cons, Nat.add_assoc]

/-- Loading blocks that lie one after the other writes their cells in one piece. -/
theorem Consecutive.load {address : Nat} {blocks : List Block} (h : Consecutive address blocks)
    {s : Store} (hcell : ∀ b ∈ blocks, b.cellSize = s.cellSize)
    (hfits : address + total blocks ≤ s.size) (hsize : s.size < 2 ^ 64) :
    ∃ loaded, s.load blocks = (loaded, none) ∧ s.Overlays loaded address (code blocks) := by
  induction blocks generalizing address s with
  | nil => exact ⟨s, rfl, .refl s address⟩
  | cons b rest ih =>
    obtain ⟨rfl, hrest⟩ := h
    obtain ⟨hb, hcell⟩ := List.forall_mem_cons.1 hcell
    rw [total_cons] at hfits
    have hwrite := s.overlays_write b.address.toNat b.cells
    obtain ⟨loaded, hload, hover⟩ :=
      ih (s := s.write b.address.toNat b.cells) hrest hcell (by rw [hwrite.size]; omega) hsize
    refine ⟨loaded, ?_, hwrite.append hover⟩
    rw [Store.load, Store.loadBlock_eq_ok hb (by omega) hsize]
    exact hload

/-! ## Extent -/

theorem Consecutive.le_address {address : Nat} {blocks : List Block}
    (h : Consecutive address blocks) : ∀ b ∈ blocks, address ≤ b.address.toNat := by
  induction blocks generalizing address with
  | nil => exact List.forall_mem_nil _
  | cons b rest ih =>
    obtain ⟨rfl, hrest⟩ := h
    refine List.forall_mem_cons.2 ⟨Nat.le_refl _, fun c hc => ?_⟩
    exact Nat.le_trans (Nat.le_add_right _ _) (ih hrest c hc)

theorem foldl_min_address {first : UInt64} {blocks : List Block}
    (h : ∀ b ∈ blocks, first ≤ b.address) :
    blocks.foldl (fun first c => min first c.address) first = first := by
  induction blocks with
  | nil => rfl
  | cons b rest ih =>
    obtain ⟨hb, hrest⟩ := List.forall_mem_cons.1 h
    have hmin : min first b.address = first := if_pos hb
    rw [List.foldl_cons, hmin]
    exact ih hrest

theorem Consecutive.foldl_max_stop {stop : UInt64} {blocks : List Block}
    (h : Consecutive stop.toNat blocks) (hfits : stop.toNat + total blocks < 2 ^ 64) :
    (blocks.foldl (fun stop c => max stop (Store.stopOf c)) stop).toNat =
      stop.toNat + total blocks := by
  induction blocks generalizing stop with
  | nil => rfl
  | cons b rest ih =>
    obtain ⟨hb, hrest⟩ := h
    rw [total_cons] at hfits
    have hstop := Store.toNat_stopOf (b := b) (by omega)
    have hle : stop ≤ Store.stopOf b := by
      rw [UInt64.le_iff_toNat_le]
      omega
    have hmax : max stop (Store.stopOf b) = Store.stopOf b := if_pos hle
    rw [hb] at hstop
    rw [← hstop] at hrest
    rw [List.foldl_cons, hmax, ih hrest (by omega), hstop, total_cons, Nat.add_assoc]

theorem Consecutive.extent {start : UInt64} {blocks : List Block}
    (h : Consecutive start.toNat blocks) (hne : blocks ≠ [])
    (hfits : start.toNat + total blocks < 2 ^ 64) : ∃ stop,
      extent blocks = (start, stop) ∧ stop.toNat = start.toNat + total blocks := by
  cases blocks with
  | nil => exact absurd rfl hne
  | cons b rest =>
    obtain ⟨hb, hrest⟩ := id h
    obtain rfl : b.address = start := UInt64.toNat_inj.1 hb
    have hmin : (b :: rest).foldl (fun first c => min first c.address) b.address = b.address :=
      foldl_min_address fun c hc => UInt64.le_iff_toNat_le.2 (h.le_address c hc)
    rw [total_cons] at hfits
    have hstop := Store.toNat_stopOf (b := b) (by omega)
    have hmax : max 0 (Store.stopOf b) = Store.stopOf b := if_pos UInt64.zero_le
    refine ⟨_, by rw [CellAsm.extent, hmin], ?_⟩
    rw [← hstop] at hrest
    rw [List.foldl_cons, hmax, hrest.foldl_max_stop (by omega), hstop, total_cons, Nat.add_assoc]

end Block

/-! ## Cells and bytes of a loaded store -/

namespace Store

/-- A store that was empty holds zeros below what was written up to its end. -/
theorem Overlays.cells_eq {s loaded : Store} {address : Nat} {code : List UInt64}
    (h : s.Overlays loaded address code) (hempty : s.runs = [])
    (hsize : s.size = address + code.length) :
    loaded.cells = List.replicate address 0 ++ code := by
  refine List.ext_getElem? fun i => ?_
  have hget (hi : i < address + code.length) : loaded.cells[i]? = some (loaded.get i) := by
    rw [cells, List.getElem?_map, List.getElem?_range (by rw [h.size, hsize]; exact hi)]
    rfl
  rcases Nat.lt_or_ge i address with hlow | hlow
  · rw [hget (by omega), h.outside (.inl hlow), List.getElem?_append_left (by simpa using hlow),
      List.getElem?_replicate_of_lt hlow, get, hempty]
    rfl
  · rw [List.getElem?_append_right (by simpa using hlow), List.length_replicate]
    cases hc : code[i - address]? with
    | none =>
      have hlength := List.getElem?_eq_none_iff.1 hc
      rw [List.getElem?_eq_none]
      simp only [cells, List.length_map, List.length_range, h.size, hsize]
      omega
    | some c =>
      have hlength := (List.getElem?_eq_some_iff.1 hc).1
      have hinside := h.inside hc
      rw [Nat.add_sub_cancel' hlow] at hinside
      rw [hget (by omega), hinside]

theorem Overlays.slice_eq {s loaded : Store} {address : Nat} {code : List UInt64}
    (h : s.Overlays loaded address code) (hsize : s.size = address + code.length) :
    loaded.slice address (address + code.length : Nat) = .ok code := by
  have hmax : max (address : Int) 0 = address := by omega
  have hmin : min ((address + code.length : Nat) : Int) loaded.size = (address + code.length : Nat) := by
    rw [h.size, hsize]
    omega
  unfold slice
  dsimp only
  rw [hmax, hmin, if_neg (by omega)]
  congr 1
  have hcount : (((address + code.length : Nat) : Int) - address).toNat = code.length := by omega
  rw [hcount, Int.toNat_natCast]
  refine List.ext_getElem (by simp) fun k hk hk' => ?_
  rw [List.getElem_map, List.getElem_range', Nat.one_mul]
  exact h.inside (List.getElem?_eq_getElem hk')

end Store

/-! ## The image of a program -/

theorem signed_eq {n : UInt64} (h : n.toNat < 2 ^ 63) : signed n = n.toNat := by
  have hsmall : 2 * n.toBitVec.toNat < 2 ^ 64 := by
    rw [UInt64.toNat_toBitVec]
    omega
  exact BitVec.toInt_eq_toNat_of_lt hsmall

/-- A text of zeros and ones, filled up with zeros to whole bytes. -/
def wholeBytes (bits : Text) : Text :=
  bits ++ List.replicate ((8 - bits.length % 8) % 8) '0'.toUInt8

/-- A byte as eight zeros and ones. -/
def byteBits (b : UInt8) : Text := Block.cellBits 8 b.toUInt64

namespace Block

/-- A store of zeros that ends at `stop`. -/
def freshStore (cellSize : Int) (stop : UInt64) : Store :=
  { cellSize := cellSize.toNat, size := stop.toNat }

/-- The blocks fill `loaded` from `start` up to `stop`, and `image` is what they are
written as. -/
structure Imaged (cellSize : Int) (start : UInt64) (blocks : List Block) (stop : UInt64)
    (loaded : Store) (image : Text) : Prop where
  extent_eq : extent blocks = (start, stop)
  stop_eq : stop.toNat = start.toNat + total blocks
  /-- Only a lack of storage stands against a fresh store. -/
  create : Store.create (signed stop) cellSize =
    if signed stop ≤ Store.maxSize then .ok (freshStore cellSize stop)
    else .error (.fault .sizeOutOfRange)
  load : (freshStore cellSize stop).load blocks = (loaded, none)
  /-- The code lies in one piece above zeros. -/
  cells : loaded.cells = List.replicate start.toNat 0 ++ code blocks
  bytes : loaded.bytes (signed start) (signed stop) = .ok image
  /-- The bytes, bit by bit, are the bits of the blocks. -/
  bits : ∃ texts, blocks.mapM Block.bits = .ok texts ∧
    image.flatMap byteBits = wholeBytes texts.flatten

theorem create_freshStore {m : Machine} (hm : m.Valid) {stop : UInt64} (h : stop.toNat < 2 ^ 63) :
    Store.create (signed stop) m.cellSize =
      if signed stop ≤ Store.maxSize then .ok (freshStore m.cellSize stop)
      else .error (.fault .sizeOutOfRange) := by
  have hpos := hm.cellSize_pos
  have hle := hm.cellSize_le
  rw [Store.create, if_neg (by omega), signed_eq h, if_neg (by omega), Int.toNat_natCast]
  by_cases hmax : (stop.toNat : Int) ≤ Store.maxSize
  · rw [if_neg (by omega), if_pos hmax]
    rfl
  · rw [if_pos (by omega), if_neg hmax]

theorem byteBits_eq (b : UInt8) : byteBits b = (bitsOf 8 b.toNat).map bitByte := by
  have hnat : b.toUInt64.toNat = b.toNat := UInt8.toNat_toUInt64 b
  have hlt : b.toUInt64.toNat < 2 ^ 8 := hnat ▸ b.toNat_lt
  rw [byteBits, ← hnat]
  exact cellBits_eq (by decide) hlt

/-- The bits of a row in bytes, shown as text. -/
theorem flatMap_byteBits (row : List Bool) :
    (Store.packBytes row).flatMap byteBits = wholeBytes (row.map bitByte) := by
  have hbits : (Store.packBytes row).flatMap byteBits =
      ((Store.packBytes row).flatMap fun b => bitsOf 8 b.toNat).map bitByte := by
    rw [List.map_flatMap]
    exact List.flatMap_congr fun b _ => byteBits_eq b
  rw [hbits, Store.flatMap_packBytes, List.map_append, List.map_replicate, wholeBytes,
    List.length_map]
  rfl

/-- The bits of all blocks together are those of their cells. -/
theorem flatMap_row {cellSize : Int} {blocks : List Block}
    (h : ∀ b ∈ blocks, b.cellSize = cellSize) :
    blocks.flatMap row = (code blocks).flatMap fun c => bitsOf cellSize.toNat c.toNat := by
  rw [code, List.flatMap_assoc]
  refine List.flatMap_congr fun b hb => ?_
  rw [row, h b hb]

end Block

namespace SourceEnv.Assembled

variable {env : SourceEnv} {name contents : Text} {start : UInt64} {s : SourceState}
  {cs : List Statement} {spans : List Span} {p : Program}

/-- Every block holds the bits of some statement. -/
theorem exists_encodes (hm : env.machine.Valid)
    (h : env.Assembled name contents start s cs spans p) :
    ∀ b ∈ p.blocks, ∃ r, Block.Encodes env.machine.cellSize r b := by
  intro b hb
  obtain ⟨i, hi⟩ := List.mem_iff_getElem?.1 hb
  obtain ⟨r, _, hr⟩ := forall₂_getElem?_right (h.forall₂_encodes hm) hi
  exact ⟨r, hr⟩

theorem mapM_bits (hm : env.machine.Valid) (h : env.Assembled name contents start s cs spans p) :
    p.blocks.mapM Block.bits = .ok (p.blocks.map fun b => b.row.map bitByte) := by
  rw [mapM_eq_ok, List.forall₂_map_right_iff, List.forall₂_same]
  intro b hb
  obtain ⟨_, hb⟩ := h.exists_encodes hm b hb
  exact hb.bits

theorem consecutive (hm : env.machine.Valid)
    (h : env.Assembled name contents start s cs spans p) :
    Block.Consecutive start.toNat p.blocks :=
  Block.consecutive_of_address (h.placed.address_eq hm h.addressed.wellFormed)

end SourceEnv.Assembled

/-- The image of a program that was assembled is its code. -/
theorem Assembler.assembleSource_image {a : Assembler} {m : Option Machine}
    (haccept : accept m = .ok a.machine) {library : Library} {name contents : Text}
    {start : UInt64} {p : Program}
    (hrun : (a.assembleSource library name contents start).2.result = .ok p)
    (hne : p.blocks ≠ []) (hend : start.toNat + Block.total p.blocks < 2 ^ 63) :
    ∃ stop loaded image, Block.Imaged a.machine.cellSize start p.blocks stop loaded image := by
  have hm := valid_of_accept haccept
  have hpos := hm.cellSize_pos
  obtain ⟨s, cs, spans, h⟩ := assembled_of_assembleSource hrun
  have hsize : ∀ b ∈ p.blocks, b.cellSize = a.machine.cellSize := fun b hb =>
    (h.exists_encodes hm b hb).elim fun _ hb => hb.size
  have hconsecutive := h.consecutive hm
  obtain ⟨stop, hextent, hstop⟩ := hconsecutive.extent hne (by omega)
  have hroom : (Block.freshStore a.machine.cellSize stop).size =
      start.toNat + (Block.code p.blocks).length := by
    rw [Block.length_code]
    exact hstop
  have hfresh : ∀ b ∈ p.blocks,
      b.cellSize = (Block.freshStore a.machine.cellSize stop).cellSize := fun b hb => by
    rw [hsize b hb]
    exact (Int.toNat_of_nonneg (by omega)).symm
  obtain ⟨loaded, hload, hover⟩ :=
    hconsecutive.load hfresh (by rw [hroom, Block.length_code]) stop.toNat_lt
  have hslice := hover.slice_eq hroom
  rw [Block.length_code, ← hstop, ← signed_eq (n := start) (by omega),
    ← signed_eq (n := stop) (by omega)] at hslice
  refine ⟨stop, loaded, _, hextent, hstop, Block.create_freshStore hm (by omega), hload,
    hover.cells_eq rfl hroom, Store.bytes_of_slice hslice, _, h.mapM_bits hm, ?_⟩
  have hcells : loaded.cellSize = a.machine.cellSize.toNat := hover.cellSize
  rw [hcells, ← Block.flatMap_row hsize, Block.flatMap_byteBits, List.map_flatMap,
    List.flatMap_def]

namespace Sample

/-- Puts a number of ten bits into cells of five. -/
def put : Instruction where
  name := "put"
  opcode := 3
  fieldList := some [{ bits := 5 }, { bits := 10, signed := true }]

def narrowAssembler : Assembler :=
  ⟨({ cellSize := 5, instructionList := some [put] } : Machine).snapshot, none⟩

/-- Cells that do not divide bytes, an alignment, and a label at the end. -/
def narrowSource : Text := "top: put -1\n .align 4\n put top\nend:\n"

theorem image : ∃ p stop loaded image,
    (narrowAssembler.assembleSource library "sample" narrowSource 6).2.result = .ok p ∧
    p.blocks.map (·.cells) = [[3, 31, 31], [0, 0, 0], [3, 0, 6], []] ∧
    Block.Imaged 5 6 p.blocks stop loaded image := by
  have haccept : Assembler.accept (some { cellSize := 5, instructionList := some [put] }) =
      .ok narrowAssembler.machine := by decide +kernel
  have hplain : (plainAssemble? narrowAssembler.machine "sample" narrowSource 6).map
      (fun p => p.blocks.map (·.cells)) = some [[3, 31, 31], [0, 0, 0], [3, 0, 6], []] := by
    decide +kernel
  obtain ⟨p, hp, hcells⟩ := Option.map_eq_some_iff.1 hplain
  have hrun := Assembler.assembleSource_of_plainAssemble? library hp
  have hne : p.blocks ≠ [] := by
    intro hnil
    rw [hnil] at hcells
    cases hcells
  have htotal : Block.total p.blocks = 9 := by
    have hlengths := congrArg (fun cells => (cells.map List.length).sum) hcells
    rw [List.map_map] at hlengths
    exact hlengths
  obtain ⟨stop, loaded, image, h⟩ := Assembler.assembleSource_image haccept hrun hne
    (by rw [htotal]; decide)
  exact ⟨p, stop, loaded, image, hrun, hcells, h⟩

end Sample

end CellAsm
