-- SUMMARY: The bytes and the hexadecimal lines of a store can be read back into its cells.
import CellAsm.Proofs.Image

/-!
# Reading images back

The bytes of a range of cells hold the low bits of each cell one behind the other, and
zeros up to the end of the last byte. Cut into groups as wide as a cell, they are the cells again.

A hexadecimal line holds an address and a cell. The lines of a range are read back as its
addresses and cells, and where a writer refuses a line, as those in front of it.
-/
namespace CellAsm

/-! ## Bits in groups -/

/-- The bits of some bytes, the most significant bit of each byte first. -/
def Text.bits (t : Text) : List Bool := t.flatMap fun b => bitsOf 8 b.toNat

theorem Text.length_bits (t : Text) : t.bits.length = t.length * 8 := by
  simp [bits, List.length_flatMap]

/-- The first `n` groups of `width` bits. -/
def groups (width : Nat) : Nat → List Bool → List (List Bool)
  | 0, _ => []
  | n + 1, bits => bits.take width :: groups width n (bits.drop width)

theorem groups_flatMap {α : Type} {f : α → List Bool} {width : Nat}
    (hf : ∀ a, (f a).length = width) (l : List α) (rest : List Bool) :
    groups width l.length (l.flatMap f ++ rest) = l.map f := by
  induction l with
  | nil => rfl
  | cons a l ih =>
    rw [List.length_cons, groups, List.flatMap_cons, List.append_assoc, List.take_left' (hf a),
      List.drop_left' (hf a), ih, List.map_cons]

namespace Store

variable {s : Store} {first stop : Int} {lo hi : Nat}

theorem length_cells (s : Store) : s.cells.length = s.size := by
  rw [cells, List.length_map, List.length_range]

theorem length_extract (hle : lo ≤ hi) (hsize : hi ≤ s.size) :
    (s.cells.extract lo hi).length = hi - lo := by
  rw [List.extract_eq_take_drop, List.length_take, List.length_drop, length_cells]
  omega

/-- A range is clamped to the cells that exist. -/
theorem slice_eq_extract (hlo : (lo : Int) = max first 0) (hhi : (hi : Int) = min stop s.size)
    (hle : lo ≤ hi) : s.slice first stop = .ok (s.cells.extract lo hi) := by
  have hcells := length_extract (s := s) hle (by omega)
  have hcount : ((hi : Int) - lo).toNat = hi - lo := by omega
  unfold slice
  dsimp only
  rw [← hlo, ← hhi, if_neg (by omega), hcount, Int.toNat_natCast]
  congr 1
  refine List.ext_getElem ?_ fun i _ _ => ?_
  · rw [List.length_map, List.length_range', hcells]
  · simp [List.extract_eq_take_drop, cells]

theorem length_flatMap_bitsOf (width : Nat) (cells : List UInt64) :
    (cells.flatMap fun c => bitsOf width c.toNat).length = cells.length * width := by
  simp [List.length_flatMap]

/-- The bytes of some cells hold their bits, and zeros behind them. -/
theorem bits_packBytes (width : Nat) (cells : List UInt64) :
    (packBytes (cells.flatMap fun c => bitsOf width c.toNat)).bits =
      (cells.flatMap fun c => bitsOf width c.toNat) ++
        List.replicate ((8 - cells.length * width % 8) % 8) false := by
  rw [← length_flatMap_bitsOf width cells]
  exact flatMap_packBytes _

/-- The bytes hold the cells from `lo` up to but not with `hi`: nothing is missing, and only
the last byte is filled up. -/
structure Unpacks (s : Store) (lo hi : Nat) (image : Text) : Prop where
  length : image.length = ((hi - lo) * s.cellSize + 7) / 8
  cells : (groups s.cellSize (hi - lo) image.bits).map natOfBits =
    (s.cells.extract lo hi).map fun c => c.toNat % 2 ^ s.cellSize
  padding : ∀ b ∈ image.bits.drop ((hi - lo) * s.cellSize), b = false

/-- The bytes of a range that is clamped to the store can be cut into its cells. -/
theorem bytes_unpacks (hlo : (lo : Int) = max first 0) (hhi : (hi : Int) = min stop s.size)
    (hle : lo ≤ hi) : ∃ image, s.bytes first stop = .ok image ∧ s.Unpacks lo hi image := by
  have hcells := length_extract (s := s) hle (by omega)
  refine ⟨_, bytes_of_slice (slice_eq_extract hlo hhi hle), ?_⟩
  have hbits := bits_packBytes s.cellSize (s.cells.extract lo hi)
  have hwidth := length_flatMap_bitsOf s.cellSize (s.cells.extract lo hi)
  rw [hcells] at hbits hwidth
  constructor
  · have htotal := Text.length_bits (packBytes ((s.cells.extract lo hi).flatMap fun c =>
      bitsOf s.cellSize c.toNat))
    rw [hbits, List.length_append, List.length_replicate, hwidth] at htotal
    omega
  · rw [hbits, ← hcells, groups_flatMap fun c => length_bitsOf s.cellSize _, List.map_map]
    refine List.map_congr_left fun c _ => ?_
    exact_mod_cast natOfBits_bitsOf s.cellSize c.toNat
  · rw [hbits, ← hwidth, List.drop_left]
    exact fun b hb => List.eq_of_mem_replicate hb

end Store

namespace Sample

/-- Cells of five bits, one of which holds more than five. -/
def overfull : Store := { cellSize := 5, size := 4, runs := [⟨1, #[31, 71, 18]⟩] }

/-- A range that begins in front of the store and ends behind it. -/
theorem overfull_unpacks :
    overfull.bytes (-2) 9 = .ok [0x07, 0xCF, 0x20] ∧
      overfull.Unpacks 0 4 [0x07, 0xCF, 0x20] ∧
      (overfull.cells.extract 0 4).map (fun c => c.toNat % 2 ^ 5) = [0, 31, 7, 18] := by
  have hbytes : overfull.bytes (-2) 9 = .ok [0x07, 0xCF, 0x20] := by decide +kernel
  have hlo : ((0 : Nat) : Int) = max (-2) 0 := by decide
  have hhi : ((4 : Nat) : Int) = min 9 (overfull.size : Int) := by decide
  obtain ⟨image, himage, hunpacks⟩ := Store.bytes_unpacks hlo hhi (by decide)
  rw [hbytes] at himage
  cases himage
  exact ⟨hbytes, hunpacks, by decide⟩

end Sample

/-! ## Writers -/

namespace Writer

variable (w : Writer) (activity : String)

theorem writeFrom_of_lt {n : Int} (h : w.failAt < n) (pieces : List Text) :
    w.writeFrom activity n (pieces.map .ok) = .ok { text := pieces.flatten } := by
  induction pieces generalizing n with
  | nil => rfl
  | cons piece pieces ih =>
    rw [List.map_cons, writeFrom, if_neg (by omega), ih (by omega)]
    rfl

theorem writeFrom_of_eq {n : Int} {k : Nat} (h : w.failAt = n + k) (pieces : List Text) :
    w.writeFrom activity n (pieces.map .ok) = .ok
      { text := (pieces.take k).flatten
        error := if k < pieces.length then some (refusal activity) else none } := by
  induction pieces generalizing n k with
  | nil =>
    rw [List.take_nil]
    rfl
  | cons piece pieces ih =>
    rw [List.map_cons, writeFrom]
    cases k with
    | zero =>
      rw [if_pos (by omega)]
      rfl
    | succ k =>
      rw [if_neg (by omega), ih (n := n + 1) (k := k) (by omega)]
      simp only [List.length_cons, Nat.add_lt_add_iff_right]
      rfl

/-- What reaches a writer of some lines: all of them, or those in front of the one that it
refuses. -/
structure Receives (lines : List Text) (out : Written) : Prop where
  never : w.failAt ≤ 0 → out.text = lines.flatten ∧ out.error = none
  fails : ∀ k : Nat, 1 ≤ k → w.failAt = k →
    out.text = (lines.take (k - 1)).flatten ∧ (out.error.isSome ↔ k ≤ lines.length)

theorem exists_receives (lines : List Text) :
    ∃ out, w.write activity (lines.map .ok) = .ok out ∧ w.Receives lines out := by
  unfold write
  by_cases hnever : w.failAt ≤ 0
  · refine ⟨_, w.writeFrom_of_lt activity (by omega) lines, fun _ => ⟨rfl, rfl⟩, ?_⟩
    intro k hk hfails
    omega
  · obtain ⟨k, hk⟩ : ∃ k : Nat, w.failAt = 1 + k := ⟨(w.failAt - 1).toNat, by omega⟩
    refine ⟨_, w.writeFrom_of_eq activity hk lines, fun h => absurd h hnever, ?_⟩
    intro j _ hj
    obtain rfl : j = k + 1 := by omega
    refine ⟨rfl, ?_⟩
    dsimp only
    split
    · rename_i hlt
      exact ⟨fun _ => hlt, fun _ => rfl⟩
    · rename_i hlt
      exact ⟨by rintro ⟨⟩, fun h => absurd h hlt⟩

end Writer

/-! ## Lines -/

namespace Text

theorem splitAtByte_eq_splitOn (b : UInt8) (t : Text) : t.splitAtByte b = t.splitOn b := by
  induction t with
  | nil => rfl
  | cons c t ih =>
    rw [splitAtByte, List.splitOn_cons_eq_if_modifyHead, ih]
    by_cases hc : c = b
    · rw [if_pos hc, if_pos (beq_iff_eq.2 hc)]
    · rw [if_neg hc, if_neg (mt beq_iff_eq.1 hc)]
      cases hpieces : t.splitOn b with
      | nil => exact absurd hpieces (List.splitOn_ne_nil b t)
      | cons piece pieces => rfl

theorem splitAtByte_append {b : UInt8} {s : Text} (h : b ∉ s) (t : Text) :
    splitAtByte b (s ++ b :: t) = s :: splitAtByte b t := by
  rw [splitAtByte_eq_splitOn, splitAtByte_eq_splitOn, List.splitOn_append_cons_self_of_not_mem h]

theorem splitAtByte_of_notMem {b : UInt8} {s : Text} (h : b ∉ s) : splitAtByte b s = [s] := by
  rw [splitAtByte_eq_splitOn, List.splitOn_eq_singleton h]

/-- The lines of a text, each of which has to be ended. -/
def endedLines? (t : Text) : Option (List Text) :=
  if (t.splitAtByte 10).getLast? = some [] then some (t.splitAtByte 10).dropLast else none

theorem splitAtByte_ended {lines : List Text} (h : ∀ l ∈ lines, 10 ∉ l) :
    splitAtByte 10 (lines.flatMap (· ++ [10])) = lines ++ [[]] := by
  induction lines with
  | nil => rfl
  | cons l lines ih =>
    obtain ⟨hl, hlines⟩ := List.forall_mem_cons.1 h
    rw [List.flatMap_cons, List.append_assoc, List.singleton_append, splitAtByte_append hl,
      ih hlines, List.cons_append]

theorem endedLines?_ended {lines : List Text} (h : ∀ l ∈ lines, 10 ∉ l) :
    endedLines? (lines.flatMap (· ++ [10])) = some lines := by
  rw [endedLines?, splitAtByte_ended h, List.getLast?_concat, if_pos rfl, List.dropLast_concat]

/-! ## Hexadecimal numbers -/

theorem notMem_of_ofDigits? {base n : Nat} {t : Text} {b : UInt8} (h : ofDigits? base t = some n)
    (hb : digitValue? base b = none) : b ∉ t := by
  intro hmem
  rw [ofDigits?_of_ne_nil (List.ne_nil_of_mem hmem)] at h
  obtain ⟨d, hd⟩ := exists_digitValue?_of_readDigits? h b hmem
  rw [hb] at hd
  cases hd

theorem ofDigits?_hex (width n : Nat) : ofDigits? 16 (hex width n) = some n := by
  have hne : hex width n ≠ [] := List.append_ne_nil_of_right_ne_nil _ (numeral_ne_nil 16 n)
  rw [ofDigits?_of_ne_nil hne, hex, List.leftpad, readDigits?_replicate_zero (by decide),
    readDigits?_numeral (by decide) (by decide)]

/-- A number that fits is written in as many digits as asked for, but not in none. -/
theorem length_hex {width n : Nat} (h : n < 16 ^ width) : (hex width n).length = max 1 width := by
  have hpos : 0 < (numeral 16 n).length := List.length_pos_iff.2 (numeral_ne_nil 16 n)
  have hle : (numeral 16 n).length ≤ max 1 width := by
    rw [numeral, List.length_map]
    refine length_digits_le (by omega) (h.trans_le ?_)
    exact Nat.pow_le_pow_right (by decide) (by omega)
  rw [hex, List.length_leftpad]
  omega

end Text

/-! ## Hexadecimal images -/

/-- An address, and the value of a cell in some number of digits. -/
structure HexEntry where
  address : Nat
  digits : Nat
  value : Nat
deriving DecidableEq, Repr

namespace HexEntry

/-- Reads an address, a colon, a blank and a value. -/
def ofLine? (line : Text) : Option HexEntry :=
  match line.splitAtByte ':'.toUInt8 with
  | [address, 0x20 :: value] => do
    return ⟨← Text.ofDigits? 16 address, value.length, ← Text.ofDigits? 16 value⟩
  | _ => none

/-- Reads a text line by line. -/
def ofText? (t : Text) : Option (List HexEntry) := t.endedLines?.bind (List.mapM ofLine?)

theorem ofLine?_join {a v : Text} {address value : Nat} (ha : a.ofDigits? 16 = some address)
    (hv : v.ofDigits? 16 = some value) :
    ofLine? (a ++ ':'.toUInt8 :: 0x20 :: v) = some ⟨address, v.length, value⟩ := by
  have hcolon : digitValue? 16 ':'.toUInt8 = none := by decide
  have hvalue : ':'.toUInt8 ∉ 0x20 :: v :=
    List.not_mem_cons_of_ne_of_not_mem (by decide) (Text.notMem_of_ofDigits? hv hcolon)
  rw [ofLine?, Text.splitAtByte_append (Text.notMem_of_ofDigits? ha hcolon),
    Text.splitAtByte_of_notMem hvalue]
  simp [ha, hv]

end HexEntry

namespace Store

variable {s : Store}

/-- The addresses from `first` up to but not with `stop`, as far as there are cells. -/
def addresses (s : Store) (first stop : Int) : List Nat :=
  List.range' first.toNat (min stop s.size - first).toNat

theorem lt_size_of_mem_addresses {first stop : Int} {a : Nat} (hfirst : 0 ≤ first)
    (h : a ∈ s.addresses first stop) : a < s.size := by
  obtain ⟨_, hlt⟩ := List.mem_range'_1.1 h
  omega

theorem hexLines_eq {first : Int} (h : 0 ≤ first) (stop : Int) :
    s.hexLines first stop = ((s.addresses first stop).map s.hexLine).map .ok := by
  unfold hexLines addresses
  dsimp only
  split
  · rename_i hempty
    have hnone : (min stop s.size - first).toNat = 0 := by omega
    rw [hnone]
    rfl
  · rw [if_neg (by omega), List.range'_eq_map_range, List.map_map, List.map_map]
    rfl

/-- A line without its end. -/
def hexEntry (s : Store) (a : Nat) : Text :=
  Text.hex 8 a ++ ':'.toUInt8 :: 0x20 :: Text.hex s.hexDigits (s.get a).toNat

theorem hexLine_eq (s : Store) (a : Nat) : s.hexLine a = s.hexEntry a ++ [10] := by
  have hcolon : Text.ofString ": " = [':'.toUInt8, 0x20] := by decide
  have hend : Text.ofString "\n" = [10] := by decide
  simp [hexLine, hexEntry, Text.join, hcolon, hend]

theorem newline_notMem_hexEntry (s : Store) (a : Nat) : 10 ∉ s.hexEntry a := by
  have hhex (width n : Nat) : 10 ∉ Text.hex width n :=
    Text.notMem_of_ofDigits? (Text.ofDigits?_hex width n) (by decide)
  have hcolon : (10 : UInt8) ≠ ':'.toUInt8 := by decide
  simp [hexEntry, hhex, hcolon]

theorem ofLine?_hexEntry {a : Nat} (h : (s.get a).toNat < 2 ^ s.cellSize) :
    HexEntry.ofLine? (s.hexEntry a) = some ⟨a, max 1 s.hexDigits, (s.get a).toNat⟩ := by
  have hfits : 2 ^ s.cellSize ≤ 16 ^ s.hexDigits := by
    rw [show 16 = 2 ^ 4 from rfl, ← Nat.pow_mul]
    exact Nat.pow_le_pow_right (by decide) (by unfold hexDigits; omega)
  rw [hexEntry, HexEntry.ofLine?_join (Text.ofDigits?_hex _ _) (Text.ofDigits?_hex _ _),
    Text.length_hex (h.trans_le hfits)]

theorem mapM_ofLine?_hexEntry {addresses : List Nat}
    (h : ∀ a ∈ addresses, (s.get a).toNat < 2 ^ s.cellSize) :
    (addresses.map s.hexEntry).mapM HexEntry.ofLine? =
      some (addresses.map fun a => ⟨a, max 1 s.hexDigits, (s.get a).toNat⟩) := by
  induction addresses with
  | nil => rfl
  | cons a addresses ih =>
    obtain ⟨ha, haddresses⟩ := List.forall_mem_cons.1 h
    rw [List.map_cons, List.mapM_cons, ofLine?_hexEntry ha, ih haddresses]
    rfl

/-- The lines of some addresses are read back as these and the cells there. -/
theorem ofText?_hexLines {addresses : List Nat}
    (h : ∀ a ∈ addresses, (s.get a).toNat < 2 ^ s.cellSize) :
    HexEntry.ofText? (addresses.map s.hexLine).flatten =
      some (addresses.map fun a => ⟨a, max 1 s.hexDigits, (s.get a).toNat⟩) := by
  have hlines : (addresses.map s.hexLine).flatten =
      (addresses.map s.hexEntry).flatMap (· ++ [10]) := by
    rw [List.flatMap_map, ← List.flatMap_def]
    exact List.flatMap_congr fun a _ => s.hexLine_eq a
  have hended : ∀ l ∈ addresses.map s.hexEntry, 10 ∉ l :=
    List.forall_mem_map.2 fun a _ => s.newline_notMem_hexEntry a
  rw [hlines, HexEntry.ofText?, Text.endedLines?_ended hended, Option.bind_some,
    mapM_ofLine?_hexEntry h]

/-- The lines of a range of cells are written as far as the writer takes them, and what it
has taken is read back as addresses and cells. -/
theorem writeHex_readBack (hcells : ∀ a < s.size, (s.get a).toNat < 2 ^ s.cellSize) {first : Int}
    (hfirst : 0 ≤ first) (stop : Int) (w : Writer) :
    ∃ out digits, s.writeHex w first stop = .ok out ∧
      (0 < s.cellSize → digits = (s.cellSize + 3) / 4) ∧
      w.Receives ((s.addresses first stop).map s.hexLine) out ∧
      ∀ n, HexEntry.ofText? (((s.addresses first stop).map s.hexLine).take n).flatten =
        some (((s.addresses first stop).take n).map fun a => ⟨a, digits, (s.get a).toNat⟩) := by
  obtain ⟨out, hout, hreceives⟩ :=
    w.exists_receives "write hex" ((s.addresses first stop).map s.hexLine)
  refine ⟨out, max 1 s.hexDigits, ?_, ?_, hreceives, ?_⟩
  · rw [writeHex, hexLines_eq hfirst]
    exact hout
  · intro hsize
    unfold hexDigits
    omega
  · intro n
    rw [← List.map_take]
    refine ofText?_hexLines fun a ha => hcells a ?_
    exact lt_size_of_mem_addresses hfirst (List.mem_of_mem_take ha)

end Store

namespace Sample

/-- Cells of six bits, so that a value takes two digits. -/
def loaded : Store := { cellSize := 6, size := 4, runs := [⟨1, #[63, 7, 18]⟩] }

/-- Of three lines, a writer that refuses the third gets two. -/
theorem loaded_readBack :
    (∀ a < loaded.size, (loaded.get a).toNat < 2 ^ loaded.cellSize) ∧
      ∃ out, loaded.writeHex ⟨3⟩ 1 9 = .ok out ∧ out.error.isSome ∧
        out.text = "00000001: 3f\n00000002: 07\n" ∧
        HexEntry.ofText? out.text = some [⟨1, 2, 63⟩, ⟨2, 2, 7⟩] := by
  have hcells : ∀ a < loaded.size, (loaded.get a).toNat < 2 ^ loaded.cellSize := by decide
  obtain ⟨out, digits, hout, hdigits, hreceives, hread⟩ :=
    Store.writeHex_readBack hcells (show 0 ≤ 1 by decide) 9 ⟨3⟩
  obtain ⟨htext, herror⟩ := hreceives.fails 3 (by decide) rfl
  obtain rfl := hdigits (by decide)
  refine ⟨hcells, out, hout, herror.2 (by decide), htext.trans (by decide +kernel), ?_⟩
  rw [htext]
  exact (hread 2).trans (by decide)

end Sample

end CellAsm
