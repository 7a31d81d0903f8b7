-- SUMMARY: Reading characters back from their bytes.
import CellAsm.Text.Blank
import Mathlib.Data.List.Basic

/-!
# Characters and their bytes

The bytes of a character are read as that character, whatever follows them, and a
glyph that is not a stray byte has exactly the bytes of its character. A text that
is written from characters is therefore read back as these characters, and
trimming it only looks at them.
-/
namespace CellAsm

/-- The glyph of a character that is written out in full. -/
def Glyph.ofChar (c : Char) : Glyph := ⟨c, Text.ofChar c⟩

namespace Utf8

/-! ## Bytes by their numbers -/

theorem toNat_byte {n : Nat} (h : n < 256) : (UInt8.ofNat n).toNat = n := by
  rw [UInt8.toNat_ofNat', Nat.mod_eq_of_lt h]

theorem ofNat_eq_of_toNat {b : UInt8} {n : Nat} (h : b.toNat = n) : UInt8.ofNat n = b := by
  rw [← h, UInt8.ofNat_toNat]

theorem payload?_continuation {n : Nat} (h : n < 64) :
    payload? (UInt8.ofNat (n + 128)) = some n := by
  have hbyte := toNat_byte (n := n + 128) (by omega)
  rw [payload?, if_pos, hbyte, Nat.add_sub_cancel]
  simp only [UInt8.le_iff_toNat_le, UInt8.lt_iff_toNat_lt, hbyte, UInt8.reduceToNat]
  omega

theorem toNat_of_payload? {b : UInt8} {n : Nat} (h : payload? b = some n) :
    b.toNat = n + 128 ∧ n < 64 := by
  unfold payload? at h
  split at h
  · rename_i hb
    simp only [UInt8.le_iff_toNat_le, UInt8.lt_iff_toNat_lt, UInt8.reduceToNat] at hb
    have hn := Option.some.inj h
    generalize b.toNat = k at hb hn
    omega
  · cases h

theorem toNat_ofNat_of_isValidChar {n : Nat} (h : n.isValidChar) : (Char.ofNat n).toNat = n := by
  rw [Char.ofNat, dif_pos h]
  rfl

theorem toNat_lt_limit (c : Char) : c.toNat < 0x110000 := by
  have hvalid : c.toNat < 0xD800 ∨ 0xDFFF < c.toNat ∧ c.toNat < 0x110000 := c.valid
  omega

/-! ## The bytes of a character -/

section Bytes

variable {c : Char}

theorem ofChar_one (h : c.toNat < 0x80) : Text.ofChar c = [UInt8.ofNat c.toNat] := by
  have hval : c.val.toNat = c.toNat := rfl
  simp only [Text.ofChar, String.utf8EncodeChar, hval]
  rw [if_pos (by omega)]

theorem ofChar_two (hlo : 0x80 ≤ c.toNat) (hhi : c.toNat < 0x800) :
    Text.ofChar c = [UInt8.ofNat (c.toNat / 64 + 192), UInt8.ofNat (c.toNat % 64 + 128)] := by
  have hval : c.val.toNat = c.toNat := rfl
  simp only [Text.ofChar, String.utf8EncodeChar, hval]
  rw [if_neg (by omega), if_pos (by omega), Nat.mod_eq_of_lt (a := c.toNat / 64) (by omega)]

theorem ofChar_three (hlo : 0x800 ≤ c.toNat) (hhi : c.toNat < 0x10000) :
    Text.ofChar c = [UInt8.ofNat (c.toNat / 4096 + 224), UInt8.ofNat (c.toNat / 64 % 64 + 128),
      UInt8.ofNat (c.toNat % 64 + 128)] := by
  have hval : c.val.toNat = c.toNat := rfl
  simp only [Text.ofChar, String.utf8EncodeChar, hval]
  rw [if_neg (by omega), if_neg (by omega), if_pos (by omega),
    Nat.mod_eq_of_lt (a := c.toNat / 4096) (by omega)]

theorem ofChar_four (hlo : 0x10000 ≤ c.toNat) :
    Text.ofChar c = [UInt8.ofNat (c.toNat / 262144 + 240), UInt8.ofNat (c.toNat / 4096 % 64 + 128),
      UInt8.ofNat (c.toNat / 64 % 64 + 128), UInt8.ofNat (c.toNat % 64 + 128)] := by
  have hval : c.val.toNat = c.toNat := rfl
  have hmax := toNat_lt_limit c
  simp only [Text.ofChar, String.utf8EncodeChar, hval]
  rw [if_neg (by omega), if_neg (by omega), if_neg (by omega),
    Nat.mod_eq_of_lt (a := c.toNat / 262144) (by omega)]

end Bytes

/-! ## Reading the bytes of a character -/

/-- The bytes of a character are one sequence, whatever follows it. -/
theorem sequence?_ofChar (c : Char) : ∃ b more, Text.ofChar c = b :: more ∧
    ∀ rest, sequence? b (more ++ rest) = some (c.toNat, more.length) := by
  have hmax := toNat_lt_limit c
  by_cases h1 : c.toNat < 0x80
  · refine ⟨_, _, ofChar_one h1, fun rest => ?_⟩
    have hbyte := toNat_byte (n := c.toNat) (by omega)
    simp only [sequence?, UInt8.lt_iff_toNat_lt, hbyte, UInt8.reduceToNat, List.length_nil]
    rw [if_pos (by omega)]
  by_cases h2 : c.toNat < 0x800
  · refine ⟨_, _, ofChar_two (by omega) h2, fun rest => ?_⟩
    have hbyte := toNat_byte (n := c.toNat / 64 + 192) (by omega)
    have hlow := payload?_continuation (n := c.toNat % 64) (by omega)
    simp only [sequence?, UInt8.lt_iff_toNat_lt, hbyte, UInt8.reduceToNat, List.cons_append, hlow]
    have hcode : (c.toNat / 64 + 192 - 0xC0) * 64 + c.toNat % 64 = c.toNat := by omega
    rw [if_neg (by omega), if_neg (by omega), if_pos (by omega)]
    simp only [Option.bind_eq_bind, Option.bind_some, hcode]
    rw [if_pos (by omega)]
    rfl
  by_cases h3 : c.toNat < 0x10000
  · refine ⟨_, _, ofChar_three (by omega) h3, fun rest => ?_⟩
    have hbyte := toNat_byte (n := c.toNat / 4096 + 224) (by omega)
    have hmid := payload?_continuation (n := c.toNat / 64 % 64) (by omega)
    have hlow := payload?_continuation (n := c.toNat % 64) (by omega)
    simp only [sequence?, UInt8.lt_iff_toNat_lt, hbyte, UInt8.reduceToNat, List.cons_append,
      hmid, hlow]
    have hcode : ((c.toNat / 4096 + 224 - 0xE0) * 64 + c.toNat / 64 % 64) * 64 + c.toNat % 64 =
        c.toNat := by omega
    rw [if_neg (by omega), if_neg (by omega), if_neg (by omega), if_pos (by omega)]
    simp only [Option.bind_eq_bind, Option.bind_some, hcode]
    rw [if_pos (by omega)]
    rfl
  · refine ⟨_, _, ofChar_four (by omega), fun rest => ?_⟩
    have hbyte := toNat_byte (n := c.toNat / 262144 + 240) (by omega)
    have hhigh := payload?_continuation (n := c.toNat / 4096 % 64) (by omega)
    have hmid := payload?_continuation (n := c.toNat / 64 % 64) (by omega)
    have hlow := payload?_continuation (n := c.toNat % 64) (by omega)
    simp only [sequence?, UInt8.lt_iff_toNat_lt, hbyte, UInt8.reduceToNat, List.cons_append,
      hhigh, hmid, hlow]
    have hcode : (((c.toNat / 262144 + 240 - 0xF0) * 64 + c.toNat / 4096 % 64) * 64 +
        c.toNat / 64 % 64) * 64 + c.toNat % 64 = c.toNat := by omega
    rw [if_neg (by omega), if_neg (by omega), if_neg (by omega), if_neg (by omega),
      if_pos (by omega)]
    simp only [Option.bind_eq_bind, Option.bind_some, hcode]
    rw [if_pos (by omega)]
    rfl

/-- A character is read from its bytes. -/
theorem head_ofChar (c : Char) : ∃ b more, Text.ofChar c = b :: more ∧
    ∀ rest, head b (more ++ rest) = (c, more.length) := by
  obtain ⟨b, more, hbytes, hsequence⟩ := sequence?_ofChar c
  refine ⟨b, more, hbytes, fun rest => ?_⟩
  have hvalid : c.toNat.isValidChar := c.valid
  simp only [head, hsequence, hvalid, if_true, Char.ofNat_toNat]

/-! ## Glyphs that are no stray bytes -/

/-- What a sequence is made of, by its length. -/
theorem of_sequence? {b : UInt8} {rest : Text} {n k : Nat} (h : sequence? b rest = some (n, k)) :
    (n < 0x80 ∧ b.toNat = n ∧ k = 0) ∨
    (∃ x tail, rest = x :: tail ∧ 0x80 ≤ n ∧ n < 0x800 ∧ b.toNat = n / 64 + 192 ∧
      x.toNat = n % 64 + 128 ∧ k = 1) ∨
    (∃ x y tail, rest = x :: y :: tail ∧ 0x800 ≤ n ∧ n < 0x10000 ∧ b.toNat = n / 4096 + 224 ∧
      x.toNat = n / 64 % 64 + 128 ∧ y.toNat = n % 64 + 128 ∧ k = 2) ∨
    (∃ x y z tail, rest = x :: y :: z :: tail ∧ 0x10000 ≤ n ∧ b.toNat = n / 262144 + 240 ∧
      x.toNat = n / 4096 % 64 + 128 ∧ y.toNat = n / 64 % 64 + 128 ∧ z.toNat = n % 64 + 128 ∧
      k = 3) := by
  unfold sequence? at h
  simp only [UInt8.lt_iff_toNat_lt, UInt8.reduceToNat] at h
  split at h
  · rename_i hb
    cases h
    exact .inl ⟨hb, rfl, rfl⟩
  · split at h
    · cases h
    · split at h
      · split at h
        · rename_i x tail
          simp only [Option.bind_eq_bind, Option.bind_eq_some_iff] at h
          obtain ⟨px, hx, h⟩ := h
          obtain ⟨hx, hpx⟩ := toNat_of_payload? hx
          split at h
          · cases h
            exact .inr (.inl ⟨x, tail, rfl, by omega⟩)
          · cases h
        · cases h
      · split at h
        · split at h
          · rename_i x y tail
            simp only [Option.bind_eq_bind, Option.bind_eq_some_iff] at h
            obtain ⟨px, hx, py, hy, h⟩ := h
            obtain ⟨hx, hpx⟩ := toNat_of_payload? hx
            obtain ⟨hy, hpy⟩ := toNat_of_payload? hy
            split at h
            · cases h
              exact .inr (.inr (.inl ⟨x, y, tail, rfl, by omega⟩))
            · cases h
          · cases h
        · split at h
          · split at h
            · rename_i x y z tail
              simp only [Option.bind_eq_bind, Option.bind_eq_some_iff] at h
              obtain ⟨px, hx, py, hy, pz, hz, h⟩ := h
              obtain ⟨hx, hpx⟩ := toNat_of_payload? hx
              obtain ⟨hy, hpy⟩ := toNat_of_payload? hy
              obtain ⟨hz, hpz⟩ := toNat_of_payload? hz
              split at h
              · cases h
                exact .inr (.inr (.inr ⟨x, y, z, tail, rfl, by omega⟩))
              · cases h
            · cases h
          · cases h

theorem le_length_of_sequence? {b : UInt8} {rest : Text} {n k : Nat}
    (h : sequence? b rest = some (n, k)) : k ≤ rest.length := by
  rcases of_sequence? h with ⟨_, _, rfl⟩ | ⟨x, tail, rfl, _, _, _, _, rfl⟩ |
    ⟨x, y, tail, rfl, _, _, _, _, _, rfl⟩ | ⟨x, y, z, tail, rfl, _, _, _, _, _, rfl⟩
  · exact Nat.zero_le _
  · simp
  · simp
  · simp

/-- A sequence that stands for a character has the bytes of that character. -/
theorem ofChar_of_sequence? {b : UInt8} {rest : Text} {n k : Nat}
    (h : sequence? b rest = some (n, k)) (hvalid : n.isValidChar) :
    Text.ofChar (Char.ofNat n) = b :: rest.take k := by
  have hval := toNat_ofNat_of_isValidChar hvalid
  rcases of_sequence? h with ⟨hn, hb, rfl⟩ | ⟨x, tail, rfl, hlo, hhi, hb, hx, rfl⟩ |
      ⟨x, y, tail, rfl, hlo, hhi, hb, hx, hy, rfl⟩ | ⟨x, y, z, tail, rfl, hlo, hb, hx, hy, hz, rfl⟩
  · rw [ofChar_one (by omega), hval, ofNat_eq_of_toNat hb]
    rfl
  · rw [ofChar_two (by omega) (by omega), hval, ofNat_eq_of_toNat hb, ofNat_eq_of_toNat hx]
    rfl
  · rw [ofChar_three (by omega) (by omega), hval, ofNat_eq_of_toNat hb, ofNat_eq_of_toNat hx,
      ofNat_eq_of_toNat hy]
    rfl
  · rw [ofChar_four (by omega), hval, ofNat_eq_of_toNat hb, ofNat_eq_of_toNat hx,
      ofNat_eq_of_toNat hy, ofNat_eq_of_toNat hz]
    rfl

end Utf8

namespace Text

theorem eq_ofChar_of_mem_glyphs {t : Text} {g : Glyph} (h : g ∈ t.glyphs)
    (hchar : g.char ≠ Utf8.replacement) : g = Glyph.ofChar g.char := by
  induction t using glyphs.induct with
  | case1 =>
    rw [glyphs] at h
    cases h
  | case2 b rest ih =>
    rw [glyphs] at h
    rcases List.mem_cons.1 h with rfl | h
    · unfold Utf8.head at hchar ⊢
      split at hchar
      · rename_i n k hsequence
        split at hchar
        · rename_i hvalid
          simp only [hvalid, if_true, Glyph.ofChar, Utf8.ofChar_of_sequence? hsequence hvalid]
        · exact absurd rfl hchar
      · exact absurd rfl hchar
    · exact ih h

/-! ## Texts written from characters -/

theorem glyphs_ofChar_append (c : Char) (rest : Text) :
    glyphs (ofChar c ++ rest) = Glyph.ofChar c :: glyphs rest := by
  obtain ⟨b, more, hbytes, hhead⟩ := Utf8.head_ofChar c
  rw [Glyph.ofChar, hbytes, List.cons_append, glyphs, hhead, List.take_left, List.drop_left]

theorem ofChars_cons (c : Char) (cs : List Char) : ofChars (c :: cs) = ofChar c ++ ofChars cs :=
  List.flatMap_cons

theorem ofChars_append (cs ds : List Char) : ofChars (cs ++ ds) = ofChars cs ++ ofChars ds :=
  List.flatMap_append

theorem glyphs_ofChars_append (cs : List Char) (rest : Text) :
    glyphs (ofChars cs ++ rest) = cs.map Glyph.ofChar ++ glyphs rest := by
  induction cs with
  | nil => rfl
  | cons c cs ih =>
    rw [ofChars_cons, List.append_assoc, glyphs_ofChar_append, ih, List.map_cons, List.cons_append]

@[simp] theorem glyphs_ofChars (cs : List Char) : glyphs (ofChars cs) = cs.map Glyph.ofChar := by
  have h := glyphs_ofChars_append cs []
  rw [List.append_nil] at h
  rw [h, glyphs, List.append_nil]

/-- Characters that were written are read back. -/
@[simp] theorem chars_ofChars (cs : List Char) : chars (ofChars cs) = cs := by
  rw [chars, glyphs_ofChars, List.map_map]
  exact List.map_id cs

theorem chars_ofChars_append (cs : List Char) (rest : Text) :
    chars (ofChars cs ++ rest) = cs ++ chars rest := by
  rw [chars, glyphs_ofChars_append, List.map_append, List.map_map]
  exact congrArg (· ++ _) (List.map_id cs)

@[simp] theorem chars_ofChar_append (c : Char) (rest : Text) :
    chars (ofChar c ++ rest) = c :: chars rest := by
  rw [chars, glyphs_ofChar_append]
  rfl

@[simp] theorem chars_ofChar (c : Char) : chars (ofChar c) = [c] := by
  have h := chars_ofChars [c]
  rwa [ofChars_cons, show ofChars [] = [] from rfl, List.append_nil] at h

theorem ofChar_injective : Function.Injective ofChar := by
  intro c d h
  have hchars := congrArg chars h
  simpa using hchars

/-- The text is made of characters. -/
def IsUtf8 (t : Text) : Prop := ∃ cs, t = ofChars cs

theorem isUtf8_ofChars (cs : List Char) : IsUtf8 (ofChars cs) := ⟨cs, rfl⟩

theorem isUtf8_ofString (s : String) : IsUtf8 (ofString s) := ⟨s.toList, rfl⟩

theorem flatMap_bytes_ofChar (cs : List Char) :
    (cs.map Glyph.ofChar).flatMap Glyph.bytes = ofChars cs := by
  rw [List.flatMap_map]
  rfl

/-! ## Trimming -/

theorem dropWhile_blank {gs : List Glyph} (h : ∀ g ∈ gs, isBlank g.char = false) :
    gs.dropWhile (fun g => isBlank g.char) = gs := by
  cases gs with
  | nil => rfl
  | cons g gs =>
    rw [List.dropWhile_cons_of_neg]
    simp [h g List.mem_cons_self]

/-- There is nothing to trim from a text without blanks. -/
theorem trim_ofChars {cs : List Char} (h : ∀ c ∈ cs, isBlank c = false) :
    trim (ofChars cs) = ofChars cs := by
  have hglyphs : ∀ g ∈ cs.map Glyph.ofChar, isBlank g.char = false :=
    List.forall_mem_map.2 fun c hc => h c hc
  simp only [trim, glyphs_ofChars]
  rw [dropWhile_blank hglyphs, dropWhile_blank fun g hg => hglyphs g (List.mem_reverse.1 hg),
    List.reverse_reverse, flatMap_bytes_ofChar]

end Text

end CellAsm
