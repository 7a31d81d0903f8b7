-- SUMMARY: A place in a text is a count of what stands before it.
import CellAsm.Proofs.LineEnds
import Mathlib.Data.List.Induction

/-!
# Places as counts

The lexer keeps a line, a column and an offset while it walks over glyphs. The text in
front of a place determines all three: the offset counts its bytes, the line its line
ends, and the column the characters behind the last of these. A character may take
several bytes, and a byte that begins no character counts as one, so the count of
characters is right only because a text that is cut between two glyphs is decoded as
the glyphs on either side.
-/
namespace CellAsm

/-! ## Cutting a text between glyphs -/

namespace Utf8

variable {b : UInt8} {rest rest' : Text} {n k : Nat}

/-- Only the bytes that belong to a sequence matter for it. -/
theorem sequence?_of_take (h : sequence? b rest = some (n, k))
    (htake : rest'.take k = rest.take k) : sequence? b rest' = some (n, k) := by
  rcases of_sequence? h with ⟨hn, hb, rfl⟩ | ⟨x, tail, rfl, _, _, hb, _, rfl⟩ |
      ⟨x, y, tail, rfl, _, _, hb, _, _, rfl⟩ | ⟨x, y, z, tail, rfl, _, _, _, _, _, rfl⟩
  · have hlead : b < 0x80 := by
      rw [UInt8.lt_iff_toNat_lt, hb]
      exact hn
    simp only [sequence?, hlead, if_true, hb]
  · have hlead : ¬b < 0x80 ∧ ¬b < 0xC0 ∧ b < 0xE0 := by
      simp only [UInt8.lt_iff_toNat_lt, UInt8.reduceToNat]
      omega
    rcases rest' with _ | ⟨x', tail'⟩
    · cases htake
    · cases htake
      simp only [sequence?, hlead, if_true, if_false] at h ⊢
      exact h
  · have hlead : ¬b < 0x80 ∧ ¬b < 0xC0 ∧ ¬b < 0xE0 ∧ b < 0xF0 := by
      simp only [UInt8.lt_iff_toNat_lt, UInt8.reduceToNat]
      omega
    rcases rest' with _ | ⟨x', _ | ⟨y', tail'⟩⟩
    · cases htake
    · cases htake
    · cases htake
      simp only [sequence?, hlead, if_true, if_false] at h ⊢
      exact h
  · rcases rest' with _ | ⟨x', _ | ⟨y', _ | ⟨z', tail'⟩⟩⟩
    · cases htake
    · cases htake
    · cases htake
    · cases htake
      exact h

/-- A sequence stays one when the text goes on. -/
theorem sequence?_append (h : sequence? b rest = some (n, k)) (more : Text) :
    sequence? b (rest ++ more) = some (n, k) := by
  refine sequence?_of_take h ?_
  exact List.take_append_of_le_length (le_length_of_sequence? h)

/-- A text that is cut behind its first character still begins with it. -/
theorem head_of_append (more : Text) (h : (head b (rest ++ more)).2 ≤ rest.length) :
    head b rest = head b (rest ++ more) := by
  cases hrest : sequence? b rest with
  | some s =>
    rw [head, head, hrest, sequence?_append hrest]
  | none =>
    -- without a sequence in the shorter text, there is none in the longer one that would fit
    cases hlong : sequence? b (rest ++ more) with
    | none => rw [head, head, hrest, hlong]
    | some s =>
      obtain ⟨n, k⟩ := s
      by_cases hvalid : n.isValidChar
      · simp only [head, hlong, hvalid, if_true] at h
        have hshort := sequence?_of_take hlong (List.take_append_of_le_length h).symm
        cases hrest.symm.trans hshort
      · simp only [head, hrest, hlong, hvalid, if_false]

end Utf8

/-- The glyphs are what their bytes are decoded as. -/
def Glyph.Decoded (gs : List Glyph) : Prop := Text.glyphs (gs.flatMap Glyph.bytes) = gs

namespace Glyph.Decoded

variable {g : Glyph} {gs hs : List Glyph}

theorem glyphs (t : Text) : Decoded t.glyphs := by
  rw [Decoded, Text.flatMap_bytes_glyphs]

theorem nil : Decoded [] := by
  rw [Decoded, List.flatMap_nil, Text.glyphs]

/-- The first glyph is read from the first byte on, and the others from behind it. -/
theorem of_cons (h : Decoded (g :: gs)) : ∃ b rest, (g :: gs).flatMap Glyph.bytes = b :: rest ∧
    g = ⟨(Utf8.head b rest).1, b :: rest.take (Utf8.head b rest).2⟩ ∧
    gs.flatMap Glyph.bytes = rest.drop (Utf8.head b rest).2 ∧ Decoded gs := by
  unfold Decoded at h
  cases htext : (g :: gs).flatMap Glyph.bytes with
  | nil =>
    rw [htext, Text.glyphs] at h
    cases h
  | cons b rest =>
    rw [htext, Text.glyphs] at h
    obtain ⟨hg, hgs⟩ := List.cons.inj h
    have hdrop : gs.flatMap Glyph.bytes = rest.drop (Utf8.head b rest).2 := by
      rw [← hgs, Text.flatMap_bytes_glyphs]
    refine ⟨b, rest, rfl, hg.symm, hdrop, ?_⟩
    rw [Decoded, hdrop]
    exact hgs

theorem right (h : Decoded (gs ++ hs)) : Decoded hs := by
  induction gs with
  | nil => exact h
  | cons g gs ih =>
    obtain ⟨_, _, _, _, _, hrest⟩ := of_cons h
    exact ih hrest

theorem left (h : Decoded (gs ++ hs)) : Decoded gs := by
  induction gs with
  | nil => exact nil
  | cons g gs ih =>
    obtain ⟨b, rest, hbytes, hg, hdrop, hrest⟩ := of_cons h
    -- what is left of `rest` once the other glyphs are cut off
    have hle := Utf8.head_le_length b rest
    have hsplit : rest = rest.take (Utf8.head b rest).2 ++ gs.flatMap Glyph.bytes ++
        hs.flatMap Glyph.bytes := by
      rw [List.append_assoc, ← List.flatMap_append]
      exact (hdrop ▸ List.take_append_drop _ rest).symm
    have hhead : Utf8.head b (rest.take (Utf8.head b rest).2 ++ gs.flatMap Glyph.bytes) =
        Utf8.head b rest := by
      rw [Utf8.head_of_append (hs.flatMap Glyph.bytes), ← hsplit]
      rw [← hsplit, List.length_append, List.length_take_of_le hle]
      exact Nat.le_add_right _ _
    have htext : (g :: gs).flatMap Glyph.bytes =
        b :: (rest.take (Utf8.head b rest).2 ++ gs.flatMap Glyph.bytes) := by
      rw [List.flatMap_cons, hg]
      rfl
    have hlength := List.length_take_of_le hle
    rw [Decoded, htext, Text.glyphs, hhead, List.take_left' hlength, List.drop_left' hlength, ← hg,
      ih hrest]

end Glyph.Decoded

/-! ## Line ends among the bytes -/

namespace Utf8

variable {b : UInt8}

theorem head_of_lt (h : b.toNat < 0x80) (rest : Text) : head b rest = (Char.ofNat b.toNat, 0) := by
  have hlead : b < 0x80 := UInt8.lt_iff_toNat_lt.2 h
  have hvalid : b.toNat.isValidChar := .inl (by omega)
  simp only [head, sequence?, hlead, if_true, hvalid]

/-- A character with more than one byte, or a byte that begins none, has nothing of a
shorter one. -/
theorem head_of_le (h : 0x80 ≤ b.toNat) (rest : Text) :
    0x80 ≤ (head b rest).1.toNat ∧ ∀ x ∈ rest.take (head b rest).2, 0x80 ≤ x.toNat := by
  have hstray : 0x80 ≤ replacement.toNat ∧ ∀ x ∈ rest.take 0, 0x80 ≤ x.toNat := by
    refine ⟨by decide, ?_⟩
    rw [List.take_zero]
    exact List.forall_mem_nil _
  unfold head
  split
  · rename_i n k hsequence
    split
    · rename_i hvalid
      dsimp only
      rw [toNat_ofNat_of_isValidChar hvalid]
      rcases of_sequence? hsequence with ⟨_, _, _⟩ | ⟨x, tail, rfl, _, _, _, hx, rfl⟩ |
          ⟨x, y, tail, rfl, _, _, _, hx, hy, rfl⟩ | ⟨x, y, z, tail, rfl, _, _, hx, hy, hz, rfl⟩
      · omega
      · simp [hx]
        omega
      · simp [hx, hy]
        omega
      · simp [hx, hy, hz]
        omega
    · exact hstray
  · exact hstray

end Utf8

/-- A line end that is the one byte 10, or a character without that byte. -/
def Glyph.IsClean (g : Glyph) : Prop := g.char = '\n' ∧ g.bytes = [10] ∨ g.char ≠ '\n' ∧ 10 ∉ g.bytes

namespace Text

theorem isClean_head (b : UInt8) (rest : Text) :
    Glyph.IsClean ⟨(Utf8.head b rest).1, b :: rest.take (Utf8.head b rest).2⟩ := by
  by_cases hlead : b.toNat < 0x80
  · rw [Utf8.head_of_lt hlead]
    by_cases hb : b = 10
    · left
      subst hb
      exact ⟨rfl, rfl⟩
    · right
      refine ⟨?_, fun h => hb (List.mem_singleton.1 h).symm⟩
      intro hchar
      have hvalid : b.toNat.isValidChar := .inl (by omega)
      have hcode := congrArg Char.toNat hchar
      rw [Utf8.toNat_ofNat_of_isValidChar hvalid] at hcode
      exact hb (UInt8.toNat_inj.1 hcode)
  · obtain ⟨hchar, hmore⟩ := Utf8.head_of_le (Nat.not_lt.1 hlead) rest
    right
    constructor
    · intro h
      rw [show (Utf8.head b rest).1 = '\n' from h] at hchar
      exact absurd hchar (by decide)
    · intro h
      rcases List.mem_cons.1 h with h | h
      · rw [← h] at hlead
        exact hlead (by decide)
      · exact absurd (hmore 10 h) (by decide)

theorem isClean_of_mem_glyphs {t : Text} {g : Glyph} (h : g ∈ t.glyphs) : g.IsClean := by
  induction t using glyphs.induct with
  | case1 =>
    rw [glyphs] at h
    cases h
  | case2 b rest ih =>
    rw [glyphs] at h
    rcases List.mem_cons.1 h with rfl | h
    · exact isClean_head b rest
    · exact ih h

/-- The part of a text behind its last line end. -/
def lastLine (t : Text) : Text := (t.reverse.takeWhile (· != 10)).reverse

theorem lastLine_append_newline (t : Text) : lastLine (t ++ [10]) = [] := by
  rw [lastLine, List.reverse_append]
  rfl

theorem lastLine_append (t : Text) {more : Text} (h : 10 ∉ more) :
    lastLine (t ++ more) = lastLine t ++ more := by
  have hkeep : ∀ b ∈ more.reverse, (b != 10) = true := by
    intro b hb
    rw [bne_iff_ne]
    rintro rfl
    exact h (List.mem_reverse.1 hb)
  rw [lastLine, List.reverse_append, List.takeWhile_append_of_pos hkeep, List.reverse_append,
    List.reverse_reverse, lastLine]

end Text

/-! ## Counting -/

/-- The place behind a text. -/
def Place.behind (before : Text) : Place where
  line := 1 + before.count 10
  column := 1 + before.lastLine.glyphs.length
  offset := before.length

/-- The glyphs behind the last line end. -/
def Glyph.lastLine (gs : List Glyph) : List Glyph := (gs.reverse.takeWhile (·.char != '\n')).reverse

namespace Glyph

variable {gs : List Glyph} {g : Glyph}

theorem lastLine_append_newline (gs : List Glyph) (hg : g.char = '\n') : lastLine (gs ++ [g]) = [] := by
  rw [lastLine, List.reverse_append, List.reverse_singleton, List.singleton_append,
    List.takeWhile_cons_of_neg (by rw [hg]; decide)]
  rfl

theorem lastLine_append (gs : List Glyph) (hg : g.char ≠ '\n') :
    lastLine (gs ++ [g]) = lastLine gs ++ [g] := by
  rw [lastLine, List.reverse_append, List.reverse_singleton, List.singleton_append,
    List.takeWhile_cons_of_pos (by rw [bne_iff_ne]; exact hg), List.reverse_cons, lastLine]

theorem flatMap_lastLine (h : ∀ g ∈ gs, g.IsClean) :
    (lastLine gs).flatMap bytes = Text.lastLine (gs.flatMap bytes) := by
  induction gs using List.reverseRecOn with
  | nil => rfl
  | append_singleton gs g ih =>
    obtain ⟨hgs, hg⟩ := List.forall_mem_append.1 h
    rw [List.flatMap_append, List.flatMap_singleton]
    rcases hg g List.mem_cons_self with ⟨hchar, hbytes⟩ | ⟨hchar, hbytes⟩
    · rw [lastLine_append_newline gs hchar, hbytes, Text.lastLine_append_newline]
      rfl
    · rw [lastLine_append gs hchar, Text.lastLine_append _ hbytes, List.flatMap_append, ih hgs,
        List.flatMap_singleton]

theorem lastLine_suffix (gs : List Glyph) : lastLine gs <:+ gs := by
  rw [← List.reverse_prefix, lastLine, List.reverse_reverse]
  exact List.takeWhile_prefix _

end Glyph

namespace Place

variable {gs : List Glyph}

/-- Walking over glyphs counts lines by their line ends and columns by glyphs. -/
theorem past_eq_of_isClean (h : ∀ g ∈ gs, g.IsClean) : Place.past {} gs =
    ⟨1 + (gs.flatMap Glyph.bytes).count 10, 1 + (Glyph.lastLine gs).length,
      (gs.flatMap Glyph.bytes).length⟩ := by
  induction gs using List.reverseRecOn with
  | nil => rfl
  | append_singleton gs g ih =>
    obtain ⟨hgs, hg⟩ := List.forall_mem_append.1 h
    rw [past_append, ih hgs, List.flatMap_append, List.flatMap_singleton, List.count_append,
      List.length_append]
    rcases hg g List.mem_cons_self with ⟨hchar, hbytes⟩ | ⟨hchar, hbytes⟩
    · rw [Glyph.lastLine_append_newline gs hchar, hbytes]
      simp only [past, List.foldl_cons, List.foldl_nil, step, hchar, if_true, hbytes]
      rfl
    · rw [Glyph.lastLine_append gs hchar, List.count_eq_zero.2 hbytes]
      simp only [past, List.foldl_cons, List.foldl_nil, step, hchar, if_false, List.length_append]
      rfl

/-- A place is what the bytes before it are counted as. -/
theorem past_eq_behind (h : Glyph.Decoded gs) :
    Place.past {} gs = Place.behind (gs.flatMap Glyph.bytes) := by
  have hclean : ∀ g ∈ gs, g.IsClean := by
    intro g hg
    rw [← h] at hg
    exact Text.isClean_of_mem_glyphs hg
  obtain ⟨before, hbefore⟩ := Glyph.lastLine_suffix gs
  have hlast : Glyph.Decoded (Glyph.lastLine gs) := by
    rw [← hbefore] at h
    exact h.right
  rw [past_eq_of_isClean hclean, behind, ← Glyph.flatMap_lastLine hclean, hlast]

end Place

end CellAsm
