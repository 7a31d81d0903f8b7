-- SUMMARY: The lexer covers a text once, from its first byte to its last.
import CellAsm.Proofs.Places
import Mathlib.Data.Nat.Find
import Mathlib.Logic.Function.Iterate
import Mathlib.Order.Basic

/-!
# Covering a text

A text is scanned by call after call, each of which goes on where the one before it
stopped, also behind an error. A cursor stands between two glyphs of the text and knows
its place; every call keeps it so. What a call passes over in front of its token are
blanks and a comment, and most tokens hold exactly the bytes that are taken for them.

The lexer looks for the character that starts a comment and finds NUL where a table has
none. A NUL in a text then starts a comment, although the table gives it no role.
-/
namespace CellAsm

/-! ## Cursors on a text -/

namespace Cursor

/-- The cursor stands in the text, behind the glyphs that are not left. -/
def On (src : Text) (c : Cursor) : Prop :=
  ∃ gs, src.glyphs = gs ++ c.rest ∧ c.place = Place.past {} gs

theorem on_ofText (src : Text) : On src (ofText src) := ⟨[], rfl, rfl⟩

namespace On

variable {src : Text} {c : Cursor}

theorem skip (h : On src c) (n : Nat) : On src (c.skip n) := by
  obtain ⟨gs, hsrc, hplace⟩ := h
  refine ⟨gs ++ c.rest.take n, ?_, ?_⟩
  · rw [hsrc, List.append_assoc]
    exact congrArg (gs ++ ·) (List.take_append_drop n c.rest).symm
  · rw [Place.past_append, ← hplace]
    rfl

theorem mem_glyphs (h : On src c) : ∀ g ∈ c.rest, g ∈ src.glyphs := by
  intro g hg
  obtain ⟨gs, hsrc, _⟩ := h
  rw [hsrc]
  exact List.mem_append_right gs hg

/-- The bytes on both sides of a cursor, and its place as a count of those before it. -/
theorem split (h : On src c) : ∃ before, src = before ++ c.rest.flatMap Glyph.bytes ∧
    c.place.offset = before.length ∧ c.place = Place.behind before ∧ Glyph.Decoded c.rest := by
  obtain ⟨gs, hsrc, hplace⟩ := h
  have hdecoded : Glyph.Decoded (gs ++ c.rest) := by
    rw [← hsrc]
    exact .glyphs src
  rw [Place.past_eq_behind hdecoded.left] at hplace
  refine ⟨gs.flatMap Glyph.bytes, ?_, ?_, hplace, hdecoded.right⟩
  · rw [← List.flatMap_append, ← hsrc, Text.flatMap_bytes_glyphs]
  · rw [hplace]
    rfl

theorem place_eq (h : On src c) : c.place = Place.behind (src.take c.place.offset) := by
  obtain ⟨before, hsrc, hoffset, hplace, _⟩ := h.split
  rw [hoffset, hsrc, List.take_left]
  exact hplace

theorem offset_le (h : On src c) : c.place.offset ≤ src.length := by
  obtain ⟨before, hsrc, hoffset, _⟩ := h.split
  rw [hoffset, hsrc, List.length_append]
  exact Nat.le_add_right _ _

/-- The bytes between a cursor and another one further on. -/
theorem extract_skip (h : On src c) (n : Nat) :
    src.extract c.place.offset (c.skip n).place.offset = (c.rest.take n).flatMap Glyph.bytes := by
  obtain ⟨before, hsrc, hoffset, _⟩ := h.split
  have hend : (c.skip n).place.offset = c.place.offset + _ := c.place.offset_past (c.rest.take n)
  rw [List.extract_eq_take_drop, hend, Nat.add_sub_cancel_left, hoffset, hsrc, List.drop_left]
  nth_rewrite 2 [← List.take_append_drop n c.rest]
  rw [List.flatMap_append, List.take_left]

end On

end Cursor

theorem Text.length_bytes_pos {t : Text} {g : Glyph} (h : g ∈ t.glyphs) : 0 < g.bytes.length := by
  induction t using glyphs.induct with
  | case1 =>
    rw [glyphs] at h
    cases h
  | case2 b rest ih =>
    rw [glyphs] at h
    rcases List.mem_cons.1 h with rfl | h
    · exact Nat.zero_lt_succ _
    · exact ih h

theorem Text.length_glyphs_le (t : Text) : t.glyphs.length ≤ t.length := by
  fun_induction glyphs t with
  | case1 => exact Nat.le_refl _
  | case2 b rest ih =>
    rw [List.length_drop] at ih
    rw [List.length_cons, List.length_cons]
    omega

/-! ## What stands in front of a token -/

/-- The character starts a comment: it has that role, or it is NUL and none has. -/
def Punctuation.StartsComment (p : Punctuation) (c : Char) : Prop :=
  c ∈ charset ∧ p.find? c = some .comment ∨
    c = '\x00' ∧ ∀ d ∈ charset, p.find? d ≠ some .comment

theorem Punctuation.startsComment_char (p : Punctuation) : p.StartsComment (p.char .comment) := by
  have hrole (c : Char) : ((p.find? c).getD .symbol == .comment) = true ↔
      p.find? c = some .comment := by
    rw [beq_iff_eq]
    cases p.find? c with
    | none => exact ⟨nofun, nofun⟩
    | some r => exact ⟨congrArg some, Option.some.inj⟩
  unfold char
  cases hfind : charset.find? fun c => (p.find? c).getD .symbol == .comment with
  | some c =>
    left
    have hc := List.find?_some hfind
    exact ⟨List.mem_of_find?_eq_some hfind, (hrole c).1 hc⟩
  | none =>
    right
    refine ⟨rfl, ?_⟩
    intro d hd hcomment
    exact List.find?_eq_none.1 hfind d hd ((hrole d).2 hcomment)

/-- Blanks in front of a token of the given kind, and behind them perhaps a comment that
runs to the end of its line. -/
inductive Punctuation.Gap (p : Punctuation) (k : TokenKind) : List Char → Prop
  | blanks {cs : List Char} (hblank : ∀ c ∈ cs, isSeparator c) : Gap p k cs
  | comment {cs body : List Char} {c : Char} (hblank : ∀ c ∈ cs, isSeparator c)
      (hmarker : p.StartsComment c) (hbody : '\n' ∉ body) (hend : k = .eol ∨ k = .eof) :
      Gap p k (cs ++ c :: body)

namespace Lexicon

variable (lx : Lexicon)

/-- A comment ends in front of the next line end. -/
theorem of_separation_true (gs : List Glyph) :
    (∀ g ∈ gs.take (lx.separation true gs), g.char ≠ '\n') ∧
    ∀ g ∈ (gs.drop (lx.separation true gs)).head?, g.char = '\n' := by
  induction gs with
  | nil =>
    refine ⟨List.forall_mem_nil _, ?_⟩
    rintro g ⟨⟩
  | cons g gs ih =>
    unfold separation
    by_cases hg : g.char = '\n'
    · rw [if_pos hg]
      refine ⟨List.forall_mem_nil _, ?_⟩
      rintro h ⟨rfl⟩
      exact hg
    · rw [if_neg hg, Bool.true_or, if_pos rfl, Nat.add_comm, List.take_succ_cons,
        List.drop_succ_cons]
      exact ⟨List.forall_mem_cons.2 ⟨hg, ih.1⟩, ih.2⟩

/-- What is passed over are separators, and behind them perhaps a comment. -/
theorem of_separation (gs : List Glyph) :
    (∀ g ∈ gs.take (lx.separation false gs), isSeparator g.char) ∨
    ∃ blanks marker body, gs.take (lx.separation false gs) = blanks ++ marker :: body ∧
      (∀ g ∈ blanks, isSeparator g.char) ∧ marker.char = lx.comment ∧
      (∀ g ∈ body, g.char ≠ '\n') ∧
      ∀ g ∈ (gs.drop (lx.separation false gs)).head?, g.char = '\n' := by
  induction gs with
  | nil => exact .inl (List.forall_mem_nil _)
  | cons g gs ih =>
    unfold separation
    by_cases hnewline : g.char = '\n'
    · rw [if_pos hnewline]
      exact .inl (List.forall_mem_nil _)
    rw [if_neg hnewline, Bool.false_or]
    by_cases hblank : isSeparator g.char
    · rw [if_pos hblank, Nat.add_comm, List.take_succ_cons, List.drop_succ_cons]
      rcases ih with hblanks | ⟨blanks, marker, body, htake, hblanks, hcomment⟩
      · exact .inl (List.forall_mem_cons.2 ⟨hblank, hblanks⟩)
      · right
        refine ⟨g :: blanks, marker, body, ?_, List.forall_mem_cons.2 ⟨hblank, hblanks⟩, hcomment⟩
        rw [htake, List.cons_append]
    rw [if_neg hblank]
    by_cases hmarker : g.char = lx.comment
    · rw [if_pos hmarker, Nat.add_comm, List.take_succ_cons, List.drop_succ_cons]
      exact .inr ⟨[], g, _, rfl, List.forall_mem_nil _, hmarker, lx.of_separation_true gs⟩
    · rw [if_neg hmarker]
      exact .inl (List.forall_mem_nil _)

end Lexicon

/-! ## Contents -/

/-- The lexeme starts with its first glyph and holds the bytes of all its glyphs. -/
def Lexeme.IsExact (gs : List Glyph) (x : Lexeme) : Prop :=
  x.lead = 0 ∧ x.contents = (gs.take x.taken).flatMap Glyph.bytes

namespace Lexicon

variable {lx : Lexicon} {g : Glyph} {rest : List Glyph}

theorem take_length_word (gs : List Glyph) : gs.take (lx.word gs).length = lx.word gs :=
  (List.prefix_iff_eq_take.1 (List.takeWhile_prefix _)).symm

theorem take_word (g : Glyph) (rest : List Glyph) :
    (g :: rest).take (1 + (lx.word rest).length) = g :: lx.word rest := by
  rw [Nat.add_comm, List.take_succ_cons, take_length_word]

theorem stringLexeme_kind_or (rest : List Glyph) :
    (stringLexeme rest).kind = .string ∨ (stringLexeme rest).kind = .illegal := by
  unfold stringLexeme
  dsimp only
  split
  · exact .inl rfl
  · exact .inl rfl
  · exact .inr rfl

theorem directiveLexeme_isExact (hbytes : g.bytes = Text.ofChar lx.pseudo) :
    (lx.directiveLexeme rest).IsExact (g :: rest) := by
  unfold directiveLexeme
  dsimp only
  split
  · refine ⟨rfl, ?_⟩
    dsimp only
    rw [take_word, List.flatMap_cons, hbytes]
  · refine ⟨rfl, ?_⟩
    dsimp only
    rw [take_word, List.flatMap_cons, hbytes]

theorem numberLexeme_isExact : (lx.numberLexeme g rest).IsExact (g :: rest) := by
  refine ⟨rfl, ?_⟩
  unfold numberLexeme
  dsimp only
  rw [take_word, List.flatMap_cons]

theorem nameLexeme_isExact (hbytes : ∀ h ∈ rest, h.char = lx.label → h.bytes = Text.ofChar h.char) :
    (lx.nameLexeme g rest).IsExact (g :: rest) := by
  unfold nameLexeme
  dsimp only
  split
  · rename_i hlabel
    refine ⟨rfl, ?_⟩
    -- the label character is the first glyph behind the name
    obtain ⟨colon, hcolon, hchar⟩ := Option.map_eq_some_iff.1 hlabel.2
    rw [List.head?_drop] at hcolon
    have hcolonBytes := hbytes colon (List.mem_of_getElem? hcolon) hchar
    dsimp only
    rw [List.length_cons, List.take_succ_cons, List.take_add_one, hcolon, take_length_word,
      ← List.cons_append, List.flatMap_append, Option.toList_some, List.flatMap_singleton,
      hcolonBytes, hchar]
  · refine ⟨rfl, ?_⟩
    dsimp only
    rw [List.length_cons, Nat.add_comm, take_word]

/-- A token that is neither a string nor illegal holds the bytes that are taken for it. -/
theorem lexeme_isExact
    (hbytes : ∀ h ∈ g :: rest, h.char ≠ Utf8.replacement → h.bytes = Text.ofChar h.char)
    (hpseudo : lx.pseudo ≠ Utf8.replacement) (hlabel : lx.label ≠ Utf8.replacement) :
    (lx.lexeme g rest).kind ≠ .string → (lx.lexeme g rest).kind ≠ .illegal →
      (lx.lexeme g rest).IsExact (g :: rest) := by
  have hfirst := hbytes g List.mem_cons_self
  apply lx.lexeme_cases (P := fun x => x.kind ≠ .string → x.kind ≠ .illegal → x.IsExact (g :: rest))
  · intro k hsolitary _ _
    have hchar : g.char ≠ Utf8.replacement := by
      intro hchar
      rw [hchar] at hsolitary
      cases hsolitary
    refine ⟨rfl, ?_⟩
    dsimp only
    rw [← hfirst hchar]
    exact (List.flatMap_singleton ..).symm
  · intro _ hstring hillegal
    exact ((stringLexeme_kind_or rest).elim hstring hillegal).elim
  · intro hchar _ _
    apply directiveLexeme_isExact
    rw [← hchar]
    exact hfirst (hchar ▸ hpseudo)
  · intro _ _
    exact numberLexeme_isExact
  · intro _ _
    apply nameLexeme_isExact
    intro h hh hchar
    exact hbytes h (List.mem_cons_of_mem g hh) (hchar ▸ hlabel)
  · intro _ hillegal
    exact absurd rfl hillegal

end Lexicon

/-! ## Calls -/

namespace Lexicon

variable (lx : Lexicon) (file src : Text)

/-- The cursor after a number of calls. -/
def cursorAfter (n : Nat) : Cursor := (fun c => (lx.next file c).next)^[n] (.ofText src)

/-- What the call behind `n` others gives. -/
def call (n : Nat) : Scan := lx.next file (lx.cursorAfter file src n)

/-- The number of bytes that a number of calls take together. -/
def reached (n : Nat) : Nat := (lx.cursorAfter file src n).place.offset

theorem cursorAfter_succ (n : Nat) :
    lx.cursorAfter file src (n + 1) = (lx.call file src n).next :=
  Function.iterate_succ_apply' ..

/-- The cursor behind blanks and comments. -/
def front (c : Cursor) : Cursor := c.skip (lx.separation false c.rest)

variable {lx file src} {c : Cursor}

theorem next_of_nil (h : (lx.front c).rest = []) :
    lx.next file c = ⟨⟨.eof, [], (lx.front c).place.position file, true⟩, none, lx.front c⟩ := by
  unfold front at h ⊢
  simp only [next, h]

theorem next_of_cons {g : Glyph} {rest : List Glyph} (h : (lx.front c).rest = g :: rest) :
    lx.next file c =
      ⟨⟨(lx.lexeme g rest).kind, (lx.lexeme g rest).contents,
        ((lx.front c).skip (lx.lexeme g rest).lead).place.position file, (lx.lexeme g rest).legal⟩,
        (lx.lexeme g rest).cause, (lx.front c).skip (lx.lexeme g rest).taken⟩ := by
  unfold front at h ⊢
  simp only [next, h]

/-- Every token is located at a cursor on the text, and scanning goes on at another. -/
theorem on_next (lx : Lexicon) (file : Text) (h : c.On src) : (lx.next file c).next.On src ∧
    ∃ d : Cursor, d.On src ∧ (lx.next file c).token.position = d.place.position file := by
  have hfront : (lx.front c).On src := h.skip _
  cases hrest : (lx.front c).rest with
  | nil =>
    rw [next_of_nil hrest]
    exact ⟨hfront, lx.front c, hfront, rfl⟩
  | cons g rest =>
    rw [next_of_cons hrest]
    exact ⟨hfront.skip _, _, hfront.skip _, rfl⟩

theorem on_cursorAfter (lx : Lexicon) (file src : Text) (n : Nat) :
    (lx.cursorAfter file src n).On src := by
  induction n with
  | zero => exact Cursor.on_ofText src
  | succ n ih =>
    rw [cursorAfter_succ]
    exact (lx.on_next file ih).1

end Lexicon

namespace Scanner

variable {lx : Lexicon} {file src : Text} {c : Cursor}

theorem within_of_on (lx : Lexicon) (file : Text) (hc : c.On src) :
    Within ⟨lx, file, src, c.place⟩ :=
  hc.offset_le

/-- A scanner at the place of a cursor has the same glyphs left. -/
theorem cursor_of_on (lx : Lexicon) (file : Text) (hc : c.On src) :
    cursor ⟨lx, file, src, c.place⟩ = c := by
  obtain ⟨before, rfl, hoffset, _, hdecoded⟩ := hc.split
  rw [cursor]
  dsimp only
  rw [hoffset, List.drop_left, hdecoded]

theorem next_of_on (lx : Lexicon) (file : Text) (hc : c.On src) :
    next ⟨lx, file, src, c.place⟩ =
      .ok ((lx.next file c).lexed, ⟨lx, file, src, (lx.next file c).next.place⟩) := by
  rw [next_eq_lexed (within_of_on lx file hc), cursor_of_on lx file hc]

theorem skipBlanks_of_on (lx : Lexicon) (file : Text) (hc : c.On src) :
    skipBlanks ⟨lx, file, src, c.place⟩ = .ok ⟨lx, file, src, (lx.front c).place⟩ := by
  rw [skipBlanks_eq (within_of_on lx file hc), skip, cursor_of_on lx file hc]
  rfl

/-- The scanner after a number of calls. -/
def after (s : Scanner) : Nat → Except Fault Scanner
  | 0 => .ok s
  | n + 1 => do
    let t ← s.after n
    return (← t.next).2

/-- The call behind `n` others gives `x` and takes the bytes from `a` up to `b`. -/
def Calls (s : Scanner) (n : Nat) (x : Lexed) (a b : Nat) : Prop :=
  ∃ t u, s.after n = .ok t ∧ t.next = .ok (x, u) ∧ t.place.offset = a ∧ u.place.offset = b

theorem after_ofText (lx : Lexicon) (file src : Text) (n : Nat) :
    (ofText lx file src).after n = .ok ⟨lx, file, src, (lx.cursorAfter file src n).place⟩ := by
  induction n with
  | zero => rfl
  | succ n ih =>
    rw [after, ih, ok_bind, next_of_on lx file (lx.on_cursorAfter file src n),
      Lexicon.cursorAfter_succ]
    rfl

theorem calls_ofText (lx : Lexicon) (file src : Text) (n : Nat) :
    (ofText lx file src).Calls n (lx.call file src n).lexed (lx.reached file src n)
      (lx.reached file src (n + 1)) := by
  refine ⟨_, _, after_ofText lx file src n, next_of_on lx file (lx.on_cursorAfter file src n), rfl,
    ?_⟩
  rw [Lexicon.reached, Lexicon.cursorAfter_succ]
  rfl

theorem Calls.eq_call {n a b : Nat} {x : Lexed} (h : (ofText lx file src).Calls n x a b) :
    x = (lx.call file src n).lexed := by
  obtain ⟨t, u, hafter, hnext, _⟩ := h
  rw [after_ofText] at hafter
  cases hafter
  rw [next_of_on lx file (lx.on_cursorAfter file src n)] at hnext
  cases hnext
  rfl

end Scanner

namespace Lexicon

variable {lx : Lexicon} {file src : Text} {c : Cursor}

/-- Each call but the last takes at least one byte. -/
theorem offset_lt_of_next (h : c.On src) (hkind : (lx.next file c).token.kind ≠ .eof) :
    c.place.offset < (lx.next file c).next.place.offset := by
  have hfront : (lx.front c).On src := h.skip _
  have hgap : (lx.front c).place.offset = c.place.offset + _ := Place.offset_past ..
  cases hrest : (lx.front c).rest with
  | nil =>
    rw [next_of_nil hrest] at hkind
    exact absurd rfl hkind
  | cons g rest =>
    rw [next_of_cons hrest]
    have hlexeme : ((lx.front c).skip (lx.lexeme g rest).taken).place.offset =
        (lx.front c).place.offset + _ := Place.offset_past ..
    have hbytes := Text.length_bytes_pos (hfront.mem_glyphs g (hrest ▸ List.mem_cons_self))
    obtain ⟨n, hn⟩ := Nat.exists_eq_add_one.2 (lx.lexeme_taken g rest)
    rw [hn, hrest, List.take_succ_cons, List.flatMap_cons, List.length_append] at hlexeme
    dsimp only
    rw [hn]
    omega

/-- At the end, the same answer is given again. -/
theorem next_next_of_eof (h : (lx.next file c).token.kind = .eof) :
    lx.next file (lx.next file c).next = lx.next file c := by
  cases hrest : (lx.front c).rest with
  | nil =>
    have hstay : lx.front (lx.front c) = lx.front c := by
      rw [front, hrest]
      rfl
    rw [next_of_nil hrest]
    dsimp only
    rw [next_of_nil (by rw [hstay]; exact hrest), hstay]
  | cons g rest =>
    rw [next_of_cons hrest] at h
    exact absurd h (lx.lexeme_kind g rest)

theorem call_succ_of_eof {n : Nat} (h : (lx.call file src n).token.kind = .eof) :
    lx.call file src (n + 1) = lx.call file src n := by
  rw [call, cursorAfter_succ]
  exact next_next_of_eof h

theorem call_of_le {n m : Nat} (h : (lx.call file src n).token.kind = .eof) (hle : n ≤ m) :
    lx.call file src m = lx.call file src n := by
  induction hle with
  | refl => rfl
  | step _ ih =>
    rw [← ih] at h
    rw [call_succ_of_eof h, ih]

/-- As long as the end is not reached, each call takes something. -/
theorem length_cursorAfter {n : Nat} (h : ∀ m < n, (lx.call file src m).token.kind ≠ .eof) :
    (lx.cursorAfter file src n).rest.length + n ≤ src.length := by
  induction n with
  | zero => exact src.length_glyphs_le
  | succ n ih =>
    have hbefore := ih fun m hm => h m (Nat.lt_succ_of_lt hm)
    have hlast := next_length (h n (Nat.lt_succ_self n))
    rw [cursorAfter_succ]
    unfold call
    omega

/-- The end of a text is reached. -/
theorem exists_eof (lx : Lexicon) (file src : Text) :
    ∃ n ≤ src.length, (lx.call file src n).token.kind = .eof ∧
      ∀ m < n, (lx.call file src m).token.kind ≠ .eof := by
  have hexists : ∃ n, (lx.call file src n).token.kind = .eof := by
    by_contra hnever
    have hlength := length_cursorAfter (n := src.length + 1) fun m _ hm => hnever ⟨m, hm⟩
    omega
  refine ⟨Nat.find hexists, ?_, Nat.find_spec hexists, fun m hm => Nat.find_min hexists hm⟩
  have hlength := length_cursorAfter fun m hm => Nat.find_min hexists hm
  omega

/-- The end of the file is told behind the last byte. -/
theorem next_of_eof (hc : c.On src) (h : (lx.next file c).token.kind = .eof) :
    (lx.next file c).token = ⟨.eof, [], (Place.behind src).position file, true⟩ ∧
      (lx.next file c).cause = none := by
  have hfront : (lx.front c).On src := hc.skip _
  cases hrest : (lx.front c).rest with
  | nil =>
    obtain ⟨before, hsrc, _, hplace, _⟩ := hfront.split
    rw [hrest, List.flatMap_nil, List.append_nil] at hsrc
    rw [next_of_nil hrest, hplace, hsrc]
    exact ⟨rfl, rfl⟩
  | cons g rest =>
    rw [next_of_cons hrest] at h
    exact absurd h (lx.lexeme_kind g rest)

theorem marker_ne_replacement (p : Punctuation) (r : Role) : p.char r ≠ Utf8.replacement := by
  intro h
  rcases p.char_mem r with hmem | hnul
  · rw [h] at hmem
    exact absurd hmem (by decide +kernel)
  · rw [hnul] at h
    exact absurd h (by decide)

end Lexicon

/-- A call over a text from the byte `a` to the byte `b` that locates its token at `o`. -/
structure Punctuation.Takes (p : Punctuation) (file src : Text) (a o b : Nat) (x : Lexed) :
    Prop where
  position : x.token.position = (Place.behind (src.take o)).position file
  before : a ≤ o
  within : o ≤ src.length
  gap : x.cause = none → p.Gap x.token.kind (Text.chars (src.extract a o))
  contents : x.token.kind ∉ [.eof, .string, .illegal] →
    src.extract o b = x.token.contents ∧ b = o + x.token.contents.length

namespace Lexicon

variable {file src : Text} {c : Cursor} (p : Punctuation)

/-- What is passed over in front of the end of the text, or in front of a lexeme. -/
theorem gap_front (hc : c.On src) {k : TokenKind}
    (hk : (∀ g ∈ ((ofPunctuation p).front c).rest.head?, g.char = '\n') → k = .eol ∨ k = .eof) :
    p.Gap k (Text.chars (src.extract c.place.offset ((ofPunctuation p).front c).place.offset)) := by
  have hdecoded : Glyph.Decoded (c.rest.take ((ofPunctuation p).separation false c.rest)) := by
    obtain ⟨_, _, _, _, hrest⟩ := hc.split
    rw [← List.take_append_drop ((ofPunctuation p).separation false c.rest) c.rest] at hrest
    exact hrest.left
  have hchars : Text.chars (src.extract c.place.offset ((ofPunctuation p).front c).place.offset) =
      (c.rest.take ((ofPunctuation p).separation false c.rest)).map Glyph.char := by
    rw [front, hc.extract_skip, Text.chars, hdecoded]
  rw [hchars]
  rcases (ofPunctuation p).of_separation c.rest with
    hblanks | ⟨blanks, marker, body, htake, hblanks, hmarker, hbody, hend⟩
  · exact .blanks (List.forall_mem_map.2 hblanks)
  · rw [htake, List.map_append, List.map_cons]
    refine .comment (List.forall_mem_map.2 hblanks) ?_ ?_ (hk hend)
    · rw [hmarker]
      exact p.startsComment_char
    · intro hmem
      obtain ⟨g, hg, hchar⟩ := List.mem_map.1 hmem
      exact hbody g hg hchar

theorem takes_next (file : Text) (hc : c.On src) : ∃ o, p.Takes file src c.place.offset o
    ((ofPunctuation p).next file c).next.place.offset
    ((ofPunctuation p).next file c).lexed := by
  have hfront : ((ofPunctuation p).front c).On src := hc.skip _
  have hbefore : ((ofPunctuation p).front c).place.offset = c.place.offset + _ :=
    Place.offset_past ..
  cases hrest : ((ofPunctuation p).front c).rest with
  | nil =>
    rw [next_of_nil hrest]
    refine ⟨_, congrArg (·.position file) hfront.place_eq, by omega, hfront.offset_le, ?_, ?_⟩
    · intro _
      exact gap_front p hc fun _ => .inr rfl
    · intro hkind
      exact absurd List.mem_cons_self hkind
  | cons g rest =>
    rw [next_of_cons hrest]
    -- only an illegal escape is located behind the start of its lexeme
    have hlead : (((ofPunctuation p).front c).skip ((ofPunctuation p).lexeme g rest).lead).On src :=
      hfront.skip _
    have hlater : (((ofPunctuation p).front c).skip
        ((ofPunctuation p).lexeme g rest).lead).place.offset =
        ((ofPunctuation p).front c).place.offset + _ := Place.offset_past ..
    refine ⟨_, congrArg (·.position file) hlead.place_eq, by omega, hlead.offset_le, ?_, ?_⟩
    · intro hcause
      rw [(ofPunctuation p).lexeme_lead g rest hcause]
      refine gap_front p hc ?_
      intro hend
      have hnewline : g.char = '\n' := hend g (by rw [hrest]; rfl)
      left
      simp only [lexeme, hnewline, solitary?, Scan.lexed]
    · intro hkind
      simp only [List.mem_cons, List.not_mem_nil, or_false, not_or] at hkind
      have hbytes : ∀ h ∈ g :: rest, h.char ≠ Utf8.replacement → h.bytes = Text.ofChar h.char := by
        intro h hh hchar
        have hglyph := hfront.mem_glyphs h (hrest ▸ hh)
        exact congrArg Glyph.bytes (Text.eq_ofChar_of_mem_glyphs hglyph hchar)
      obtain ⟨hstart, hcontents⟩ := lexeme_isExact hbytes (marker_ne_replacement p .pseudo)
        (marker_ne_replacement p .label) hkind.2.1 hkind.2.2
      have hextract := hfront.extract_skip ((ofPunctuation p).lexeme g rest).taken
      have hend : (((ofPunctuation p).front c).skip
          ((ofPunctuation p).lexeme g rest).taken).place.offset =
          ((ofPunctuation p).front c).place.offset + _ := Place.offset_past ..
      rw [hrest, ← hcontents] at hextract hend
      rw [hstart]
      exact ⟨hextract, hend⟩

end Lexicon

/-- The calls over a text take it from its first byte to its last. -/
structure Punctuation.Covers (p : Punctuation) (file src : Text) : Prop where
  /-- The end is reached, each call before it takes at least one byte, and it stays. -/
  ends : ∃ n ≤ src.length,
    (∀ m < n, ∃ x a b, (Scanner.ofText (.ofPunctuation p) file src).Calls m x a b ∧
      x.token.kind ≠ .eof ∧ a < b) ∧
    ∀ m ≥ n, ∃ a b, (Scanner.ofText (.ofPunctuation p) file src).Calls m
      ⟨⟨.eof, [], (Place.behind src).position file, true⟩, none⟩ a b
  /-- Each call goes on where the one before it stopped. -/
  takes : ∀ n, ∃ x a o b, (Scanner.ofText (.ofPunctuation p) file src).Calls n x a b ∧
    p.Takes file src a o b x

/-- Every text is covered, whatever its bytes and the table are. -/
theorem Punctuation.covers (p : Punctuation) (file src : Text) : p.Covers file src where
  ends := by
    obtain ⟨n, hn, heof, hbefore⟩ := (Lexicon.ofPunctuation p).exists_eof file src
    refine ⟨n, hn, ?_, ?_⟩
    · intro m hm
      refine ⟨_, _, _, Scanner.calls_ofText _ file src m, hbefore m hm, ?_⟩
      rw [Lexicon.reached, Lexicon.reached, Lexicon.cursorAfter_succ]
      exact Lexicon.offset_lt_of_next (Lexicon.on_cursorAfter _ file src m) (hbefore m hm)
    · intro m hm
      have hcall := Scanner.calls_ofText (.ofPunctuation p) file src m
      obtain ⟨htoken, hcause⟩ := Lexicon.next_of_eof (Lexicon.on_cursorAfter _ file src n) heof
      rw [Lexicon.call_of_le heof hm, Scan.lexed, Lexicon.call, htoken, hcause] at hcall
      exact ⟨_, _, hcall⟩
  takes := by
    intro n
    obtain ⟨o, ho⟩ := Lexicon.takes_next p file (Lexicon.on_cursorAfter _ file src n)
    refine ⟨_, _, o, _, Scanner.calls_ofText _ file src n, ?_⟩
    rw [Lexicon.reached, Lexicon.reached, Lexicon.cursorAfter_succ]
    exact ho

/-- A table without a character that starts comments. -/
def Sample.bare : Punctuation := .ofList [(':', .label), ('.', .pseudo)]

/-- A NUL, a name and a line end. -/
def Sample.nulText : Text := [0, 32, 97, 10]

/-- Without a character for comments, a NUL hides the rest of its line: the first token is
the line end, and what is passed over is neither blank nor a comment of the table. -/
theorem Sample.bare_covers : bare.Covers "t" nulText ∧ (∀ c, bare.find? c ≠ some .comment) ∧
    (Scanner.ofText (.ofPunctuation bare) "t" nulText).Calls 0
      ⟨⟨.eol, [10], ⟨"t", 1, 4, 3⟩, true⟩, none⟩ 0 4 ∧
    Text.chars (nulText.extract 0 3) = ['\x00', ' ', 'a'] := by
  refine ⟨Punctuation.covers bare "t" nulText, ?_, ?_, by decide +kernel⟩
  · intro c hc
    have hmem : (c, Role.comment) ∈ [(':', Role.label), ('.', Role.pseudo)] := mem_of_lookup hc
    simp at hmem
  · have hcall := Scanner.calls_ofText (.ofPunctuation bare) "t" nulText 0
    have hevaluated : ((Lexicon.ofPunctuation bare).call "t" nulText 0).lexed =
          ⟨⟨.eol, [10], ⟨"t", 1, 4, 3⟩, true⟩, none⟩ ∧
        (Lexicon.ofPunctuation bare).reached "t" nulText 0 = 0 ∧
        (Lexicon.ofPunctuation bare).reached "t" nulText 1 = 4 := by decide +kernel
    rw [hevaluated.1, hevaluated.2.1, hevaluated.2.2] at hcall
    exact hcall

end CellAsm
