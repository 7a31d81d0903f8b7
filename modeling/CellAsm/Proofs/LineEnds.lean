-- SUMMARY: A line end separates what stands above it from what stands below it.
import CellAsm.Proofs.Punctuation
import CellAsm.Proofs.Scanning

/-!
# Line ends

No token reaches across the end of a line: a string has to be closed, a name, a number
and a comment stop in front of it, and no character has bytes on both sides. So the
lines of one text above another are the lines of the first and then those of the
second. Only a lexical error in the first ends the lines before.
-/
namespace CellAsm

/-- One text above another, with a line end between them. -/
def Text.above (upper lower : Text) : Text := upper ++ (Text.ofChar '\n' ++ lower)

/-! ## Characters -/

namespace Utf8

/-- A sequence does not reach a byte that can not continue one. -/
theorem sequence?_append_cons {stop : UInt8} (hstop : payload? stop = none) (b : UInt8)
    (upper lower : Text) : sequence? b (upper ++ stop :: lower) = sequence? b upper := by
  unfold sequence?
  split
  · rfl
  · split
    · rfl
    · split
      · cases upper with
        | nil => simp [hstop]
        | cons x upper => rfl
      · split
        · rcases upper with _ | ⟨x, _ | ⟨y, upper⟩⟩
          · cases lower with
            | nil => rfl
            | cons y lower => simp [hstop]
          · simp [hstop]
          · rfl
        · split
          · rcases upper with _ | ⟨x, _ | ⟨y, _ | ⟨z, upper⟩⟩⟩
            · rcases lower with _ | ⟨y, _ | ⟨z, lower⟩⟩
              · rfl
              · rfl
              · simp [hstop]
            · cases lower with
              | nil => rfl
              | cons z lower => simp [hstop]
            · simp [hstop]
            · rfl
          · rfl

theorem head_le_length (b : UInt8) (rest : Text) : (head b rest).2 ≤ rest.length := by
  unfold head
  split
  · rename_i n k hsequence
    split
    · exact le_length_of_sequence? hsequence
    · exact Nat.zero_le _
  · exact Nat.zero_le _

end Utf8

/-- An ASCII character separates the characters in front of it from those behind it. -/
theorem Text.glyphs_append_cons {c : UInt8} (hc : c.toNat < 0x80) (upper lower : Text) :
    glyphs (upper ++ c :: lower) = upper.glyphs ++ Glyph.ofAscii c :: lower.glyphs := by
  have hstop : Utf8.payload? c = none := by
    rw [Utf8.payload?, if_neg]
    simp only [UInt8.le_iff_toNat_le, UInt8.reduceToNat]
    omega
  fun_induction glyphs upper with
  | case1 => exact glyphs_cons_ascii hc lower
  | case2 b rest ih =>
    have hhead : Utf8.head b (rest ++ c :: lower) = Utf8.head b rest := by
      rw [Utf8.head, Utf8.head, Utf8.sequence?_append_cons hstop]
    have hle := Utf8.head_le_length b rest
    rw [List.cons_append, glyphs, hhead, List.cons_append, ← ih,
      List.take_append_of_le_length hle, List.drop_append_of_le_length hle]

theorem Text.glyphs_above (upper lower : Text) :
    (upper.above lower).glyphs = upper.glyphs ++ Glyph.ofChar '\n' :: lower.glyphs :=
  glyphs_append_cons (by decide) upper lower

/-! ## Lexemes -/

/-- The glyphs of a line end and of what stands below it. -/
def Glyph.below (lower : List Glyph) : List Glyph := Glyph.ofChar '\n' :: lower

open Glyph (below)

theorem Cursor.ofText_above (upper lower : Text) :
    Cursor.ofText (upper.above lower) = ⟨{}, upper.glyphs ++ below lower.glyphs⟩ := by
  rw [ofText, Text.glyphs_above]
  rfl

theorem stringBody_below (lower : List Glyph) : stringBody (below lower) = ⟨[], 1, .unterminated⟩ := by
  cases lower <;> rfl

theorem StringBody.cons_eq_or {b b' : StringBody} (c : Char) (n : Nat)
    (h : b' = b ∨ b.ending ≠ .closed ∧ b'.ending ≠ .closed) :
    b'.cons c n = b.cons c n ∨ (b.cons c n).ending ≠ .closed ∧ (b'.cons c n).ending ≠ .closed := by
  rcases h with rfl | h
  · exact .inl rfl
  · exact .inr h

/-- A string is closed on its own line or not at all. -/
theorem stringBody_append (upper lower : List Glyph) :
    stringBody (upper ++ below lower) = stringBody upper ∨
    (stringBody upper).ending ≠ .closed ∧ (stringBody (upper ++ below lower)).ending ≠ .closed := by
  fun_induction stringBody upper with
  | case1 =>
    rw [List.nil_append, stringBody_below]
    exact .inr ⟨by simp, by simp⟩
  | case2 g hnewline =>
    rw [List.singleton_append, below, stringBody, if_pos hnewline]
    exact .inl rfl
  | case3 g hnewline hquote =>
    rw [List.singleton_append, below, stringBody, if_neg hnewline, if_pos hquote]
    exact .inl rfl
  | case4 g hnewline hquote hescape =>
    rw [List.singleton_append, below, stringBody, if_neg hnewline, if_neg hquote, if_pos hescape]
    exact .inr ⟨by simp, by rintro ⟨⟩⟩
  | case5 g hnewline hquote hescape ih =>
    have hbody : stringBody ([g] ++ below lower) = (stringBody (below lower)).cons g.char 1 := by
      rw [List.singleton_append, below, stringBody, if_neg hnewline, if_neg hquote, if_neg hescape]
    rw [hbody]
    exact StringBody.cons_eq_or g.char 1 ih
  | case6 g e rest hnewline =>
    rw [List.cons_append, List.cons_append, stringBody, if_pos hnewline]
    exact .inl rfl
  | case7 g e rest hnewline hquote =>
    rw [List.cons_append, List.cons_append, stringBody, if_neg hnewline, if_pos hquote]
    exact .inl rfl
  | case8 g e rest hnewline hquote hescape c hc ih =>
    rw [List.cons_append, List.cons_append, stringBody, if_neg hnewline, if_neg hquote,
      if_pos hescape, hc]
    exact StringBody.cons_eq_or c 2 ih
  | case9 g e rest hnewline hquote hescape hnone =>
    rw [List.cons_append, List.cons_append, stringBody, if_neg hnewline, if_neg hquote,
      if_pos hescape, hnone]
    exact .inl rfl
  | case10 g e rest hnewline hquote hescape ih =>
    rw [List.cons_append, List.cons_append, stringBody, if_neg hnewline, if_neg hquote,
      if_neg hescape]
    exact StringBody.cons_eq_or g.char 1 ih

theorem stringBody_taken_le (gs : List Glyph) : (stringBody gs).taken ≤ gs.length := by
  fun_induction stringBody gs with
  | case1 => exact Nat.le_refl _
  | case2 => exact Nat.le_refl _
  | case3 => exact Nat.le_refl _
  | case4 => exact Nat.le_refl _
  | case5 => exact Nat.le_refl _
  | case6 => simp
  | case7 => simp
  | case8 g e rest _ _ _ c _ ih =>
    simp only [StringBody.cons, List.length_cons]
    omega
  | case9 => simp
  | case10 g e rest _ _ _ ih =>
    simp only [StringBody.cons, List.length_cons] at ih ⊢
    omega

/-- Two lexemes that are equal, or both errors. -/
def Lexeme.Agrees (x y : Lexeme) : Prop := y = x ∨ x.cause.isSome ∧ y.cause.isSome

theorem stringLexeme_append (upper lower : List Glyph) :
    (stringLexeme upper).Agrees (stringLexeme (upper ++ below lower)) := by
  unfold stringLexeme
  rcases stringBody_append upper lower with h | ⟨hupper, hboth⟩
  · rw [h]
    exact .inl rfl
  · right
    generalize stringBody upper = body at hupper
    generalize stringBody (upper ++ below lower) = body' at hboth
    constructor
    · dsimp only
      split
      · rename_i hclosed
        exact absurd hclosed hupper
      · rfl
      · rfl
    · dsimp only
      split
      · rename_i hclosed
        exact absurd hclosed hboth
      · rfl
      · rfl

namespace Lexicon

variable (lx : Lexicon)

theorem isNameChar_newline : lx.isNameChar '\n' = false := by
  rw [← Bool.not_eq_true]
  intro h
  have hblank : isBlank '\n' = true := by decide +kernel
  rw [isBlank_of_isNameChar h] at hblank
  cases hblank

theorem word_append (upper lower : List Glyph) : lx.word (upper ++ below lower) = lx.word upper := by
  have hstop : (below lower).takeWhile (fun g => lx.isNameChar g.char) = [] := by
    apply List.takeWhile_cons_of_neg
    rw [Bool.not_eq_true]
    exact lx.isNameChar_newline
  unfold word
  induction upper with
  | nil => exact hstop
  | cons g upper ih => rw [List.cons_append, List.takeWhile_cons, List.takeWhile_cons, ih]

theorem length_word_le (gs : List Glyph) : (lx.word gs).length ≤ gs.length :=
  (List.takeWhile_sublist _).length_le

theorem separation_append (inComment : Bool) (upper lower : List Glyph) :
    lx.separation inComment (upper ++ below lower) = lx.separation inComment upper := by
  induction upper generalizing inComment with
  | nil => rfl
  | cons g upper ih =>
    rw [List.cons_append, separation, separation, ih, ih]

theorem separation_le (inComment : Bool) (gs : List Glyph) :
    lx.separation inComment gs ≤ gs.length := by
  induction gs generalizing inComment with
  | nil => exact Nat.le_refl _
  | cons g gs ih =>
    have hsame := ih inComment
    have hcomment := ih true
    unfold separation
    rw [List.length_cons]
    split
    · omega
    · split
      · omega
      · split
        · omega
        · omega

theorem directiveLexeme_append (upper lower : List Glyph) :
    lx.directiveLexeme (upper ++ below lower) = lx.directiveLexeme upper := by
  simp only [directiveLexeme, word_append]

theorem numberLexeme_append (g : Glyph) (upper lower : List Glyph) :
    lx.numberLexeme g (upper ++ below lower) = lx.numberLexeme g upper := by
  simp only [numberLexeme, word_append]

theorem label_ne_newline (p : Punctuation) : (ofPunctuation p).label ≠ '\n' := by
  have hlabel : (ofPunctuation p).label = p.char .label := rfl
  rw [hlabel]
  rcases p.char_mem .label with hmem | hnul
  · intro h
    rw [h] at hmem
    exact absurd hmem (by decide +kernel)
  · rw [hnul]
    decide

theorem nameLexeme_append (hlabel : lx.label ≠ '\n') (g : Glyph) (upper lower : List Glyph) :
    lx.nameLexeme g (upper ++ below lower) = lx.nameLexeme g upper := by
  have hlength := lx.length_word_le upper
  have hafter : (((upper ++ below lower).drop (lx.word upper).length).head?.map Glyph.char =
      some lx.label) ↔ ((upper.drop (lx.word upper).length).head?.map Glyph.char =
      some lx.label) := by
    rw [List.drop_append_of_le_length hlength]
    cases upper.drop (lx.word upper).length with
    | nil =>
      constructor
      · intro h
        exact absurd (Option.some.inj h).symm hlabel
      · nofun
    | cons => exact Iff.rfl
  simp only [nameLexeme, word_append, hafter]

/-- The lexeme at the front of a line ends on that line, or is an error. -/
theorem lexeme_append (hlabel : lx.label ≠ '\n') (g : Glyph) (upper lower : List Glyph) :
    (lx.lexeme g upper).Agrees (lx.lexeme g (upper ++ below lower)) := by
  have hletter : ((upper ++ below lower).head?.map Glyph.char).any isLetter =
      (upper.head?.map Glyph.char).any isLetter := by
    have hnewline : isLetter '\n' = false := by decide +kernel
    cases upper with
    | nil => exact hnewline
    | cons => rfl
  have hnumber : lx.startsNumber g.char ((upper ++ below lower).head?.map Glyph.char) =
      lx.startsNumber g.char (upper.head?.map Glyph.char) := by
    cases upper with
    | nil => rfl
    | cons => rfl
  unfold lexeme
  split
  · exact .inl rfl
  · simp only [hletter, hnumber, directiveLexeme_append, numberLexeme_append,
      lx.nameLexeme_append hlabel]
    split
    · exact stringLexeme_append upper lower
    · exact .inl rfl

/-- What holds of all forms of lexemes. -/
theorem lexeme_cases {P : Lexeme → Prop} {g : Glyph} {rest : List Glyph}
    (hsolitary : ∀ k, solitary? g.char = some k →
      P { kind := k, contents := Text.ofChar g.char, taken := 1 })
    (hstring : g.char = '\x22' → P (stringLexeme rest))
    (hdirective : g.char = lx.pseudo → P (lx.directiveLexeme rest))
    (hnumber : P (lx.numberLexeme g rest)) (hname : P (lx.nameLexeme g rest))
    (hillegal : P { kind := .illegal, contents := Text.ofChar g.char, taken := 1, legal := false }) :
    P (lx.lexeme g rest) := by
  unfold lexeme
  split
  · rename_i k hk
    exact hsolitary k hk
  · dsimp only
    split
    · rename_i hquote
      exact hstring hquote
    · split
      · rename_i hpseudo
        exact hdirective hpseudo.1
      · split
        · exact hnumber
        · split
          · exact hname
          · exact hillegal

/-- A lexeme that is no error is located at its first glyph. -/
theorem lexeme_lead (g : Glyph) (rest : List Glyph) :
    (lx.lexeme g rest).cause = none → (lx.lexeme g rest).lead = 0 := by
  apply lx.lexeme_cases (P := fun x => x.cause = none → x.lead = 0)
  · exact fun _ _ _ => rfl
  · intro _
    unfold stringLexeme
    dsimp only
    split
    · exact fun _ => rfl
    · exact fun _ => rfl
    · nofun
  · intro _
    unfold directiveLexeme
    dsimp only
    split
    · exact fun _ => rfl
    · nofun
  · exact fun _ => rfl
  · unfold nameLexeme
    dsimp only
    split
    · exact fun _ => rfl
    · exact fun _ => rfl
  · exact fun _ => rfl

/-- A lexeme takes no more than there is. -/
theorem lexeme_taken_le (g : Glyph) (rest : List Glyph) :
    (lx.lexeme g rest).taken ≤ rest.length + 1 := by
  have hword := lx.length_word_le rest
  apply lx.lexeme_cases (P := fun x => x.taken ≤ rest.length + 1)
  · intro _ _
    exact Nat.le_add_left 1 _
  · intro _
    have hbody := stringBody_taken_le rest
    unfold stringLexeme
    dsimp only
    split
    · dsimp only
      omega
    · dsimp only
      omega
    · dsimp only
      omega
  · intro _
    unfold directiveLexeme
    dsimp only
    split
    · dsimp only
      omega
    · dsimp only
      omega
  · unfold numberLexeme
    dsimp only
    omega
  · unfold nameLexeme
    dsimp only
    split
    · rename_i hlabel
      have hlt : (lx.word rest).length < rest.length := by
        by_contra hle
        rw [List.drop_of_length_le (Nat.not_lt.1 hle)] at hlabel
        cases hlabel.2
      simp only [List.length_cons]
      omega
    · simp only [List.length_cons]
      omega
  · exact Nat.le_add_left 1 _

end Lexicon

/-! ## Scans -/

theorem Cursor.skip_append {c : Cursor} {n : Nat} (h : n ≤ c.rest.length) (gs : List Glyph) :
    Cursor.skip ⟨c.place, c.rest ++ gs⟩ n = ⟨(c.skip n).place, (c.skip n).rest ++ gs⟩ := by
  simp only [skip, List.take_append_of_le_length h, List.drop_append_of_le_length h]

/-- Where the text ends does not depend on how much has been passed over. -/
theorem Cursor.past_skip (c : Cursor) (n : Nat) :
    (c.skip n).place.past (c.skip n).rest = c.place.past c.rest := by
  rw [skip, ← Place.past_append, List.take_append_drop]

namespace Lexicon

variable (lx : Lexicon)

/-- The end of the line that ends at `p`. -/
def lineEnd (file : Text) (p : Place) (lower : List Glyph) : Scan where
  token := ⟨.eol, Text.ofChar '\n', p.position file, true⟩
  cause := none
  next := ⟨p.step (Glyph.ofChar '\n'), lower⟩

/-- What becomes of a token `x` that is scanned at `c` when other lines stand below. At the
end of the text the line end takes its place, an error stays one, and any other token is
the same. -/
inductive Extends (file : Text) (c : Cursor) (lower : List Glyph) (x : Scan) : Scan → Prop
  | ended (hkind : x.token.kind = .eof) (hcause : x.cause = none) :
      Extends file c lower x (lineEnd file (c.place.past c.rest) lower)
  | failed {y : Scan} (hcause : x.cause.isSome) (hcause' : y.cause.isSome) :
      Extends file c lower x y
  | same (hkind : x.token.kind ≠ .eof) (hcause : x.cause = none)
      (hpast : x.next.place.past x.next.rest = c.place.past c.rest) :
      Extends file c lower x { x with next := ⟨x.next.place, x.next.rest ++ below lower⟩ }

theorem next_append (hlabel : lx.label ≠ '\n') (file : Text) (c : Cursor) (lower : List Glyph) :
    Extends file c lower (lx.next file c) (lx.next file ⟨c.place, c.rest ++ below lower⟩) := by
  have hle := lx.separation_le false c.rest
  have hpast := c.past_skip (lx.separation false c.rest)
  simp only [next, separation_append, Cursor.skip_append hle]
  generalize c.skip (lx.separation false c.rest) = d at hpast
  obtain ⟨place, rest⟩ := d
  cases rest with
  | nil =>
    have hend : place = c.place.past c.rest := hpast
    rw [hend]
    exact .ended rfl rfl
  | cons g rest =>
    dsimp only [List.cons_append]
    rcases lx.lexeme_append hlabel g rest lower with hsame | ⟨hcause, hcause'⟩
    · rw [hsame]
      rcases Option.eq_none_or_eq_some (lx.lexeme g rest).cause with hcause | ⟨cause, hcause⟩
      · have hlead : (lx.lexeme g rest).lead ≤ (g :: rest).length := by
          rw [lx.lexeme_lead g rest hcause]
          exact Nat.zero_le _
        have htaken : (lx.lexeme g rest).taken ≤ (g :: rest).length := lx.lexeme_taken_le g rest
        have hskip {n : Nat} (h : n ≤ (g :: rest).length) :
            Cursor.skip ⟨place, g :: (rest ++ below lower)⟩ n = _ :=
          Cursor.skip_append (c := ⟨place, g :: rest⟩) h (below lower)
        rw [hskip hlead, hskip htaken]
        exact .same (lx.lexeme_kind g rest) hcause
          ((Cursor.past_skip ⟨place, g :: rest⟩ _).trans hpast)
      · have hfails : (lx.lexeme g rest).cause.isSome := by
          rw [hcause]
          rfl
        exact .failed hfails hfails
    · exact .failed hcause hcause'

end Lexicon

/-! ## Lines -/

namespace SourceLines

variable {lx : Lexicon} {file : Text} {c : Cursor} {x : Scan}

theorem ofScans_of_cause (hx : lx.next file c = x) (hcause : x.cause.isSome) (line : Line) :
    ofScans line (lx.scan file c) = { error := x.diagnostic? } := by
  obtain ⟨cause, hcause⟩ := Option.isSome_iff_exists.1 hcause
  rw [Lexicon.scan, hx]
  split
  · simp only [ofScans, Scan.diagnostic?, hcause, Option.map_some]
  · simp only [ofScans, Scan.diagnostic?, hcause, Option.map_some]

theorem isSome_error_of_cause (hx : lx.next file c = x) (hcause : x.cause.isSome) (line : Line) :
    (ofScans line (lx.scan file c)).error.isSome := by
  rw [ofScans_of_cause hx hcause, Scan.diagnostic?, Option.isSome_map]
  exact hcause

theorem ofScans_of_eof (hx : lx.next file c = x) (hkind : x.token.kind = .eof)
    (hcause : x.cause = none) (line : Line) :
    ofScans line (lx.scan file c) = { lines := [line] } := by
  rw [Lexicon.scan, hx, if_pos hkind]
  simp only [ofScans, Scan.diagnostic?, hcause, Option.map_none, hkind]

theorem ofScans_of_eol (hx : lx.next file c = x) (hkind : x.token.kind = .eol)
    (hcause : x.cause = none) (line : Line) : ofScans line (lx.scan file c) =
      { ofScans [] (lx.scan file x.next) with
        lines := line :: (ofScans [] (lx.scan file x.next)).lines } := by
  rw [Lexicon.scan, hx, if_neg (by rw [hkind]; decide)]
  simp only [ofScans, Scan.diagnostic?, hcause, Option.map_none, hkind]

theorem ofScans_of_token (hx : lx.next file c = x) (heof : x.token.kind ≠ .eof)
    (heol : x.token.kind ≠ .eol) (hcause : x.cause = none) (line : Line) :
    ofScans line (lx.scan file c) = ofScans (line ++ [x.token]) (lx.scan file x.next) := by
  rw [Lexicon.scan, hx, if_neg heof, ofScans]
  simp only [Scan.diagnostic?, hcause, Option.map_none]

/-- The lines of a text, with those of another below them. -/
def append (upper lower : SourceLines) : SourceLines :=
  { lower with lines := upper.lines ++ lower.lines }

/-- The lines `both` are those of `upper` and then those of `lower`, unless there is an
error in `upper`, which then is in `both`. -/
def Joins (upper lower both : SourceLines) : Prop :=
  upper.error = none ∧ both = upper.append lower ∨ upper.error.isSome ∧ both.error.isSome

theorem Joins.cons {upper lower both : SourceLines} (h : Joins upper lower both) (line : Line) :
    Joins { upper with lines := line :: upper.lines } lower
      { both with lines := line :: both.lines } := by
  rcases h with ⟨herror, rfl⟩ | herror
  · exact .inl ⟨herror, rfl⟩
  · exact .inr herror

theorem joins_ofScans (hlabel : lx.label ≠ '\n') (lower : List Glyph) (line : Line) :
    Joins (ofScans line (lx.scan file c))
      (ofScans [] (lx.scan file ⟨(c.place.past c.rest).step (Glyph.ofChar '\n'), lower⟩))
      (ofScans line (lx.scan file ⟨c.place, c.rest ++ below lower⟩)) := by
  induction c using Lexicon.scan.induct lx file generalizing line with
  | case1 c heof =>
    have hnext := lx.next_append hlabel file c lower
    generalize hy : lx.next file ⟨c.place, c.rest ++ below lower⟩ = y at hnext
    cases hnext with
    | ended hkind hcause =>
      rw [ofScans_of_eof rfl hkind hcause line, ofScans_of_eol hy rfl rfl line]
      exact .inl ⟨rfl, rfl⟩
    | failed hcause hcause' =>
      exact .inr ⟨isSome_error_of_cause rfl hcause line, isSome_error_of_cause hy hcause' line⟩
    | same hkind => exact absurd heof hkind
  | case2 c heof ih =>
    have hnext := lx.next_append hlabel file c lower
    generalize hy : lx.next file ⟨c.place, c.rest ++ below lower⟩ = y at hnext
    cases hnext with
    | ended hkind => exact absurd hkind heof
    | failed hcause hcause' =>
      exact .inr ⟨isSome_error_of_cause rfl hcause line, isSome_error_of_cause hy hcause' line⟩
    | same _ hcause hpast =>
      rw [hpast] at ih
      by_cases heol : (lx.next file c).token.kind = .eol
      · rw [ofScans_of_eol rfl heol hcause line, ofScans_of_eol hy heol hcause line]
        exact (ih []).cons line
      · rw [ofScans_of_token rfl heof heol hcause line, ofScans_of_token hy heof heol hcause line]
        exact ih _

/-- The lines of one text above another. The second is scanned from the place behind the
first. -/
theorem joins_ofText (p : Punctuation) (file upper lower : Text) :
    Joins (ofText p file upper)
      (ofScans [] ((Lexicon.ofPunctuation p).scan file
        ⟨(Place.past {} upper.glyphs).step (Glyph.ofChar '\n'), lower.glyphs⟩))
      (ofText p file (upper.above lower)) := by
  rw [ofText, ofText, Cursor.ofText_above]
  exact joins_ofScans (c := .ofText upper) (Lexicon.label_ne_newline p) lower.glyphs []

end SourceLines

end CellAsm
