-- SUMMARY: Scanned constants are integer literals, and scanned names have no blanks.
import CellAsm.Proofs.Lexing
import CellAsm.Proofs.Numeral
import CellAsm.Proofs.Utf8

/-!
# Scanned tokens

A constant that is scanned without an error is an integer literal. A name is made
of letters, digits and symbol characters, none of which is white space or stands
for a stray byte, so that trimming leaves it as it is.
-/
namespace CellAsm

/-- A constant is an integer literal. -/
def Token.IsLiteral (t : Token) : Prop := t.kind = .constant → t.contents.toInt?.isSome

theorem Token.IsLiteral.integer?_isSome {t : Token} (h : t.IsLiteral) (hkind : t.kind = .constant) :
    t.integer?.isSome := by
  obtain ⟨v, hv⟩ := Option.isSome_iff_exists.1 (h hkind)
  rw [Token.integer?, Text.trim_of_toInt? hv, hv]
  rfl

/-- A token as it is scanned: constants are literals, and names are trimmed. -/
structure Token.IsScanned (t : Token) : Prop where
  literal : t.IsLiteral
  trimmed : t.kind = .identifier → t.contents.trim = t.contents

/-! ## Name characters -/

/-- The code points of a class. -/
def CharClass.codes (k : CharClass) : List Nat := k.flatMap fun r => List.range' r.1 (r.2 + 1 - r.1)

theorem CharClass.mem_codes {k : CharClass} {n : Nat} (h : k.hasCode n) : n ∈ k.codes := by
  induction k with
  | nil => cases h
  | cons r rest ih =>
    obtain ⟨lo, hi⟩ := r
    rw [codes, List.flatMap_cons, List.mem_append]
    unfold hasCode at h
    split at h
    · left
      have hlo : lo ≤ n := of_decide_eq_true h
      rw [List.mem_range'_1]
      omega
    · exact .inr (ih h)

theorem notMem_codes_blank :
    ∀ n ∈ CharClass.blank.codes, ¬CharClass.letter.hasCode n ∧ ¬CharClass.decimalDigit.hasCode n ∧
      n ∉ Punctuation.charset.map Char.toNat := by
  decide +kernel

namespace Lexicon

theorem isBlank_of_isNameChar {lx : Lexicon} {c : Char} (h : lx.isNameChar c) :
    isBlank c = false := by
  rw [← Bool.not_eq_true]
  intro hblank
  obtain ⟨hletter, hdigit, hsymbol⟩ := notMem_codes_blank _ (CharClass.mem_codes hblank)
  have hchar : isLetter c ∨ (Punctuation.isPunctuation c ∧ lx.table.role c = .symbol) ∨
      isDecimalDigit c := by
    simpa [isNameChar, isNameStart, or_assoc] using h
  rcases hchar with hc | ⟨hc, _⟩ | hc
  · exact hletter hc
  · exact hsymbol (List.mem_map_of_mem (List.contains_iff_mem.1 hc))
  · exact hdigit hc

theorem ne_replacement_of_isNameChar {lx : Lexicon} {c : Char} (h : lx.isNameChar c) :
    c ≠ Utf8.replacement := by
  rintro rfl
  have hletter : isLetter Utf8.replacement = false := by decide +kernel
  have hdigit : isDecimalDigit Utf8.replacement = false := by decide +kernel
  have hsymbol : Punctuation.isPunctuation Utf8.replacement = false := by decide +kernel
  simp [isNameChar, isNameStart, hletter, hdigit, hsymbol] at h

/-- Decoded glyphs of name characters make up a trimmed name. -/
theorem trim_flatMap_bytes (lx : Lexicon) {t : Text} {gs : List Glyph} (hgs : ∀ g ∈ gs, g ∈ t.glyphs)
    (hname : ∀ g ∈ gs, lx.isNameChar g.char) :
    Text.trim (gs.flatMap Glyph.bytes) = gs.flatMap Glyph.bytes := by
  have hbytes : gs.flatMap Glyph.bytes = Text.ofChars (gs.map Glyph.char) := by
    rw [Text.ofChars, List.flatMap_map]
    refine List.flatMap_congr fun g hg => ?_
    have hg' := Text.eq_ofChar_of_mem_glyphs (hgs g hg) (ne_replacement_of_isNameChar (hname g hg))
    exact congrArg Glyph.bytes hg'
  rw [hbytes]
  exact Text.trim_ofChars (List.forall_mem_map.2 fun g hg => isBlank_of_isNameChar (hname g hg))

/-! ## Lexemes that may be operands -/

theorem solitary?_kind {c : Char} {k : TokenKind} (h : solitary? c = some k) :
    k ≠ .constant ∧ k ≠ .identifier := by
  unfold solitary? at h
  split at h <;> cases h <;> decide

theorem stringLexeme_kind_ne (rest : List Glyph) :
    (stringLexeme rest).kind ≠ .constant ∧ (stringLexeme rest).kind ≠ .identifier := by
  unfold stringLexeme
  dsimp only
  split <;> simp

theorem directiveLexeme_kind_ne (lx : Lexicon) (rest : List Glyph) :
    (lx.directiveLexeme rest).kind ≠ .constant ∧ (lx.directiveLexeme rest).kind ≠ .identifier := by
  unfold directiveLexeme
  dsimp only
  split
  · rename_i k hk
    unfold directiveKeyword? at hk
    repeat' split at hk
    all_goals cases hk
    all_goals simp
  · simp

theorem nameLexeme_kind_ne_constant (lx : Lexicon) (g : Glyph) (rest : List Glyph) :
    (lx.nameLexeme g rest).kind ≠ .constant := by
  unfold nameLexeme
  dsimp only
  split
  · simp
  · unfold bareKeyword?
    repeat' split
    all_goals simp

/-- A constant or a name is read as a number or as a name. -/
theorem lexeme_of_operand {lx : Lexicon} {g : Glyph} {rest : List Glyph}
    (h : (lx.lexeme g rest).kind = .constant ∨ (lx.lexeme g rest).kind = .identifier) :
    lx.lexeme g rest = lx.numberLexeme g rest ∨
      lx.isNameStart g.char ∧ lx.lexeme g rest = lx.nameLexeme g rest := by
  unfold lexeme at h ⊢
  split at h
  · rename_i k hk
    obtain ⟨hconstant, hname⟩ := solitary?_kind hk
    exact (h.elim hconstant hname).elim
  · dsimp only at h ⊢
    split at h
    · obtain ⟨hconstant, hname⟩ := stringLexeme_kind_ne rest
      exact (h.elim hconstant hname).elim
    · rename_i hquote
      split at h
      · obtain ⟨hconstant, hname⟩ := directiveLexeme_kind_ne lx rest
        exact (h.elim hconstant hname).elim
      · rename_i hpseudo
        rw [if_neg hquote, if_neg hpseudo]
        split at h
        · rename_i hnumber
          exact .inl (if_pos hnumber)
        · rename_i hnumber
          split at h
          · rename_i hstart
            rw [if_neg hnumber, if_pos hstart]
            exact .inr ⟨hstart, rfl⟩
          · simp at h

/-- A constant without a lexical error is a literal. -/
theorem lexeme_literal {lx : Lexicon} {g : Glyph} {rest : List Glyph}
    (hkind : (lx.lexeme g rest).kind = .constant) (hcause : (lx.lexeme g rest).cause = none) :
    (lx.lexeme g rest).contents.toInt?.isSome := by
  rcases lexeme_of_operand (.inl hkind) with hnumber | ⟨_, hname⟩
  · rw [hnumber] at hcause ⊢
    unfold numberLexeme at hcause ⊢
    dsimp only at hcause ⊢
    split at hcause
    · assumption
    · cases hcause
  · rw [hname] at hkind
    exact absurd hkind (nameLexeme_kind_ne_constant lx g rest)

/-- A name is trimmed. -/
theorem lexeme_trimmed {lx : Lexicon} {t : Text} {g : Glyph} {rest : List Glyph}
    (hglyphs : ∀ g' ∈ g :: rest, g' ∈ t.glyphs) (hkind : (lx.lexeme g rest).kind = .identifier) :
    (lx.lexeme g rest).contents.trim = (lx.lexeme g rest).contents := by
  rcases lexeme_of_operand (.inr hkind) with hnumber | ⟨hstart, hname⟩
  · rw [hnumber] at hkind
    cases hkind
  · rw [hname] at hkind ⊢
    unfold nameLexeme at hkind ⊢
    dsimp only at hkind ⊢
    split at hkind
    · cases hkind
    · rename_i hlabel
      rw [if_neg hlabel]
      refine trim_flatMap_bytes lx (t := t) (fun g' hg' => hglyphs g' ?_) ?_
      · exact ((List.takeWhile_sublist _).cons_cons g).mem hg'
      · refine List.forall_mem_cons.2 ⟨?_, List.all_eq_true.1 List.all_takeWhile⟩
        rw [isNameChar, hstart, Bool.true_or]

/-! ## Scans -/

theorem next_scanned {lx : Lexicon} {file t : Text} {c : Cursor} (hc : ∀ g ∈ c.rest, g ∈ t.glyphs)
    (h : (lx.next file c).cause = none) : (lx.next file c).token.IsScanned := by
  unfold next at h ⊢
  dsimp only at h ⊢
  split at h
  · exact ⟨nofun, nofun⟩
  · rename_i g rest hrest
    have hglyphs : ∀ g' ∈ g :: rest, g' ∈ t.glyphs := by
      intro g' hg'
      rw [← hrest] at hg'
      exact hc g' (List.mem_of_mem_drop hg')
    exact ⟨fun hkind => lexeme_literal hkind h, fun hkind => lexeme_trimmed hglyphs hkind⟩

theorem next_rest_subset (lx : Lexicon) (file : Text) (c : Cursor) :
    ∀ g ∈ (lx.next file c).next.rest, g ∈ c.rest := by
  intro g hg
  unfold next at hg
  dsimp only at hg
  split at hg
  · exact List.mem_of_mem_drop hg
  · exact List.mem_of_mem_drop (List.mem_of_mem_drop hg)

theorem scan_scanned {lx : Lexicon} {file t : Text} {c : Cursor} (hc : ∀ g ∈ c.rest, g ∈ t.glyphs) :
    ∀ s ∈ lx.scan file c, s.cause = none → s.token.IsScanned := by
  fun_induction scan lx file c with
  | case1 c _ =>
    intro s hs hcause
    obtain rfl := List.mem_singleton.1 hs
    exact next_scanned hc hcause
  | case2 c _ ih =>
    intro s hs hcause
    rcases List.mem_cons.1 hs with rfl | hs
    · exact next_scanned hc hcause
    · exact ih (fun g hg => hc g (next_rest_subset lx file c g hg)) s hs hcause

end Lexicon

namespace SourceLines

/-- The tokens on lines are those that were scanned without an error. -/
theorem forall_mem_ofScans {T : Token → Prop} {scans : List Scan} {line : Line}
    (hscans : ∀ s ∈ scans, s.cause = none → T s.token) (hline : ∀ t ∈ line, T t) :
    ∀ l ∈ (ofScans line scans).lines, ∀ t ∈ l, T t := by
  induction scans generalizing line with
  | nil =>
    intro l hl
    obtain rfl := List.mem_singleton.1 hl
    exact hline
  | cons s rest ih =>
    obtain ⟨hs, hrest⟩ := List.forall_mem_cons.1 hscans
    unfold ofScans
    split
    · intro l hl
      cases hl
    · rename_i hdiagnostic
      have htoken : T s.token := hs (Option.map_eq_none_iff.1 hdiagnostic)
      split
      · intro l hl
        obtain rfl := List.mem_singleton.1 hl
        exact hline
      · exact List.forall_mem_cons.2 ⟨hline, ih hrest (List.forall_mem_nil _)⟩
      · exact ih hrest (List.forall_mem_append.2 ⟨hline, List.forall_mem_singleton.2 htoken⟩)

end SourceLines

theorem SourceEnv.linesOf_scanned (env : SourceEnv) (file contents : Text) :
    ∀ l ∈ (env.linesOf file contents).lines, ∀ t ∈ l, t.IsScanned :=
  SourceLines.forall_mem_ofScans
    (Lexicon.scan_scanned (t := contents) fun _ hg => hg) (List.forall_mem_nil _)

end CellAsm
