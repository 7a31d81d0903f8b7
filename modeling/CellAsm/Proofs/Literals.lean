-- SUMMARY: A text that is written as a string literal is read back, and its bytes are assembled.
import CellAsm.Proofs.Coverage
import CellAsm.Proofs.ConstantOrder
import CellAsm.Proofs.Decoding
import CellAsm.Proofs.Filling
import CellAsm.Proofs.Machine.RoundTrip
import CellAsm.Proofs.Rejection

/-!
# String literals

Every text can be written between quotes, with a backslash in front of the few characters
that may not stand there as they are. Scanning the literal gives back the text, whatever
follows the closing quote. An ascii directive with the literal is assembled to the bytes
of the text, if these fill whole cells.
-/
namespace CellAsm

open Statement

/-! ## Writing a text as a literal -/

/-- A character as it is written between quotes. -/
def escape : Char → List Char
  | '\\' => ['\\', '\\']
  | '\x22' => ['\\', '\x22']
  | '\n' => ['\\', 'n']
  | '\t' => ['\\', 't']
  | '\r' => ['\\', 'r']
  | c => [c]

/-- The characters of a literal. -/
def literalChars (cs : List Char) : List Char := '\x22' :: (cs.flatMap escape ++ ['\x22'])

/-- A text between quotes. -/
def Text.literal (s : Text) : Text := Text.ofChars (literalChars s.chars)

/-! ## Reading the literal -/

theorem stringBody_quote (rest : List Glyph) :
    stringBody (Glyph.ofChar '\x22' :: rest) = ⟨[], 1, .closed⟩ := by
  cases rest <;> rfl

/-- A character is read back from the way it is written, whatever follows. -/
theorem stringBody_escape (c : Char) (rest : List Glyph) :
    stringBody ((escape c).map Glyph.ofChar ++ rest) = (stringBody rest).cons c (escape c).length := by
  unfold escape
  split
  · rfl
  · rfl
  · rfl
  · rfl
  · rfl
  · rename_i hescape hquote hnewline _ _
    cases rest with
    | nil =>
      simp only [List.map_cons, List.map_nil, List.singleton_append, stringBody, Glyph.ofChar,
        if_neg hnewline, if_neg hquote, if_neg hescape, List.length_singleton]
    | cons e rest =>
      simp only [List.map_cons, List.map_nil, List.singleton_append, stringBody, Glyph.ofChar,
        if_neg hnewline, if_neg hquote, if_neg hescape, List.length_singleton]

theorem stringBody_escaped (cs : List Char) (rest : List Glyph) :
    stringBody ((cs.flatMap escape ++ ['\x22']).map Glyph.ofChar ++ rest) =
      ⟨Text.ofChars cs, (cs.flatMap escape ++ ['\x22']).length, .closed⟩ := by
  induction cs with
  | nil => exact stringBody_quote rest
  | cons c cs ih =>
    rw [List.flatMap_cons, List.append_assoc, List.map_append, List.append_assoc, stringBody_escape,
      ih, Text.ofChars_cons]
    simp only [StringBody.cons, List.length_append]

theorem stringLexeme_escaped (cs : List Char) (rest : List Glyph) :
    stringLexeme ((cs.flatMap escape ++ ['\x22']).map Glyph.ofChar ++ rest) =
      { kind := .string, contents := Text.ofChars cs, taken := (literalChars cs).length } := by
  unfold stringLexeme
  simp only [stringBody_escaped, literalChars, List.length_cons, Nat.add_comm 1]

/-! ## Places -/

theorem newline_notMem_literalChars (cs : List Char) : '\n' ∉ literalChars cs := by
  have hescape (c : Char) : '\n' ∉ escape c := by
    unfold escape
    split
    · decide
    · decide
    · decide
    · decide
    · decide
    · rename_i hnewline _ _
      exact fun h => hnewline (List.mem_singleton.1 h).symm
  simp only [literalChars, List.mem_cons, List.mem_append, List.mem_flatMap, List.not_mem_nil,
    or_false, not_or, not_exists, not_and]
  exact ⟨by decide, fun c _ => hescape c, by decide⟩

/-- Characters on one line count as columns. -/
theorem Place.past_ofChars {cs : List Char} (h : '\n' ∉ cs) (p : Place) :
    p.past (cs.map Glyph.ofChar) =
      ⟨p.line, p.column + cs.length, p.offset + (Text.ofChars cs).length⟩ := by
  induction cs generalizing p with
  | nil => rfl
  | cons c cs ih =>
    rw [List.mem_cons, not_or] at h
    obtain ⟨hc, hcs⟩ := h
    have hstep : p.step (Glyph.ofChar c) = ⟨p.line, p.column + 1, p.offset + (Text.ofChar c).length⟩ :=
      if_neg (Ne.symm hc)
    have hpast := ih hcs (p.step (Glyph.ofChar c))
    rw [hstep] at hpast
    rw [List.map_cons, past, List.foldl_cons, hstep]
    refine hpast.trans ?_
    simp only [Text.ofChars_cons, List.length_append, List.length_cons, Nat.add_assoc, Nat.add_comm 1]

/-! ## Tokens on a line -/

/-- A marker is no quote, no blank and no token by itself. -/
theorem Punctuation.char_isMark (p : Punctuation) (r : Role) : p.char r ≠ '\x22' ∧
    p.char r ≠ '\n' ∧ isSeparator (p.char r) = false ∧ Lexicon.solitary? (p.char r) = none :=
  p.char_of_all r (P := fun c => c ≠ '\x22' ∧ c ≠ '\n' ∧ isSeparator c = false ∧
    Lexicon.solitary? c = none) (by decide +kernel)

namespace Punctuation

variable {p : Punctuation}

/-- In a valid table every marker role has its character. -/
theorem find?_char (hvalid : p.validate = .ok ()) {r : Role} (hr : r ∈ Role.markers) :
    p.find? (p.char r) = some r := by
  unfold validate at hvalid
  split at hvalid
  · cases hvalid
  rename_i hset
  split at hvalid
  · cases hvalid
  rename_i hcounts
  have hcount : p.count r = 1 := by simpa using List.find?_eq_none.1 hcounts r hr
  obtain ⟨⟨c, r'⟩, hc, hr'⟩ := List.countP_pos_iff.1 (hcount ▸ Nat.one_pos : 0 < p.count r)
  obtain rfl : r' = r := by simpa using hr'
  have hmem : c ∈ charset := by simpa [isPunctuation] using List.find?_eq_none.1 hset _ hc
  exact find?_char_of_ne (Role.ne_symbol_of_mem_markers hr)
    (char_ne_of_find? hmem (find?_of_mem hc))

theorem pseudo_ne_comment (hvalid : p.validate = .ok ()) : p.char .pseudo ≠ p.char .comment := by
  intro h
  have hpseudo := find?_char hvalid (r := .pseudo) (by decide)
  rw [h, find?_char hvalid (r := .comment) (by decide)] at hpseudo
  cases hpseudo

end Punctuation

/-- The punctuation that an assembler keeps is valid. -/
theorem Assembler.punctuation_of_accept {m : Option Machine} {kept : Machine}
    (h : Assembler.accept m = .ok kept) : kept.punctuationTable.validate = .ok () := by
  unfold Assembler.accept at h
  split at h
  · cases h
  · simp only [bind_eq_ok, mapError_eq_ok, pure_eq_ok] at h
    obtain ⟨_, hvalid, rfl⟩ := h
    exact Machine.validate_punctuation rfl hvalid

namespace Lexicon

variable {lx : Lexicon} {file : Text} {place : Place} {rest : List Glyph}

/-- Separators in front are passed over. -/
theorem next_separators {seps : List Char} (h : ∀ c ∈ seps, isSeparator c) (file : Text)
    (place : Place) (rest : List Glyph) :
    lx.next file ⟨place, seps.map Glyph.ofChar ++ rest⟩ =
      lx.next file ⟨place.past (seps.map Glyph.ofChar), rest⟩ := by
  induction seps generalizing place with
  | nil => rfl
  | cons c seps ih =>
    obtain ⟨hc, hseps⟩ := List.forall_mem_cons.1 h
    have hnewline : (Glyph.ofChar c).char ≠ '\n' := by
      rintro rfl
      cases hc
    have hsep : isSeparator (Glyph.ofChar c).char = true := hc
    rw [List.map_cons, List.cons_append]
    refine Eq.trans ?_ (ih hseps (place.step (Glyph.ofChar c)))
    simp only [next, separation, if_neg hnewline, hsep, Bool.or_true, if_true, Nat.add_comm 1]
    rfl

/-- A lexeme that is written with the characters `d` and `cs` is taken as a whole. -/
theorem next_written {d : Char} {cs : List Char} {x : Lexeme} (hseparator : isSeparator d = false)
    (hcomment : d ≠ lx.comment)
    (hx : lx.lexeme (Glyph.ofChar d) (cs.map Glyph.ofChar ++ rest) = x)
    (htaken : x.taken = (d :: cs).length) (hlead : x.lead = 0) :
    lx.next file ⟨place, (d :: cs).map Glyph.ofChar ++ rest⟩ =
      ⟨⟨x.kind, x.contents, place.position file, x.legal⟩, x.cause,
        ⟨place.past ((d :: cs).map Glyph.ofChar), rest⟩⟩ := by
  have hfront : lx.front ⟨place, (d :: cs).map Glyph.ofChar ++ rest⟩ =
      ⟨place, Glyph.ofChar d :: (cs.map Glyph.ofChar ++ rest)⟩ := by
    have hseparator : isSeparator (Glyph.ofChar d).char = false := hseparator
    have hcomment : (Glyph.ofChar d).char ≠ lx.comment := hcomment
    simp only [front, List.map_cons, List.cons_append, separation, hseparator, Bool.or_self,
      Bool.false_eq_true, if_false, if_neg hcomment, ite_self]
    rfl
  have hlength : (d :: cs).length = ((d :: cs).map Glyph.ofChar).length := by rw [List.length_map]
  rw [next_of_cons (congrArg Cursor.rest hfront), hx, hfront, htaken, hlead, hlength]
  simp only [Cursor.skip, ← List.cons_append, ← List.map_cons, List.take_left, List.drop_left]
  rfl

/-- A literal is one token, which holds the text, and scanning goes on behind it. -/
theorem next_literal (p : Punctuation) (cs : List Char) (file : Text) (place : Place)
    (rest : List Glyph) :
    (ofPunctuation p).next file ⟨place, (literalChars cs).map Glyph.ofChar ++ rest⟩ =
      ⟨⟨.string, Text.ofChars cs, place.position file, true⟩, none,
        ⟨place.past ((literalChars cs).map Glyph.ofChar), rest⟩⟩ := by
  have hlexeme : (ofPunctuation p).lexeme (Glyph.ofChar '\x22')
      ((cs.flatMap escape ++ ['\x22']).map Glyph.ofChar ++ rest) =
      { kind := .string, contents := Text.ofChars cs, taken := (literalChars cs).length } :=
    stringLexeme_escaped cs rest
  exact next_written rfl (Ne.symm (p.char_isMark .comment).1) hlexeme rfl rfl

theorem isNameChar_quote (lx : Lexicon) : lx.isNameChar '\x22' = false := by
  have hletter : isLetter '\x22' = false := by decide +kernel
  have hdigit : isDecimalDigit '\x22' = false := by decide +kernel
  have hsymbol : Punctuation.isPunctuation '\x22' = false := by decide +kernel
  rw [isNameChar, isNameStart, hletter, hdigit, hsymbol]
  rfl

theorem isNameChar_separator {d : Char} (h : isSeparator d) (lx : Lexicon) :
    lx.isNameChar d = false := by
  have hblank : isBlank d = true := by
    simp only [isSeparator, Bool.or_eq_true, beq_iff_eq] at h
    rcases h with (((rfl | rfl) | rfl) | rfl) | rfl
    all_goals decide +kernel
  rw [← Bool.not_eq_true]
  intro hname
  rw [isBlank_of_isNameChar hname] at hblank
  cases hblank

/-- The word of the directive for strings. -/
def asciiWord : List Char := "ascii".toList

theorem word_asciiWord (hrest : ∀ g ∈ rest.head?, lx.isNameChar g.char = false) :
    lx.word (asciiWord.map Glyph.ofChar ++ rest) = asciiWord.map Glyph.ofChar := by
  have hletters : asciiWord.all isLetter := by decide +kernel
  have hstop : rest.takeWhile (fun g => lx.isNameChar g.char) = [] := by
    cases rest with
    | nil => rfl
    | cons g rest =>
      rw [List.takeWhile_cons_of_neg]
      rw [hrest g rfl]
      decide
  rw [word, List.takeWhile_append_of_pos, hstop, List.append_nil]
  refine List.forall_mem_map.2 fun c hc => ?_
  simp only [Glyph.ofChar, isNameChar, isNameStart, List.all_eq_true.1 hletters c hc,
    Bool.true_or]

theorem directiveLexeme_asciiWord (hrest : ∀ g ∈ rest.head?, lx.isNameChar g.char = false) :
    lx.directiveLexeme (asciiWord.map Glyph.ofChar ++ rest) =
      { kind := .ascii, contents := Text.ofChars (lx.pseudo :: asciiWord)
        taken := (lx.pseudo :: asciiWord).length } := by
  have hkeyword : directiveKeyword? (Text.ofChars asciiWord) = some .ascii := by decide +kernel
  simp only [directiveLexeme, word_asciiWord hrest, Text.flatMap_bytes_ofChar, hkeyword]
  rfl

/-- The directive ends with its word. -/
theorem next_directive {p : Punctuation} (hcomment : p.char .pseudo ≠ p.char .comment)
    (hrest : ∀ g ∈ rest.head?, (ofPunctuation p).isNameChar g.char = false) (file : Text)
    (place : Place) :
    (ofPunctuation p).next file
        ⟨place, (p.char .pseudo :: asciiWord).map Glyph.ofChar ++ rest⟩ =
      ⟨⟨.ascii, Text.ofChars (p.char .pseudo :: asciiWord), place.position file, true⟩, none,
        ⟨place.past ((p.char .pseudo :: asciiWord).map Glyph.ofChar), rest⟩⟩ := by
  obtain ⟨hquote, _, hseparator, hsolitary⟩ := p.char_isMark .pseudo
  have hletter : isLetter 'a' = true := by decide +kernel
  have hlexeme : (ofPunctuation p).lexeme (Glyph.ofChar (p.char .pseudo))
      (asciiWord.map Glyph.ofChar ++ rest) =
      { kind := .ascii, contents := Text.ofChars (p.char .pseudo :: asciiWord)
        taken := (p.char .pseudo :: asciiWord).length } := by
    have hquote : (Glyph.ofChar (p.char .pseudo)).char ≠ '\x22' := hquote
    have hsolitary : solitary? (Glyph.ofChar (p.char .pseudo)).char = none := hsolitary
    unfold lexeme
    rw [hsolitary]
    dsimp only
    rw [if_neg hquote, if_pos ⟨rfl, hletter⟩]
    exact directiveLexeme_asciiWord hrest
  exact next_written hseparator hcomment hlexeme rfl rfl

theorem next_newline (lx : Lexicon) (file : Text) (place : Place) (rest : List Glyph) :
    lx.next file ⟨place, Glyph.ofChar '\n' :: rest⟩ = lineEnd file place rest := rfl

theorem next_nil (lx : Lexicon) (file : Text) (place : Place) :
    lx.next file ⟨place, []⟩ = ⟨⟨.eof, [], place.position file, true⟩, none, ⟨place, []⟩⟩ := rfl

end Lexicon

/-! ## The line -/

/-- A source of one line: an ascii directive with the literal of `s`, and separators between
the two and around them. -/
inductive AsciiLine (p : Punctuation) (s : Text) : Text → Prop
  | intro {indent gap trail ending : List Char} (hindent : ∀ c ∈ indent, isSeparator c)
      (hgap : ∀ c ∈ gap, isSeparator c) (htrail : ∀ c ∈ trail, isSeparator c)
      (hending : ending = [] ∨ ending = ['\n']) :
      AsciiLine p s (Text.ofChars (indent ++ (p.char .pseudo :: Lexicon.asciiWord) ++ gap) ++
        s.literal ++ Text.ofChars (trail ++ ending))

namespace SourceLines

variable {p : Punctuation} {file : Text} {place : Place}

/-- Separators and the end of the text, or of a line, end a line. -/
theorem ofScans_ending {trail ending : List Char} (htrail : ∀ c ∈ trail, isSeparator c)
    (hending : ending = [] ∨ ending = ['\n']) (place : Place) (line : Line) :
    ofScans line ((Lexicon.ofPunctuation p).scan file
      ⟨place, trail.map Glyph.ofChar ++ ending.map Glyph.ofChar⟩) =
        { lines := line :: ending.map fun _ => [] } := by
  have hseparators (rest : List Glyph) :
      (Lexicon.ofPunctuation p).next file ⟨place, trail.map Glyph.ofChar ++ rest⟩ = _ :=
    Lexicon.next_separators htrail file place rest
  rcases hending with rfl | rfl
  · have hend := (hseparators []).trans (Lexicon.next_nil ..)
    exact ofScans_of_eof hend rfl rfl line
  · have hline := (hseparators [Glyph.ofChar '\n']).trans (Lexicon.next_newline ..)
    have hafter := ofScans_of_eof ((Lexicon.ofPunctuation p).next_nil file
      ((place.past (trail.map Glyph.ofChar)).step (Glyph.ofChar '\n'))) rfl rfl []
    refine (ofScans_of_eol hline rfl rfl line).trans ?_
    simp only [Lexicon.lineEnd, hafter]
    rfl

/-- The line is read as the directive and the text. -/
theorem ofText_asciiLine (hpseudo : p.char .pseudo ≠ p.char .comment) {s contents : Text}
    (hs : s.IsUtf8) (h : AsciiLine p s contents) (file : Text) :
    ∃ (word : Text) (at₁ at₂ : Position) (more : List Line), (∀ l ∈ more, l = []) ∧
      ofText p file contents =
        { lines := [⟨.ascii, word, at₁, true⟩, ⟨.string, s, at₂, true⟩] :: more } := by
  obtain ⟨cs, rfl⟩ := hs
  cases h with
  | @intro indent gap trail ending hindent hgap htrail hending =>
    let behind := trail.map Glyph.ofChar ++ ending.map Glyph.ofChar
    have hglyphs : Text.glyphs (Text.ofChars (indent ++ (p.char .pseudo :: Lexicon.asciiWord) ++ gap) ++
        (Text.ofChars cs).literal ++ Text.ofChars (trail ++ ending)) =
        indent.map Glyph.ofChar ++ ((p.char .pseudo :: Lexicon.asciiWord).map Glyph.ofChar ++
          (gap.map Glyph.ofChar ++ ((literalChars cs).map Glyph.ofChar ++ behind))) := by
      rw [Text.literal, Text.chars_ofChars, ← Text.ofChars_append, ← Text.ofChars_append,
        Text.glyphs_ofChars]
      simp only [List.map_append, List.append_assoc, behind]
    have hstop : ∀ g ∈ (gap.map Glyph.ofChar ++ ((literalChars cs).map Glyph.ofChar ++ behind)).head?,
        (Lexicon.ofPunctuation p).isNameChar g.char = false := by
      cases gap with
      | nil =>
        rintro g ⟨⟩
        exact Lexicon.isNameChar_quote _
      | cons c gap =>
        rintro g ⟨⟩
        exact Lexicon.isNameChar_separator (hgap c List.mem_cons_self) _
    have hword := (Lexicon.next_separators hindent file {} _).trans
      (Lexicon.next_directive hpseudo hstop file _)
    have hstring (place : Place) := (Lexicon.next_separators hgap file place _).trans
      (Lexicon.next_literal p cs file _ behind)
    have hlines := (ofScans_of_token hword (by rintro ⟨⟩) (by rintro ⟨⟩) rfl []).trans
      ((ofScans_of_token (hstring _) (by rintro ⟨⟩) (by rintro ⟨⟩) rfl _).trans
        (ofScans_ending htrail hending _ _))
    rw [← hglyphs] at hlines
    exact ⟨_, _, _, _, List.forall_mem_map.2 fun _ _ => rfl, hlines⟩

end SourceLines

/-! ## The statement -/

/-- The statement of an ascii directive with the token `t`. -/
def Statement.ofString (keyword t : Token) : Statement where
  action := .ascii
  keyword := keyword
  operands := [t]

namespace Statement

variable {keyword t : Token} {address : UInt64} {cellSize : Int}

theorem formed_ofString (ht : t.kind = .string) (m : Machine) (P : Token → Prop) :
    (ofString keyword t).Formed m P :=
  .ascii ht

theorem emittedBits_ofString : (ofString keyword t).emittedBits address cellSize =
    .ok (8 * t.contents.length) := by
  simp only [emittedBits, ofString, List.map_cons, List.map_nil, List.sum_cons, List.sum_nil, add_zero]

theorem encode_ofString (n : Int) :
    (ofString keyword t).encode n = t.contents.flatMap fun b => bitsOf 8 b.toNat := by
  simp only [encode, ofString, List.flatMap_cons, List.flatMap_nil, List.append_nil]

theorem replaceIn_ofString (ht : t.kind = .string) (equs : Table Token) :
    Equ.replaceIn equs (ofString keyword t) = ofString keyword t := by
  have hkept : Equ.replace equs t = t := Equ.replace_of_kind_ne (by rw [ht]; decide)
  simp only [Equ.replaceIn, ofString, List.map_cons, List.map_nil, hkept]

theorem replaceNames_ofString (ht : t.kind = .string) (labels : Table Token)
    (address next : UInt64) :
    Label.replaceNames labels address next (ofString keyword t) = .ok (ofString keyword t) := by
  have hkept : Label.replaceValue labels t = .ok t :=
    Label.replaceValue_of_kind_ne (by rw [ht]; decide)
  rw [Label.replaceNames_of_directive rfl]
  simp only [ofString, List.mapM_cons, List.mapM_nil, hkept, ok_bind, pure_eq]

/-- A string has a place exactly if its bytes fill whole cells that end within the address
space. -/
theorem exists_span_ofString_iff (hpos : 1 ≤ cellSize) :
    (∃ s, (ofString keyword t).span cellSize address = .ok s) ↔
      cellSize ∣ 8 * t.contents.length ∧
      address.toNat + 8 * t.contents.length / cellSize.toNat < 2 ^ 64 := by
  by_cases hwhole : cellSize ∣ 8 * t.contents.length
  · obtain ⟨n, hn⟩ : ∃ n : Nat, n = 8 * t.contents.length / cellSize.toNat := ⟨_, rfl⟩
    have hbits : (8 * t.contents.length : Int) = n * cellSize := by
      have hsize := Int.toNat_of_nonneg (a := cellSize) (by omega)
      have hdvd : cellSize.toNat ∣ 8 * t.contents.length := by
        rw [← hsize] at hwhole
        exact_mod_cast hwhole
      rw [← hsize, hn]
      exact_mod_cast (Nat.div_mul_cancel hdvd).symm
    rw [span_of_emittedBits hpos (hbits ▸ emittedBits_ofString), ← hn]
    split
    · rename_i hend
      exact ⟨fun _ => ⟨hwhole, hend⟩, fun _ => ⟨_, rfl⟩⟩
    · rename_i hend
      exact ⟨by rintro ⟨s, ⟨⟩⟩, fun h => absurd h.2 hend⟩
  · refine ⟨?_, fun h => absurd h.1 hwhole⟩
    rintro ⟨s, hs⟩
    obtain ⟨hbits, hcells⟩ := emittedBits_of_span hs
    rw [← Except.ok.inj (emittedBits_ofString.symm.trans hbits)] at hcells
    exact absurd (Int.dvd_of_tmod_eq_zero hcells) hwhole

end Statement

/-- Lines without tokens are read without effect. -/
theorem SourceState.plainReads?_blank (m : Machine) (cs : List Statement) {lines : List Line}
    (h : ∀ l ∈ lines, l = []) :
    plainReads? m lines { statements := cs } = some { statements := cs } := by
  induction lines with
  | nil => rfl
  | cons l rest ih =>
    obtain ⟨rfl, hrest⟩ := List.forall_mem_cons.1 h
    exact ih hrest

namespace SourceEnv

variable {env : SourceEnv} {s contents : Text}

theorem parse_asciiLine
    (hpseudo : env.machine.punctuationTable.char .pseudo ≠ env.machine.punctuationTable.char .comment)
    (hs : s.IsUtf8) (h : AsciiLine env.machine.punctuationTable s contents) (name : Text) :
    ∃ keyword t : Token, t.kind = .string ∧ t.contents = s ∧
      env.parse name contents = .ok { statements := [.ofString keyword t] } := by
  obtain ⟨word, at₁, at₂, more, hmore, hlines⟩ := SourceLines.ofText_asciiLine hpseudo hs h name
  refine ⟨⟨.ascii, word, at₁, true⟩, ⟨.string, s, at₂, true⟩, rfl, rfl, parse_of_plainParse? ?_⟩
  have hreads : SourceState.plainReads? env.machine
      ([⟨.ascii, word, at₁, true⟩, ⟨.string, s, at₂, true⟩] :: more) {} =
      some { statements := [.ofString ⟨.ascii, word, at₁, true⟩ ⟨.string, s, at₂, true⟩] } :=
    SourceState.plainReads?_blank env.machine _ hmore
  simp only [SourceState.plainParse?, hlines, hreads]
  rfl

end SourceEnv

/-! ## The code -/

namespace SourceEnv

variable {env : SourceEnv} {name contents : Text} {keyword t : Token}

/-- A program that consists of a string is assembled as soon as the string has a place. -/
theorem exists_result_ofString (hm : env.machine.Valid) (ht : t.kind = .string)
    (hread : env.parse name contents = .ok { statements := [ofString keyword t] })
    {start : UInt64} {here : Span}
    (hplace : (ofString keyword t).span env.machine.cellSize start = .ok here) :
    ∃ q, (env.assemble name contents start).result = .ok q := by
  have hordered : Equ.Ordered env.machine.equs ({} : Table Token).entries := Equ.ordered_nil
  obtain ⟨cs, equs, hresolve⟩ := Equ.exists_resolve [ofString keyword t] hordered (by rintro n ⟨⟩)
  have hcs : cs = [ofString keyword t] := by
    obtain ⟨rfl, _⟩ := Equ.of_resolve (m := env.machine)
      (List.forall_mem_singleton.2 (formed_ofString ht _ _)) (Table.All.empty _) hresolve
    rw [List.map_singleton, replaceIn_ofString ht]
  have hlabels : Label.assign cs start env.machine.cellSize = .ok {} := by
    rw [hcs]
    exact Label.assignFrom_cons_eq_ok.2 ⟨{}, here, rfl, hplace, rfl⟩
  have hlayout : layout env.machine.cellSize start cs = .ok [here] := by
    rw [hcs]
    exact layout_cons_eq_ok.2 ⟨here, [], hplace, rfl, rfl⟩
  have haddressed : env.Addressed name contents start _ cs equs {} := ⟨hread, hresolve, hlabels⟩
  obtain ⟨rfl, _⟩ := span_eq_ok.1 hplace
  have hblock := Code.block_eq hm (formed_ofString ht _ _) (emittedBits_of_span hplace).1
  rw [haddressed.result_eq hlayout, hcs]
  simp only [List.zip_cons_cons, List.zip_nil_right, List.mapM_cons, List.mapM_nil,
    replaceNames_ofString ht, ok_bind, pure_eq, hblock]
  exact ⟨_, rfl⟩

/-- The program of a string has one block, which holds its bytes. -/
theorem blocks_ofString (hm : env.machine.Valid) (ht : t.kind = .string)
    (hread : env.parse name contents = .ok { statements := [ofString keyword t] })
    {start : UInt64} {q : Program} (hq : (env.assemble name contents start).result = .ok q) :
    (∃ here, (ofString keyword t).span env.machine.cellSize start = .ok here) ∧
    ∃ b, q.blocks = [b] ∧ b.address = start ∧ b.Encodes env.machine.cellSize (ofString keyword t) := by
  obtain ⟨s, cs, haddressed⟩ := addressed_of_assemble hq
  obtain ⟨spans, hlayout⟩ := haddressed.exists_layout
  have hassembled := haddressed.assembled hlayout hq
  obtain rfl : s = _ := Except.ok.inj (haddressed.read.symm.trans hread)
  have hcs := haddressed.replaced
  rw [List.map_singleton, replaceIn_ofString ht] at hcs
  subst hcs
  obtain ⟨here, _, hplace, ⟨⟩, rfl⟩ := layout_cons_eq_ok.1 hlayout
  refine ⟨⟨here, hplace⟩, ?_⟩
  have hnames := hassembled.placed.names
  have hcode := hassembled.placed.code
  simp only [List.zip_cons_cons, List.zip_nil_right, List.mapM_cons, List.mapM_nil,
    replaceNames_ofString ht, ok_bind, pure_eq, Except.ok.injEq] at hnames
  have hencodes := hassembled.forall₂_encodes hm
  rw [← hnames] at hencodes hcode
  simp only [List.zip_cons_cons, List.zip_nil_right, List.mapM_cons, List.mapM_nil, bind_eq_ok,
    pure_eq_ok] at hcode
  obtain ⟨b, hb, _, rfl, hblocks⟩ := hcode
  rw [← hblocks] at hencodes
  obtain ⟨_, _, _, hcells⟩ := Code.of_block hm hb
  refine ⟨b, hblocks.symm, ?_, (List.forall₂_cons.1 hencodes).1⟩
  rw [hcells]
  exact (span_eq_ok.1 hplace).1

end SourceEnv

/-- A text that is written as a literal is read back, and scanning goes on behind the closing
quote, whatever follows. A line that consists of an ascii directive and the literal is
assembled exactly if the bytes of the text fill whole cells and there is room for them
behind the start, and then to one block, at the start, that holds these bytes in order. -/
theorem Text.literal_roundTrip {s : Text} (hs : s.IsUtf8) :
    (∀ (p : Punctuation) (file before following : Text) (place : Place),
      place.offset = before.length →
      Scanner.next ⟨.ofPunctuation p, file, before ++ (s.literal ++ following), place⟩ =
        .ok (⟨⟨.string, s, place.position file, true⟩, none⟩,
          ⟨.ofPunctuation p, file, before ++ (s.literal ++ following),
            ⟨place.line, place.column + s.literal.chars.length,
              place.offset + s.literal.length⟩⟩)) ∧
    ∀ {m : Option Machine} {a : Assembler}, Assembler.accept m = .ok a.machine →
      ∀ {contents : Text}, AsciiLine a.machine.punctuationTable s contents →
      ∀ (library : Library) (name : Text) (start : UInt64),
        ((∃ q, (a.assembleSource library name contents start).2.result = .ok q) ↔
          a.machine.cellSize ∣ 8 * s.length ∧
          start.toNat + 8 * s.length / a.machine.cellSize.toNat < 2 ^ 64) ∧
        ∀ q, (a.assembleSource library name contents start).2.result = .ok q →
          ∃ b, q.blocks = [b] ∧ b.address = start ∧ b.length = 8 * s.length ∧
            b.bits = .ok ((s.flatMap fun byte => bitsOf 8 byte.toNat).map bitByte) := by
  refine ⟨fun p file before following place hplace => ?_, ?_⟩
  · obtain ⟨cs, rfl⟩ := hs
    have hwithin : Scanner.Within ⟨.ofPunctuation p, file,
        before ++ ((Text.ofChars cs).literal ++ following), place⟩ := by
      rw [Scanner.Within, List.length_append, hplace]
      exact Nat.le_add_right _ _
    rw [Scanner.next_eq_lexed hwithin, Scanner.cursor]
    dsimp only
    rw [hplace, List.drop_left, Text.literal, Text.chars_ofChars, Text.glyphs_ofChars_append,
      Lexicon.next_literal, Place.past_ofChars (newline_notMem_literalChars cs), Text.chars_ofChars,
      Scan.lexed, hplace]
  · intro m a haccept contents hline library name start
    have hm := Assembler.valid_of_accept haccept
    have hpseudo := Punctuation.pseudo_ne_comment (Assembler.punctuation_of_accept haccept)
    obtain ⟨keyword, t, ht, rfl, hread⟩ : ∃ keyword t : Token, t.kind = .string ∧ t.contents = s ∧
        SourceEnv.parse ⟨a.machine, some library⟩ name contents =
          .ok { statements := [.ofString keyword t] } :=
      SourceEnv.parse_asciiLine hpseudo hs hline name
    rw [Assembler.assembleSource_snd, ← exists_span_ofString_iff hm.cellSize_pos]
    refine ⟨⟨?_, ?_⟩, fun q hq => ?_⟩
    · rintro ⟨q, hq⟩
      exact (SourceEnv.blocks_ofString hm ht hread hq).1
    · rintro ⟨here, hplace⟩
      exact SourceEnv.exists_result_ofString hm ht hread hplace
    · obtain ⟨_, b, hblocks, haddress, hencodes⟩ := SourceEnv.blocks_ofString hm ht hread hq
      have hrow := hencodes.row.trans (encode_ofString _)
      refine ⟨b, hblocks, haddress, ?_, hrow ▸ hencodes.bits⟩
      rw [hencodes.length, hrow, List.length_flatMap]
      simp only [length_bitsOf, List.map_const', List.sum_replicate_nat, Int.natCast_mul]
      exact Int.mul_comm _ _

namespace Sample

/-- Two characters of two bytes and one. -/
def quoted : Text := "é\""

def quotedLine : Text := " .ascii\t\"é\\\"\" \n"

def wide : Assembler := ⟨Machine.snapshot { cellSize := 12 }, none⟩

/-- The bytes of the text are spread over two cells of twelve bits. -/
theorem quoted_in_wide_cells : quoted.IsUtf8 ∧ quoted.literal = ("\"é\\\"\"" : Text) ∧
    Assembler.accept (some { cellSize := 12 }) = .ok wide.machine ∧
    AsciiLine wide.machine.punctuationTable quoted quotedLine ∧
    ∃ q b, (wide.assembleSource library "sample" quotedLine 0xfffffffffffffffd).2.result = .ok q ∧
      q.blocks = [b] ∧ b.address = 0xfffffffffffffffd ∧ b.bits = .ok ("110000111010100100100010" : Text) := by
  have hutf8 : quoted.IsUtf8 := Text.isUtf8_ofString _
  have hevaluated : quoted.literal = ("\"é\\\"\"" : Text) ∧
      Assembler.accept (some { cellSize := 12 }) = .ok wide.machine ∧
      (quoted.flatMap fun byte => bitsOf 8 byte.toNat).map bitByte =
        ("110000111010100100100010" : Text) := by decide +kernel
  obtain ⟨hliteral, haccept, hbits⟩ := hevaluated
  have hline : AsciiLine wide.machine.punctuationTable quoted quotedLine := by
    have hwritten : quotedLine = Text.ofChars ([' '] ++
        (wide.machine.punctuationTable.char .pseudo :: Lexicon.asciiWord) ++ ['\t']) ++
        quoted.literal ++ Text.ofChars ([' '] ++ ['\n']) := by decide +kernel
    rw [hwritten]
    exact .intro (List.forall_mem_singleton.2 rfl) (List.forall_mem_singleton.2 rfl)
      (List.forall_mem_singleton.2 rfl) (.inr rfl)
  obtain ⟨hiff, hblocks⟩ := (Text.literal_roundTrip hutf8).2 haccept hline library "sample"
    0xfffffffffffffffd
  obtain ⟨q, hq⟩ := hiff.2 (by decide +kernel)
  obtain ⟨b, hb, haddress, _, hshown⟩ := hblocks q hq
  exact ⟨hutf8, hliteral, haccept, hline, q, b, hq, hb, haddress, hbits ▸ hshown⟩

end Sample

end CellAsm
