-- SUMMARY: Strings and numbers that are written in JSON are read back as one lexeme.
import CellAsm.Json.Reader
import CellAsm.Proofs.Numeral
import CellAsm.Proofs.Utf8

/-!
# Lexemes of written JSON

A string is written character by character, each as itself or as an escape, and
every escape is read as one code. A number is written in decimal, so it has no
needless zeros, fraction or exponent, and it ends where something else follows.
-/
namespace CellAsm.Json

/-! ## Escapes -/

/-- One more code in front of those that were read. -/
def withCode (n : Nat) (p : List Nat × List Char) : List Nat × List Char := (n :: p.1, p.2)

theorem stringCodes?_plain {c : Char} (hlow : ¬c.toNat < 0x20) (hslash : c ≠ '\\')
    (hquote : c ≠ '\x22') (rest : List Char) :
    stringCodes? (c :: rest) = (stringCodes? rest).map (withCode c.toNat) := by
  rw [stringCodes?.eq_def]
  split
  · simp_all
  · simp_all
  · simp_all
  · simp_all
  · rename_i _ _ _ heq
    cases heq
    rw [if_neg (by simp [hlow, hslash])]
    cases stringCodes? rest <;> rfl

theorem stringCodes?_letter {e : Char} {n : Nat} (h : escapeCode? e = some n) (rest : List Char) :
    stringCodes? ('\\' :: e :: rest) = (stringCodes? rest).map (withCode n) := by
  have hu : e ≠ 'u' := by
    rintro rfl
    cases h
  rw [stringCodes?.eq_def]
  split
  · simp_all
  · simp_all
  · simp_all
  · rename_i _ heq
    cases heq
    rw [h]
    cases stringCodes? rest <;> rfl
  · rename_i hother heq
    cases heq
    exact absurd rfl (hother _ _ rfl)

theorem stringCodes?_number {a b c d : Char} {i j k l : Nat} (ha : hexDigit? a = some i)
    (hb : hexDigit? b = some j) (hc : hexDigit? c = some k) (hd : hexDigit? d = some l)
    (rest : List Char) : stringCodes? ('\\' :: 'u' :: a :: b :: c :: d :: rest) =
      (stringCodes? rest).map (withCode (((i * 16 + j) * 16 + k) * 16 + l)) := by
  rw [stringCodes?, ha, hb, hc, hd]
  cases stringCodes? rest <;> rfl

/-- The character that writes a digit. -/
def digitChar (d : Nat) : Char := Char.ofNat (digitByte d).toNat

theorem hexDigit?_digitChar : ∀ d < 16, hexDigit? (digitChar d) = some d := by decide

/-- The codes that are written by number. -/
def numbered : List Nat := List.range 0x20 ++ [0x3C, 0x3E, 0x26, 0x2028, 0x2029]

theorem hex_numbered : ∀ n ∈ numbered, n < 65536 ∧ Text.hex 4 n = Text.ofChars
    [digitChar (n / 4096), digitChar (n / 256 % 16), digitChar (n / 16 % 16), digitChar (n % 16)] := by
  decide +kernel

theorem mem_numbered {c : Char}
    (h : c.toNat < 0x20 ∨ c = '<' ∨ c = '>' ∨ c = '&' ∨ c.toNat = 0x2028 ∨ c.toNat = 0x2029) :
    c.toNat ∈ numbered := by
  unfold numbered
  rcases h with h | rfl | rfl | rfl | h | h
  · exact List.mem_append_left _ (List.mem_range.2 h)
  · decide
  · decide
  · decide
  · rw [h]
    decide
  · rw [h]
    decide

/-- What is written for a character is read as its code. -/
theorem stringCodes?_escapeChar (c : Char) : ∃ cs, escapeChar c = Text.ofChars cs ∧ ∀ rest,
    stringCodes? (cs ++ rest) = (stringCodes? rest).map (withCode c.toNat) := by
  have hletter {e : Char} (h : escapeCode? e = some c.toNat) :
      ∃ cs, Text.ofChars ['\\', e] = Text.ofChars cs ∧ ∀ rest,
        stringCodes? (cs ++ rest) = (stringCodes? rest).map (withCode c.toNat) :=
    ⟨_, rfl, stringCodes?_letter h⟩
  unfold escapeChar
  split
  · rename_i hc
    exact hletter (e := '\x22') (by rw [hc]; rfl)
  · rename_i hquote
    split
    · rename_i hc
      exact hletter (e := '\\') (by rw [hc]; rfl)
    · rename_i hslash
      split
      · rename_i hn
        exact hletter (e := 'b') (by rw [hn]; rfl)
      · rename_i hn
        exact hletter (e := 't') (by rw [hn]; rfl)
      · rename_i hn
        exact hletter (e := 'n') (by rw [hn]; rfl)
      · rename_i hn
        exact hletter (e := 'f') (by rw [hn]; rfl)
      · rename_i hn
        exact hletter (e := 'r') (by rw [hn]; rfl)
      · split
        · rename_i hn
          obtain ⟨hlt, hhex⟩ := hex_numbered _ (mem_numbered hn)
          have hcode : ((c.toNat / 4096 * 16 + c.toNat / 256 % 16) * 16 + c.toNat / 16 % 16) * 16 +
              c.toNat % 16 = c.toNat := by omega
          have hread := stringCodes?_number (hexDigit?_digitChar (c.toNat / 4096) (by omega))
            (hexDigit?_digitChar (c.toNat / 256 % 16) (by omega))
            (hexDigit?_digitChar (c.toNat / 16 % 16) (by omega))
            (hexDigit?_digitChar (c.toNat % 16) (by omega))
          rw [hcode] at hread
          rw [hhex]
          exact ⟨'\\' :: 'u' :: _, rfl, hread⟩
        · rename_i hn
          simp only [not_or] at hn
          exact ⟨[c], (List.append_nil _).symm, stringCodes?_plain hn.1 hslash hquote⟩

/-! ## Strings -/

theorem charOfCode_toNat (c : Char) : charOfCode c.toNat = c := by
  have hvalid : c.toNat.isValidChar := c.valid
  rw [charOfCode, if_pos hvalid, Char.ofNat_toNat]

theorem isHighSurrogate_toNat (c : Char) : isHighSurrogate c.toNat = false := by
  have hvalid : c.toNat < 0xD800 ∨ 0xDFFF < c.toNat ∧ c.toNat < 0x110000 := c.valid
  simp only [isHighSurrogate, Bool.and_eq_false_iff, decide_eq_false_iff_not]
  omega

/-- Characters are no halves of pairs, so none of them are joined. -/
theorem charsOfCodes_map_toNat (cs : List Char) : charsOfCodes (cs.map Char.toNat) = cs := by
  induction cs with
  | nil => rfl
  | cons c cs ih =>
    cases cs with
    | nil => rw [List.map_cons, List.map_nil, charsOfCodes, charOfCode_toNat]
    | cons d cs =>
      rw [List.map_cons] at ih ⊢
      rw [List.map_cons, charsOfCodes, isHighSurrogate_toNat, Bool.false_and, if_neg (by decide),
        charOfCode_toNat, ih]

theorem escapeGlyph_ofChar (c : Char) : escapeGlyph (Glyph.ofChar c) = escapeChar c := by
  have hstray : (Glyph.ofChar c).isStray = false := by
    unfold Glyph.isStray Glyph.ofChar
    by_cases hc : c = Utf8.replacement
    · subst hc
      decide
    · simp [hc]
  rw [escapeGlyph, hstray]
  rfl

theorem stringCodes?_escaped (cs : List Char) : ∃ written,
    (cs.map Glyph.ofChar).flatMap escapeGlyph = Text.ofChars written ∧ ∀ rest,
      stringCodes? (written ++ '\x22' :: rest) = some (cs.map Char.toNat, rest) := by
  induction cs with
  | nil => exact ⟨[], rfl, fun _ => rfl⟩
  | cons c cs ih =>
    obtain ⟨written, hwritten, hread⟩ := ih
    obtain ⟨escaped, hescaped, hcode⟩ := stringCodes?_escapeChar c
    refine ⟨escaped ++ written, ?_, fun rest => ?_⟩
    · rw [List.map_cons, List.flatMap_cons, escapeGlyph_ofChar, hescaped, hwritten, Text.ofChars_append]
    · rw [List.append_assoc, hcode, hread]
      rfl

theorem lexeme?_of_not_isSpace {c : Char} (h : isSpace c = false) (cs : List Char) :
    lexeme? (c :: cs) = lexemeFrom? c cs := by
  rw [lexeme?, List.dropWhile_cons_of_neg (by rw [h]; decide)]

/-- A string is read back, whatever follows it. -/
theorem lexeme?_renderString {t : Text} (h : t.IsUtf8) (rest : Text) :
    lexeme? (renderString t ++ rest).chars = some (.string t, rest.chars) := by
  obtain ⟨cs, rfl⟩ := h
  obtain ⟨written, hwritten, hread⟩ := stringCodes?_escaped cs
  have hchars : (renderString (Text.ofChars cs) ++ rest).chars =
      '\x22' :: (written ++ '\x22' :: rest.chars) := by
    rw [renderString, Text.glyphs_ofChars, hwritten, ← Text.ofChars_cons]
    simp only [List.append_assoc, Text.chars_ofChars_append, Text.chars_ofChar_append,
      List.cons_append]
  rw [hchars, lexeme?_of_not_isSpace (by decide)]
  simp only [lexemeFrom?, hread, Option.map_some, charsOfCodes_map_toNat]

/-! ## Numbers -/

/-- Nothing that could belong to a number in front of it. -/
def EndsNumber (rest : List Char) : Prop :=
  ∀ c tail, rest = c :: tail → c.isDigit = false ∧ c ≠ '.' ∧ c ≠ 'e' ∧ c ≠ 'E'

theorem fractionPart?_of_endsNumber {rest : List Char} (h : EndsNumber rest) :
    fractionPart? rest = some ([], rest) := by
  unfold fractionPart?
  split
  · rename_i tail
    exact absurd rfl (h _ tail rfl).2.1
  · rfl

theorem exponentPart?_of_endsNumber {rest : List Char} (h : EndsNumber rest) :
    exponentPart? rest = some ([], rest) := by
  unfold exponentPart?
  split
  · rename_i tail
    exact absurd rfl (h _ tail rfl).2.2.1
  · rename_i tail
    exact absurd rfl (h _ tail rfl).2.2.2
  · rfl

theorem takeWhile_isDigit {rest : List Char} (h : EndsNumber rest) :
    rest.takeWhile Char.isDigit = [] ∧ rest.dropWhile Char.isDigit = rest := by
  cases rest with
  | nil => exact ⟨rfl, rfl⟩
  | cons c tail =>
    have hc := (h c tail rfl).1
    exact ⟨List.takeWhile_cons_of_neg (by rw [hc]; decide),
      List.dropWhile_cons_of_neg (by rw [hc]; decide)⟩

theorem integerPart?_append {ds rest : List Char} (hdigits : ∀ d ∈ ds, d.isDigit) (hne : ds ≠ [])
    (hzero : ∀ tail, ds = '0' :: tail → tail = []) (h : EndsNumber rest) :
    integerPart? (ds ++ rest) = some (ds, rest) := by
  obtain ⟨htake, hdrop⟩ := takeWhile_isDigit h
  have hrun : digitRun? (ds ++ rest) = some (ds, rest) := by
    rw [digitRun?, List.takeWhile_append_of_pos hdigits, List.dropWhile_append_of_pos hdigits, htake,
      hdrop, List.append_nil, if_neg (by simpa using hne)]
  unfold integerPart?
  split
  · rename_i tail heq
    cases ds with
    | nil => exact absurd rfl hne
    | cons d ds =>
      cases heq
      rw [hzero ds rfl]
      rfl
  · exact hrun

theorem unsignedNumber?_append {ds rest : List Char} (hdigits : ∀ d ∈ ds, d.isDigit) (hne : ds ≠ [])
    (hzero : ∀ tail, ds = '0' :: tail → tail = []) (h : EndsNumber rest) :
    unsignedNumber? (ds ++ rest) = some (ds, rest) := by
  simp only [unsignedNumber?, integerPart?_append hdigits hne hzero h,
    fractionPart?_of_endsNumber h, exponentPart?_of_endsNumber h, Option.bind_eq_bind,
    Option.bind_some, List.append_nil]

theorem number?_of_ne_minus {c : Char} (h : c ≠ '-') (cs : List Char) :
    number? (c :: cs) = unsignedNumber? (c :: cs) := by
  unfold number?
  split
  · rename_i heq
    cases heq
    exact absurd rfl h
  · rfl

theorem lexeme?_number {c : Char} {cs ds rest : List Char} (hc : c = '-' ∨ c.isDigit)
    (h : number? (c :: cs) = some (ds, rest)) :
    lexeme? (c :: cs) = some (.scalar (.number (Text.ofChars ds)), rest) := by
  have hspace : isSpace c = false := by
    simp only [isSpace, Bool.or_eq_false_iff, beq_eq_false_iff_ne]
    refine ⟨⟨⟨?_, ?_⟩, ?_⟩, ?_⟩ <;> rintro rfl <;> simp [Char.isDigit] at hc
  rw [lexeme?_of_not_isSpace hspace]
  unfold lexemeFrom?
  split
  case h_11 => rw [h, Option.map_some]
  all_goals exact absurd hc (by decide)

theorem ofChar_digitChar : ∀ d < 10, Text.ofChar (digitChar d) = [digitByte d] := by decide

theorem isDigit_digitChar : ∀ d < 10, (digitChar d).isDigit := by decide

theorem eq_zero_of_digitChar : ∀ d < 10, digitChar d = '0' → d = 0 := by decide

theorem numeral_eq_ofChars (n : Nat) :
    Text.numeral 10 n = Text.ofChars ((digits 10 n).map digitChar) := by
  have hlt := digits_lt (by decide : 2 ≤ 10) n
  unfold Text.numeral
  generalize digits 10 n = ds at hlt
  induction ds with
  | nil => rfl
  | cons d ds ih =>
    rw [List.forall_mem_cons] at hlt
    rw [List.map_cons, List.map_cons, Text.ofChars_cons, ofChar_digitChar d hlt.1, ih hlt.2]
    rfl

/-- A numeral ends where no digit, fraction or exponent follows. -/
theorem unsignedNumber?_digits (n : Nat) {rest : List Char} (h : EndsNumber rest) :
    unsignedNumber? ((digits 10 n).map digitChar ++ rest) =
      some ((digits 10 n).map digitChar, rest) := by
  have hlt := digits_lt (by decide : 2 ≤ 10) n
  have hdigits : ∀ c ∈ (digits 10 n).map digitChar, c.isDigit :=
    List.forall_mem_map.2 fun d hd => isDigit_digitChar d (hlt d hd)
  have hne : (digits 10 n).map digitChar ≠ [] := by
    simp [digits_ne_nil]
  refine unsignedNumber?_append hdigits hne (fun tail htail => ?_) h
  obtain ⟨d, ds, hds, hd, rfl⟩ := List.map_eq_cons_iff.1 htail
  have hd0 : d = 0 := eq_zero_of_digitChar d (hlt d (by rw [hds]; exact List.mem_cons_self)) hd
  have hn : n = 0 := by
    by_contra hn
    exact head_digits_ne_zero hn hds hd0
  rw [hn, show digits 10 0 = [0] by rw [digits]; rfl] at hds
  cases hds
  rfl

/-- A number is read back where no digit, fraction or exponent follows. -/
theorem lexeme?_decimal (k : Int) {rest : Text} (hrest : EndsNumber rest.chars) :
    lexeme? (Text.decimal k ++ rest).chars = some (.scalar (.ofInt k), rest.chars) := by
  cases k with
  | ofNat n =>
    have hread := unsignedNumber?_digits n hrest
    obtain ⟨d, ds, hds⟩ := List.exists_cons_of_ne_nil (digits_ne_nil 10 n)
    have hmem : d ∈ digits 10 n := by
      rw [hds]
      exact List.mem_cons_self
    have hdigit := isDigit_digitChar d (digits_lt (by decide) n d hmem)
    have hminus : digitChar d ≠ '-' := by
      intro heq
      rw [heq] at hdigit
      exact absurd hdigit (by decide)
    have hnumber : number? ((digits 10 n).map digitChar ++ rest.chars) =
        some ((digits 10 n).map digitChar, rest.chars) := by
      rw [← hread, hds]
      exact number?_of_ne_minus hminus _
    rw [Text.decimal, numeral_eq_ofChars, Text.chars_ofChars_append]
    rw [Value.ofInt, Text.decimal, numeral_eq_ofChars]
    rw [hds] at hnumber ⊢
    exact lexeme?_number (.inr hdigit) hnumber
  | negSucc n =>
    have hnumber : number? ('-' :: ((digits 10 (n + 1)).map digitChar ++ rest.chars)) =
        some ('-' :: (digits 10 (n + 1)).map digitChar, rest.chars) := by
      rw [number?, unsignedNumber?_digits _ hrest]
      rfl
    have htext : Text.decimal (.negSucc n) =
        Text.ofChars ('-' :: (digits 10 (n + 1)).map digitChar) := by
      rw [Text.decimal, numeral_eq_ofChars, Text.ofChars_cons]
      rfl
    rw [Value.ofInt, htext, Text.chars_ofChars_append]
    exact lexeme?_number (.inl rfl) hnumber

end CellAsm.Json
