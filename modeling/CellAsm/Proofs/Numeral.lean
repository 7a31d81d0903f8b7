-- SUMMARY: Numbers survive being written, padded, trimmed and read again.
import CellAsm.Text.Integer
import CellAsm.Token.Basic

/-!
# Numbers as text

Between the passes a number travels as the contents of a token. It is written in
decimal, padded to the width of the token it replaces, trimmed and read again.
None of this changes it.
-/
namespace CellAsm

/-! ## Digits -/

theorem readDigits?_append (base acc : Nat) (s t : Text) :
    readDigits? base acc (s ++ t) = (readDigits? base acc s).bind fun a => readDigits? base a t := by
  induction s generalizing acc with
  | nil => rfl
  | cons b s ih =>
    simp only [List.cons_append, readDigits?]
    cases digitValue? base b with
    | none => rfl
    | some d => exact ih (acc * base + d)

theorem digitValue?_digitByte {base d : Nat} (hbase : base ≤ 16) (hd : d < base) :
    digitValue? base (digitByte d) = some d := by
  have htoNat : (digitByte d).toNat = if d < 10 then 48 + d else 87 + d := by
    unfold digitByte
    split
    · rw [UInt8.toNat_ofNat', Nat.mod_eq_of_lt (by omega)]
    · rw [UInt8.toNat_ofNat', Nat.mod_eq_of_lt (by omega)]
  by_cases h10 : d < 10
  · rw [if_pos h10] at htoNat
    have hrange : 48 ≤ 48 + d ∧ 48 + d ≤ 57 := by omega
    simp [digitValue?, htoNat, hrange, hd]
  · rw [if_neg h10] at htoNat
    have hlow : ¬(48 ≤ 87 + d ∧ 87 + d ≤ 57) := by omega
    have hrange : 97 ≤ 87 + d ∧ 87 + d ≤ 102 := by omega
    simp [digitValue?, htoNat, hlow, hrange, hd]

theorem exists_digitValue?_of_readDigits? {base acc n : Nat} {t : Text}
    (h : readDigits? base acc t = some n) : ∀ b ∈ t, ∃ d, digitValue? base b = some d := by
  induction t generalizing acc with
  | nil => intro b hb; cases hb
  | cons c t ih =>
    unfold readDigits? at h
    split at h
    · rename_i d hd
      intro b hb
      rcases List.mem_cons.1 hb with rfl | hb
      · exact ⟨d, hd⟩
      · exact ih h b hb
    · cases h

theorem digits_ne_nil (base n : Nat) : digits base n ≠ [] := by
  unfold digits
  split <;> simp

theorem digits_lt {base : Nat} (hbase : 2 ≤ base) (n : Nat) : ∀ d ∈ digits base n, d < base := by
  fun_induction digits base n with
  | case1 n h =>
    intro d hd
    obtain rfl := List.mem_singleton.1 hd
    omega
  | case2 n h ih =>
    intro d hd
    rcases List.mem_append.1 hd with hd | hd
    · exact ih d hd
    · obtain rfl := List.mem_singleton.1 hd
      exact Nat.mod_lt n (by omega)

/-- A number has no zeros in front. -/
theorem head_digits_ne_zero {base n d : Nat} {ds : List Nat} (hn : n ≠ 0)
    (h : digits base n = d :: ds) : d ≠ 0 := by
  fun_induction digits base n generalizing ds with
  | case1 n _ =>
    cases h
    exact hn
  | case2 n hlarge ih =>
    simp only [not_or, Nat.not_lt] at hlarge
    have hquotient : n / base ≠ 0 := Nat.div_ne_zero_iff.2 ⟨by omega, hlarge.1⟩
    rcases List.append_eq_cons_iff.1 h with ⟨hnil, _⟩ | ⟨rest, hfront, _⟩
    · exact absurd hnil (digits_ne_nil base (n / base))
    · exact ih hquotient hfront

theorem length_digits_le {base width n : Nat} (hwidth : 0 < width) (h : n < base ^ width) :
    (digits base n).length ≤ width := by
  fun_induction digits base n generalizing width with
  | case1 n _ => exact hwidth
  | case2 n hlarge ih =>
    simp only [not_or, Nat.not_lt] at hlarge
    obtain ⟨width, rfl⟩ : ∃ k, width = k + 1 := ⟨width - 1, by omega⟩
    have hquotient : n / base < base ^ width := Nat.div_lt_of_lt_mul (Nat.pow_succ' ▸ h)
    -- A number of one digit would be below the base.
    have hrest : 0 < width := by
      rcases Nat.eq_zero_or_pos width with rfl | hpos
      · rw [Nat.zero_add, Nat.pow_one] at h
        omega
      · exact hpos
    rw [List.length_append, List.length_singleton]
    exact Nat.succ_le_succ (ih hrest hquotient)

namespace Text

theorem numeral_ne_nil (base n : Nat) : numeral base n ≠ [] := by
  simp [numeral, digits_ne_nil]

theorem readDigits?_numeral {base : Nat} (h2 : 2 ≤ base) (h16 : base ≤ 16) (n : Nat) :
    readDigits? base 0 (numeral base n) = some n := by
  unfold numeral
  fun_induction digits base n with
  | case1 n h =>
    have hn : n < base := by omega
    simp [readDigits?, digitValue?_digitByte h16 hn]
  | case2 n h ih =>
    have hlast := digitValue?_digitByte h16 (Nat.mod_lt n (show 0 < base by omega))
    rw [List.map_append, readDigits?_append, ih]
    simp [readDigits?, hlast, Nat.div_add_mod']

theorem isAsciiDigit_of_mem_numeral {n : Nat} {b : UInt8} (h : b ∈ numeral 10 n) :
    isAsciiDigit b := by
  obtain ⟨d, hd, rfl⟩ := List.mem_map.1 h
  have hlt : d < 10 := digits_lt (by omega) n d hd
  simp only [isAsciiDigit, digitByte, hlt, if_true, UInt8.le_iff_toNat_le, UInt8.toNat_ofNat',
    Bool.and_eq_true, decide_eq_true_eq]
  rw [Nat.mod_eq_of_lt (by omega)]
  exact ⟨by simp, by simp; omega⟩

end Text

/-! ## Signs and markers -/

theorem splitSign_cons_minus (t : Text) : splitSign (0x2D :: t) = ([0x2D], t) := by
  simp [splitSign, isSigned, within]

theorem splitSign_cons_plus (t : Text) : splitSign (0x2B :: t) = ([0x2B], t) := by
  simp [splitSign, isSigned, within]

theorem splitSign_of_not_isSigned {t : Text} (h : isSigned t = false) : splitSign t = ([], t) := by
  simp [splitSign, h]

namespace Text

/-- A text has one of the two signs in front, or it has none. -/
theorem sign_cases (t : Text) :
    (∃ ds, t = 0x2D :: ds) ∨ (∃ ds, t = 0x2B :: ds) ∨ isSigned t = false := by
  cases t with
  | nil => exact .inr (.inr rfl)
  | cons b ds =>
    by_cases hminus : b = 0x2D
    · exact .inl ⟨ds, by rw [hminus]⟩
    · by_cases hplus : b = 0x2B
      · exact .inr (.inl ⟨ds, by rw [hplus]⟩)
      · exact .inr (.inr (by simp [isSigned, hminus, hplus]))

theorem splitSign_append (t : Text) : (splitSign t).1 ++ (splitSign t).2 = t := by
  rcases sign_cases t with ⟨ds, rfl⟩ | ⟨ds, rfl⟩ | h
  · rw [splitSign_cons_minus]
    rfl
  · rw [splitSign_cons_plus]
    rfl
  · rw [splitSign_of_not_isSigned h]
    rfl

theorem splitSign_fst (t : Text) :
    (splitSign t).1 = [0x2D] ∨ (splitSign t).1 = [0x2B] ∨ (splitSign t).1 = [] := by
  rcases sign_cases t with ⟨ds, rfl⟩ | ⟨ds, rfl⟩ | h
  · rw [splitSign_cons_minus]
    exact .inl rfl
  · rw [splitSign_cons_plus]
    exact .inr (.inl rfl)
  · rw [splitSign_of_not_isSigned h]
    exact .inr (.inr rfl)

/-- The number behind the sign of a literal: digits of the base that a marker in front of them
names, and nothing else. -/
def toMagnitude? : Text → Option Nat
  | 0x30 :: 0x78 :: ds => ofDigits? 16 ds
  | 0x30 :: 0x58 :: ds => ofDigits? 16 ds
  | 0x30 :: 0x62 :: ds => ofDigits? 2 ds
  | 0x30 :: 0x42 :: ds => ofDigits? 2 ds
  | t => ofDigits? 10 t

theorem toMagnitude?_eq (t : Text) : t.toMagnitude? = ofDigits? (splitBase t).1 (splitBase t).2 := by
  unfold toMagnitude?
  split
  · simp [splitBase, isMarked, within]
  · simp [splitBase, isMarked, within]
  · simp [splitBase, isMarked, within]
  · simp [splitBase, isMarked, within]
  · rename_i hlower hupper hlowerBinary hupperBinary
    cases t with
    | nil => rfl
    | cons b t =>
      cases t with
      | nil => simp [splitBase, isMarked]
      | cons c ds =>
        by_cases hb : b = 0x30
        · subst hb
          have hx : c ≠ 0x78 := fun h => hlower ds (by rw [h])
          have hX : c ≠ 0x58 := fun h => hupper ds (by rw [h])
          have hy : c ≠ 0x62 := fun h => hlowerBinary ds (by rw [h])
          have hY : c ≠ 0x42 := fun h => hupperBinary ds (by rw [h])
          simp [splitBase, isMarked, hx, hX, hy, hY]
        · simp [splitBase, isMarked, hb]

theorem ofDigits?_of_ne_nil {base : Nat} {t : Text} (h : t ≠ []) :
    ofDigits? base t = readDigits? base 0 t := by
  cases t with
  | nil => exact absurd rfl h
  | cons b rest => rfl

/-- A sign and an underscore are no digits. -/
theorem ofDigits?_of_foreign {base : Nat} {t : Text} (h : t.any isForeign) :
    ofDigits? base t = none := by
  obtain ⟨b, hb, hforeign⟩ := List.any_eq_true.1 h
  rw [ofDigits?_of_ne_nil (List.ne_nil_of_mem hb), Option.eq_none_iff_forall_ne_some]
  intro n hn
  obtain ⟨d, hd⟩ := exists_digitValue?_of_readDigits? hn b hb
  simp only [isForeign, Bool.or_eq_true, beq_iff_eq] at hforeign
  rcases hforeign with (rfl | rfl) | rfl <;> simp [digitValue?] at hd

theorem isForeign_of_isSigned {t : Text} (h : isSigned t) : t.any isForeign := by
  rcases sign_cases t with ⟨ds, rfl⟩ | ⟨ds, rfl⟩ | hnot
  · rfl
  · rfl
  · rw [hnot] at h
    cases h

/-- What the general reader of integers takes, if nothing foreign is in it, are digits. -/
theorem ofSigned?_of_digits {base : Nat} {t : Text} (h : t.any isForeign = false) :
    ofSigned? base t = (ofDigits? base t).map Int.ofNat := by
  have hsign : isSigned t = false := by
    rw [Bool.eq_false_iff]
    intro hsigned
    rw [isForeign_of_isSigned hsigned] at h
    cases h
  rw [ofSigned?, splitSign_of_not_isSigned hsign]
  rfl

/-- Reading an integer: first its sign, then its magnitude. The check of what stands behind the
sign and the marker leaves only digits there. -/
theorem toInt?_eq (t : Text) :
    t.toInt? = (splitSign t).2.toMagnitude?.map fun (n : Nat) => applySign (splitSign t).1 n := by
  simp only [toInt?, toMagnitude?_eq]
  generalize splitBase (splitSign t).2 = parts
  obtain ⟨base, ds⟩ := parts
  dsimp only
  cases hforeign : ds.any isForeign with
  | true =>
    rw [ofDigits?_of_foreign hforeign]
    cases ofSigned? base ds with
    | none => rfl
    | some v => simp
  | false =>
    rw [ofSigned?_of_digits hforeign]
    cases ds with
    | nil => rfl
    | cons b ds =>
      cases ofDigits? base (b :: ds) with
      | none => rfl
      | some n => simp [applySign]

/-! ## Decimal numbers -/

/-- A text of decimal digits has no prefix that would change its base. -/
theorem toMagnitude?_of_digits {t : Text} (h : t.all isAsciiDigit) :
    t.toMagnitude? = ofDigits? 10 t := by
  unfold toMagnitude?
  split
  · simp [isAsciiDigit] at h
  · simp [isAsciiDigit] at h
  · simp [isAsciiDigit] at h
  · simp [isAsciiDigit] at h
  · rfl

theorem ofDigits?_numeral (n : Nat) : ofDigits? 10 (numeral 10 n) = some n := by
  rw [ofDigits?_of_ne_nil (numeral_ne_nil 10 n), readDigits?_numeral (by decide) (by decide)]

/-- A sign in front of decimal digits is split off again. -/
theorem splitSign_sign_append {sign ds : Text}
    (hsign : sign = [0x2D] ∨ sign = [0x2B] ∨ sign = []) (hds : ds.all isAsciiDigit) :
    splitSign (sign ++ ds) = (sign, ds) := by
  rcases hsign with rfl | rfl | rfl
  · exact splitSign_cons_minus ds
  · exact splitSign_cons_plus ds
  · refine splitSign_of_not_isSigned ?_
    rcases sign_cases ds with ⟨rest, rfl⟩ | ⟨rest, rfl⟩ | h
    · simp [isAsciiDigit] at hds
    · simp [isAsciiDigit] at hds
    · exact h

/-- Reading decimal digits behind a sign, or behind none. -/
theorem toInt?_sign_append {sign ds : Text} (hsign : sign = [0x2D] ∨ sign = [0x2B] ∨ sign = [])
    (hne : ds ≠ []) (hds : ds.all isAsciiDigit) :
    (sign ++ ds).toInt? = (readDigits? 10 0 ds).map fun (n : Nat) => applySign sign n := by
  rw [toInt?_eq, splitSign_sign_append hsign hds, toMagnitude?_of_digits hds,
    ofDigits?_of_ne_nil hne]

/-- Writing an integer in decimal and reading it gives it back. -/
theorem toInt?_decimal (v : Int) : (decimal v).toInt? = some v := by
  have hdigits (n : Nat) : (numeral 10 n).all isAsciiDigit :=
    List.all_eq_true.2 fun b hb => isAsciiDigit_of_mem_numeral hb
  have hread (n : Nat) : readDigits? 10 0 (numeral 10 n) = some n :=
    readDigits?_numeral (by omega) (by omega) n
  cases v with
  | ofNat n =>
    have h := toInt?_sign_append (.inr (.inr rfl)) (numeral_ne_nil 10 n) (hdigits n)
    rw [hread] at h
    simpa [decimal, applySign] using h
  | negSucc n =>
    have h := toInt?_sign_append (.inl rfl) (numeral_ne_nil 10 (n + 1)) (hdigits (n + 1))
    rw [hread] at h
    exact h

end Text

/-! ## Trimming -/

/-- A byte that is a visible ASCII character. -/
def isVisible (b : UInt8) : Prop := 0x20 < b.toNat ∧ b.toNat < 0x80

/-- The glyph of an ASCII character. -/
def Glyph.ofAscii (b : UInt8) : Glyph := ⟨Char.ofNat b.toNat, [b]⟩

theorem isBlank_ofAscii {b : UInt8} (h : isVisible b) : isBlank (Glyph.ofAscii b).char = false := by
  obtain ⟨hlo, hhi⟩ := h
  have hvalid : b.toNat.isValidChar := .inl (by omega)
  have htoNat : (Glyph.ofAscii b).char.toNat = b.toNat := by
    rw [Glyph.ofAscii, Char.ofNat, dif_pos hvalid]
    rfl
  simp only [isBlank, CharClass.contains, htoNat, CharClass.blank, CharClass.hasCode]
  have h1 : ¬b.toNat ≤ 0x0D := by omega
  have h2 : ¬b.toNat ≤ 0x20 := by omega
  have h3 : b.toNat ≤ 0x85 := by omega
  have h4 : ¬0x85 ≤ b.toNat := by omega
  simp [h1, h2, h3, h4]

namespace Text

theorem glyphs_cons_ascii {b : UInt8} (h : b.toNat < 0x80) (rest : Text) :
    glyphs (b :: rest) = Glyph.ofAscii b :: glyphs rest := by
  have hvalid : b.toNat.isValidChar := .inl (by omega)
  have hlt : b < 0x80 := UInt8.lt_iff_toNat_lt.2 h
  have hhead : Utf8.head b rest = (Char.ofNat b.toNat, 0) := by
    simp [Utf8.head, Utf8.sequence?, hlt, hvalid]
  rw [glyphs, hhead, List.take_zero, List.drop_zero, Glyph.ofAscii]

theorem glyphs_of_visible {t : Text} (h : ∀ b ∈ t, isVisible b) :
    t.glyphs = t.map Glyph.ofAscii := by
  induction t with
  | nil => simp [glyphs]
  | cons b t ih =>
    rw [glyphs_cons_ascii (h b List.mem_cons_self).2,
      ih fun c hc => h c (List.mem_cons_of_mem _ hc), List.map_cons]

theorem dropWhile_blank_of_visible {t : Text} (h : ∀ b ∈ t, isVisible b) :
    (t.map Glyph.ofAscii).dropWhile (fun g => isBlank g.char) = t.map Glyph.ofAscii := by
  cases t with
  | nil => rfl
  | cons b t =>
    rw [List.map_cons, List.dropWhile_cons_of_neg]
    simp [isBlank_ofAscii (h b List.mem_cons_self)]

theorem flatMap_bytes_ofAscii (t : Text) : (t.map Glyph.ofAscii).flatMap Glyph.bytes = t := by
  induction t with
  | nil => rfl
  | cons b t ih => rw [List.map_cons, List.flatMap_cons, ih, Glyph.ofAscii, List.singleton_append]

/-- Trimming takes away the spaces in front of visible characters, and only those. -/
theorem trim_replicate_append (n : Nat) {t : Text} (h : ∀ b ∈ t, isVisible b) :
    trim (List.replicate n ' '.toUInt8 ++ t) = t := by
  have hfront : (glyphs (List.replicate n ' '.toUInt8 ++ t)).dropWhile (fun g => isBlank g.char) =
      t.map Glyph.ofAscii := by
    induction n with
    | zero =>
      rw [List.replicate_zero, List.nil_append, glyphs_of_visible h]
      exact dropWhile_blank_of_visible h
    | succ n ih =>
      rw [List.replicate_succ, List.cons_append, glyphs_cons_ascii (by decide),
        List.dropWhile_cons_of_pos (by decide)]
      exact ih
  have hreverse : ∀ b ∈ t.reverse, isVisible b := fun b hb => h b (List.mem_reverse.1 hb)
  unfold trim
  dsimp only
  rw [hfront, ← List.map_reverse, dropWhile_blank_of_visible hreverse, ← List.map_reverse,
    List.reverse_reverse, flatMap_bytes_ofAscii]

theorem trim_of_visible {t : Text} (h : ∀ b ∈ t, isVisible b) : t.trim = t := by
  simpa using trim_replicate_append 0 h

end Text

/-! ## Literals are visible -/

theorem isVisible_of_digitValue? {base d : Nat} {b : UInt8} (h : digitValue? base b = some d) :
    isVisible b := by
  unfold isVisible
  by_cases hdigit : 48 ≤ b.toNat ∧ b.toNat ≤ 57
  · omega
  · by_cases hlower : 97 ≤ b.toNat ∧ b.toNat ≤ 102
    · omega
    · by_cases hupper : 65 ≤ b.toNat ∧ b.toNat ≤ 70
      · omega
      · simp [digitValue?, hdigit, hlower, hupper] at h

theorem isVisible_of_readDigits? {base acc n : Nat} {t : Text}
    (h : readDigits? base acc t = some n) : ∀ b ∈ t, isVisible b := by
  intro b hb
  obtain ⟨d, hd⟩ := exists_digitValue?_of_readDigits? h b hb
  exact isVisible_of_digitValue? hd

namespace Text

theorem isVisible_of_ofDigits? {base n : Nat} {t : Text} (h : ofDigits? base t = some n) :
    ∀ b ∈ t, isVisible b := by
  cases t with
  | nil => cases h
  | cons b rest => exact isVisible_of_readDigits? h

theorem isVisible_of_toMagnitude? {n : Nat} {t : Text} (h : t.toMagnitude? = some n) :
    ∀ b ∈ t, isVisible b := by
  have hprefix {x y : UInt8} {ds : Text} (hx : isVisible x) (hy : isVisible y)
      (hds : ∀ b ∈ ds, isVisible b) : ∀ b ∈ x :: y :: ds, isVisible b :=
    List.forall_mem_cons.2 ⟨hx, List.forall_mem_cons.2 ⟨hy, hds⟩⟩
  unfold toMagnitude? at h
  split at h
  · exact hprefix ⟨by decide, by decide⟩ ⟨by decide, by decide⟩ (isVisible_of_ofDigits? h)
  · exact hprefix ⟨by decide, by decide⟩ ⟨by decide, by decide⟩ (isVisible_of_ofDigits? h)
  · exact hprefix ⟨by decide, by decide⟩ ⟨by decide, by decide⟩ (isVisible_of_ofDigits? h)
  · exact hprefix ⟨by decide, by decide⟩ ⟨by decide, by decide⟩ (isVisible_of_ofDigits? h)
  · exact isVisible_of_ofDigits? h

/-- An integer literal consists of visible characters. -/
theorem isVisible_of_toInt? {v : Int} {t : Text} (h : t.toInt? = some v) :
    ∀ b ∈ t, isVisible b := by
  rw [toInt?_eq] at h
  obtain ⟨n, hn, _⟩ := Option.map_eq_some_iff.1 h
  have hsign : ∀ b ∈ (splitSign t).1, isVisible b := by
    rcases splitSign_fst t with hs | hs | hs
    · rw [hs]; exact List.forall_mem_singleton.2 ⟨by decide, by decide⟩
    · rw [hs]; exact List.forall_mem_singleton.2 ⟨by decide, by decide⟩
    · rw [hs]; exact List.forall_mem_nil _
  rw [← splitSign_append t]
  exact List.forall_mem_append.2 ⟨hsign, isVisible_of_toMagnitude? hn⟩

theorem trim_of_toInt? {v : Int} {t : Text} (h : t.toInt? = some v) : t.trim = t :=
  trim_of_visible (isVisible_of_toInt? h)

end Text

/-! ## Padding -/

theorem readDigits?_replicate_zero {base : Nat} (hbase : 0 < base) (n : Nat) (ds : Text) :
    readDigits? base 0 (List.replicate n '0'.toUInt8 ++ ds) = readDigits? base 0 ds := by
  induction n with
  | zero => rfl
  | succ n ih =>
    have hzero : digitValue? base '0'.toUInt8 = some 0 := if_pos hbase
    rw [List.replicate_succ, List.cons_append, readDigits?, hzero, Nat.zero_mul]
    exact ih

/-- Padding fills up what is missing, which is nothing if the numeral is wide enough. -/
theorem padNumeral_eq (width : Nat) (t : Text) :
    padNumeral width t = if (splitSign t).2 ≠ [] ∧ (splitSign t).2.all isAsciiDigit then
      (splitSign t).1 ++ List.replicate (width - t.length) '0'.toUInt8 ++ (splitSign t).2
    else List.replicate (width - t.length) ' '.toUInt8 ++ t := by
  have happend := Text.splitSign_append t
  simp only [padNumeral, copies]
  split
  · have hnone : width - t.length = 0 := by omega
    simp [hnone, happend]
  · have hmissing : ((width : Int) - t.length).toNat = width - t.length := by omega
    rw [hmissing]

/-- A padded literal, once trimmed, is a literal of the same integer. -/
theorem toInt?_trim_padNumeral {t : Text} {v : Int} (h : t.toInt? = some v) (width : Nat) :
    (padNumeral width t).trim.toInt? = some v := by
  have hsign := Text.splitSign_fst t
  have happend := Text.splitSign_append t
  rw [padNumeral_eq]
  generalize splitSign t = parts at hsign happend ⊢
  obtain ⟨sign, ds⟩ := parts
  dsimp only at hsign happend ⊢
  split
  · rename_i hdecimal
    obtain ⟨hne, hds⟩ := hdecimal
    -- the zeros go between the sign and the digits, where they count for nothing
    have hzeros : (List.replicate (width - t.length) '0'.toUInt8 ++ ds).all isAsciiDigit := by
      have hzero : isAsciiDigit '0'.toUInt8 = true := by decide
      simp [List.all_append, hds, hzero]
    have hpadded : Text.toInt? (sign ++ (List.replicate (width - t.length) '0'.toUInt8 ++ ds)) =
        some v := by
      rw [Text.toInt?_sign_append hsign (by simp [hne]) hzeros,
        readDigits?_replicate_zero (by decide),
        ← Text.toInt?_sign_append hsign hne hds, happend]
      exact h
    rw [List.append_assoc, Text.trim_of_toInt? hpadded]
    exact hpadded
  · rw [Text.trim_replicate_append _ (Text.isVisible_of_toInt? h)]
    exact h

namespace Token

/-- The integer that the text of a token denotes. -/
def integer? (t : Token) : Option Int := t.contents.trim.toInt?

/-- A token that carries a literal denotes its integer, whatever it is padded to. -/
theorem integer?_carrying (o : Token) (k : TokenKind) {t : Text} {v : Int}
    (h : t.toInt? = some v) : (o.carrying k t).integer? = some v :=
  toInt?_trim_padNumeral h o.contents.length

theorem integer?_carrying_decimal (o : Token) (k : TokenKind) (v : Int) :
    (o.carrying k (Text.decimal v)).integer? = some v :=
  integer?_carrying o k (Text.toInt?_decimal v)

end Token

end CellAsm
