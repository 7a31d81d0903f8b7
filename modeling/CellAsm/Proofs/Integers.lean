-- SUMMARY: The grammar of integer literals, and padding as seen by it.
import CellAsm.Proofs.Numeral
import CellAsm.Proofs.Utf8
import Mathlib.Data.Nat.Digits.Defs

/-!
# Integer literals

An integer is written as an optional sign, a marker of the base unless it is ten, and
one or more digits. This is all that is read as an integer, and what is read is the
integer that the digits stand for. A literal that is padded to a width is one of the same
integer again, behind blanks if it has a marker.
-/
namespace CellAsm

/-! ## Digits -/

/-- The byte writes the digit. A letter may have either case. -/
inductive WritesDigit : UInt8 → Nat → Prop
  | numeral {d : Nat} (hd : d < 10) : WritesDigit (UInt8.ofNat ('0'.toNat + d)) d
  | lower {d : Nat} (hd : d < 6) : WritesDigit (UInt8.ofNat ('a'.toNat + d)) (10 + d)
  | upper {d : Nat} (hd : d < 6) : WritesDigit (UInt8.ofNat ('A'.toNat + d)) (10 + d)

/-- The text writes the digits of a number in the base, the most significant first. -/
def Text.Writes (base : Nat) : Text → List Nat → Prop :=
  List.Forall₂ fun b d => WritesDigit b d ∧ d < base

theorem writesDigit_iff {b : UInt8} {d : Nat} : WritesDigit b d ↔
    b.toNat = 48 + d ∧ d < 10 ∨
    (b.toNat = 87 + d ∨ b.toNat = 55 + d) ∧ 10 ≤ d ∧ d < 16 := by
  constructor
  · rintro (hd | hd | hd)
    · exact .inl ⟨Utf8.toNat_byte (show 48 + d < 256 by omega), hd⟩
    · rename_i d
      have hb := Utf8.toNat_byte (show 97 + d < 256 by omega)
      exact .inr ⟨.inl (hb.trans (by omega)), by omega⟩
    · rename_i d
      have hb := Utf8.toNat_byte (show 65 + d < 256 by omega)
      exact .inr ⟨.inr (hb.trans (by omega)), by omega⟩
  · rintro (⟨hb, hd⟩ | ⟨hb, hlo, hhi⟩)
    · rw [← Utf8.ofNat_eq_of_toNat hb]
      exact .numeral hd
    · obtain ⟨k, rfl⟩ := Nat.exists_eq_add_of_le hlo
      rcases hb with hb | hb
      · rw [← Utf8.ofNat_eq_of_toNat (hb.trans (Nat.add_assoc 87 10 k).symm)]
        exact .lower (by omega)
      · rw [← Utf8.ofNat_eq_of_toNat (hb.trans (Nat.add_assoc 55 10 k).symm)]
        exact .upper (by omega)

theorem digitValue?_eq_some_iff {base d : Nat} {b : UInt8} :
    digitValue? base b = some d ↔ WritesDigit b d ∧ d < base := by
  rw [writesDigit_iff]
  unfold digitValue?
  dsimp only
  generalize b.toNat = n
  rw [Option.ite_none_right_eq_some, Option.some.injEq]
  split
  · omega
  · split
    · omega
    · split
      · omega
      · omega

/-- Digits are read behind others as behind one digit with the value of these. -/
theorem readDigits?_eq_some_iff {base acc n : Nat} {t : Text} : readDigits? base acc t = some n ↔
    ∃ ds, t.Writes base ds ∧ n = Nat.ofDigits base (acc :: ds).reverse := by
  induction t generalizing acc with
  | nil =>
    constructor
    · rintro ⟨⟩
      exact ⟨[], .nil, Nat.ofDigits_singleton.symm⟩
    · rintro ⟨ds, hds, rfl⟩
      cases hds
      exact congrArg some Nat.ofDigits_singleton.symm
  | cons b t ih =>
    have hnext (d : Nat) (ds : List Nat) : Nat.ofDigits base ((acc * base + d) :: ds).reverse =
        Nat.ofDigits base (acc :: d :: ds).reverse := by
      rw [List.reverse_cons, List.reverse_cons, List.reverse_cons, List.append_assoc,
        Nat.ofDigits_append, Nat.ofDigits_append, Nat.ofDigits_singleton, List.singleton_append,
        Nat.ofDigits_cons, Nat.ofDigits_singleton, Nat.mul_comm acc, Nat.add_comm _ d]
    constructor
    · intro h
      unfold readDigits? at h
      split at h
      · rename_i d hd
        obtain ⟨ds, hds, rfl⟩ := ih.1 h
        exact ⟨d :: ds, .cons (digitValue?_eq_some_iff.1 hd) hds, hnext d ds⟩
      · cases h
    · rintro ⟨ds, hds, rfl⟩
      cases hds with
      | @cons _ d _ ds hd hds =>
        rw [readDigits?, digitValue?_eq_some_iff.2 hd]
        exact ih.2 ⟨ds, hds, (hnext d ds).symm⟩

theorem Text.ofDigits?_eq_some_iff {base n : Nat} {t : Text} : t.ofDigits? base = some n ↔
    t ≠ [] ∧ ∃ ds, t.Writes base ds ∧ n = Nat.ofDigits base ds.reverse := by
  cases t with
  | nil =>
    constructor
    · rintro ⟨⟩
    · rintro ⟨hne, _⟩
      exact absurd rfl hne
  | cons b t =>
    have hread : Text.ofDigits? base (b :: t) = readDigits? base 0 (b :: t) := rfl
    rw [hread, readDigits?_eq_some_iff, and_iff_right (List.cons_ne_nil b t)]
    simp only [Nat.ofDigits_reverse_zero_cons]

/-! ## The grammar -/

/-- A sign or none, and the factor that it stands for. -/
inductive Sign : Text → Int → Prop
  | absent : Sign [] 1
  | plus : Sign "+" 1
  | minus : Sign "-" (-1)

/-- What stands in front of the digits of a base. -/
inductive BaseMarker : Text → Nat → Prop
  | decimal : BaseMarker [] 10
  | lowerHex : BaseMarker "0x" 16
  | upperHex : BaseMarker "0X" 16
  | lowerBinary : BaseMarker "0b" 2
  | upperBinary : BaseMarker "0B" 2

/-- The text is a literal of the integer. -/
inductive Text.Denotes : Text → Int → Prop
  | literal {sign marker t : Text} {σ : Int} {base : Nat} {ds : List Nat} (hsign : Sign sign σ)
      (hmarker : BaseMarker marker base) (hne : t ≠ []) (hds : t.Writes base ds) :
      Denotes (sign ++ (marker ++ t)) (σ * (Nat.ofDigits base ds.reverse : Nat))

namespace Sign

variable {sign : Text} {σ : Int}

theorem applySign_eq (h : Sign sign σ) (n : Nat) : applySign sign n = σ * n := by
  cases h with
  | absent => exact (Int.one_mul n).symm
  | plus => exact (Int.one_mul n).symm
  | minus => exact (Int.neg_one_mul n).symm

theorem splitSign_append (h : Sign sign σ) {t : Text} (ht : splitSign t = ([], t)) :
    splitSign (sign ++ t) = (sign, t) := by
  cases h with
  | absent => exact ht
  | plus => exact splitSign_cons_plus t
  | minus => exact splitSign_cons_minus t

theorem exists_splitSign (t : Text) : ∃ σ, Sign (splitSign t).1 σ := by
  rcases Text.splitSign_fst t with h | h | h
  · exact ⟨-1, h ▸ .minus⟩
  · exact ⟨1, h ▸ .plus⟩
  · exact ⟨1, h ▸ .absent⟩

end Sign

namespace Text

theorem all_isAsciiDigit_of_ofDigits? {t : Text} {n : Nat} (h : t.ofDigits? 10 = some n) :
    t.all isAsciiDigit := by
  rw [List.all_eq_true]
  intro b hb
  rw [ofDigits?_of_ne_nil (List.ne_nil_of_mem hb)] at h
  obtain ⟨d, hd⟩ := exists_digitValue?_of_readDigits? h b hb
  rw [digitValue?_eq_some_iff, writesDigit_iff] at hd
  simp only [isAsciiDigit, Bool.and_eq_true, decide_eq_true_eq, UInt8.le_iff_toNat_le,
    UInt8.reduceToNat]
  omega

/-- A magnitude is read behind the marker of its base. -/
theorem toMagnitude?_eq_some_iff {t : Text} {n : Nat} : t.toMagnitude? = some n ↔
    ∃ marker digits base, BaseMarker marker base ∧ t = marker ++ digits ∧
      ofDigits? base digits = some n := by
  constructor
  · intro h
    unfold toMagnitude? at h
    split at h
    · exact ⟨_, _, _, .lowerHex, rfl, h⟩
    · exact ⟨_, _, _, .upperHex, rfl, h⟩
    · exact ⟨_, _, _, .lowerBinary, rfl, h⟩
    · exact ⟨_, _, _, .upperBinary, rfl, h⟩
    · exact ⟨_, _, _, .decimal, rfl, h⟩
  · rintro ⟨marker, digits, base, hmarker, rfl, h⟩
    cases hmarker with
    | decimal =>
      rw [List.nil_append, toMagnitude?_of_digits (all_isAsciiDigit_of_ofDigits? h)]
      exact h
    | lowerHex => exact h
    | upperHex => exact h
    | lowerBinary => exact h
    | upperBinary => exact h

/-- A magnitude does not start with a sign. -/
theorem splitSign_of_toMagnitude? {t : Text} {n : Nat} (h : t.toMagnitude? = some n) :
    splitSign t = ([], t) := by
  refine splitSign_of_not_isSigned ?_
  rcases sign_cases t with ⟨ds, rfl⟩ | ⟨ds, rfl⟩ | hnot
  · cases h
  · cases h
  · exact hnot

/-- An integer is read behind its sign. -/
theorem toInt?_eq_some_iff {t : Text} {v : Int} : t.toInt? = some v ↔
    ∃ sign magnitude σ n, Sign sign σ ∧ t = sign ++ magnitude ∧
      toMagnitude? magnitude = some n ∧ v = σ * (n : Nat) := by
  constructor
  · intro h
    rw [toInt?_eq] at h
    obtain ⟨n, hn, rfl⟩ := Option.map_eq_some_iff.1 h
    obtain ⟨σ, hsign⟩ := Sign.exists_splitSign t
    exact ⟨_, _, σ, n, hsign, (splitSign_append t).symm, hn, hsign.applySign_eq n⟩
  · rintro ⟨sign, magnitude, σ, n, hsign, rfl, hn, rfl⟩
    rw [toInt?_eq, hsign.splitSign_append (splitSign_of_toMagnitude? hn), hn, Option.map_some,
      hsign.applySign_eq]

theorem toInt?_eq_some_iff_denotes {t : Text} {v : Int} : t.toInt? = some v ↔ t.Denotes v := by
  constructor
  · intro h
    obtain ⟨sign, magnitude, σ, n, hsign, rfl, hn, rfl⟩ := toInt?_eq_some_iff.1 h
    obtain ⟨marker, digits, base, hmarker, rfl, hdigits⟩ := toMagnitude?_eq_some_iff.1 hn
    obtain ⟨hne, ds, hds, rfl⟩ := ofDigits?_eq_some_iff.1 hdigits
    exact .literal hsign hmarker hne hds
  · rintro ⟨hsign, hmarker, hne, hds⟩
    have hdigits := ofDigits?_eq_some_iff.2 ⟨hne, _, hds, rfl⟩
    have hn := toMagnitude?_eq_some_iff.2 ⟨_, _, _, hmarker, rfl, hdigits⟩
    exact toInt?_eq_some_iff.2 ⟨_, _, _, _, hsign, rfl, hn, rfl⟩

/-- What is read as an integer is exactly a literal, and gives the integer that it denotes.
The decimal form of an integer is one of its literals. -/
theorem toInt?_exact : (∀ (t : Text) (v : Int), t.toInt? = some v ↔ t.Denotes v) ∧
    ∀ v, (decimal v).toInt? = some v :=
  ⟨fun _ _ => toInt?_eq_some_iff_denotes, toInt?_decimal⟩

end Text

/-! ## Padding -/

theorem length_padNumeral (width : Nat) (t : Text) :
    (padNumeral width t).length = max width t.length := by
  have happend := congrArg List.length (Text.splitSign_append t)
  rw [List.length_append] at happend
  rw [padNumeral_eq]
  split
  · simp only [List.length_append, List.length_replicate]
    omega
  · simp only [List.length_append, List.length_replicate]
    omega

/-- A token that carries a literal is as wide as the wider of the literal and the token it
stands for, and denotes the same integer. -/
theorem Token.carrying_exact (t v : Token) (h : v.contents.toInt?.isSome) :
    (t.carrying v.kind v.contents).contents.length = max t.contents.length v.contents.length ∧
    (t.carrying v.kind v.contents).contents.trim.toInt? = v.contents.toInt? := by
  refine ⟨length_padNumeral _ _, ?_⟩
  obtain ⟨n, hn⟩ := Option.isSome_iff_exists.1 h
  rw [hn]
  exact integer?_carrying t v.kind hn

namespace Sample

def counter : Token where
  kind := .identifier
  contents := "counter"

def negative : Token where
  kind := .constant
  contents := "-12"

def hexadecimal : Token where
  kind := .constant
  contents := "+0X1f"

/-- Zeros stand behind the sign of a decimal number, and blanks in front of a marker. -/
theorem counter_carrying :
    (counter.carrying negative.kind negative.contents).contents = Text.ofString "-000012" ∧
    (counter.carrying negative.kind negative.contents).contents.length = max 7 3 ∧
    (counter.carrying negative.kind negative.contents).contents.trim.toInt? = some (-12) ∧
    (counter.carrying hexadecimal.kind hexadecimal.contents).contents =
      Text.ofString "  +0X1f" ∧
    (counter.carrying hexadecimal.kind hexadecimal.contents).contents.length = max 7 5 ∧
    (counter.carrying hexadecimal.kind hexadecimal.contents).contents.trim.toInt? = some 31 := by
  obtain ⟨hlength, hvalue⟩ := Token.carrying_exact counter negative (by decide)
  obtain ⟨hlength', hvalue'⟩ := Token.carrying_exact counter hexadecimal (by decide)
  exact ⟨by decide, hlength, hvalue, by decide, hlength', hvalue'⟩

end Sample

end CellAsm
