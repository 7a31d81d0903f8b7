-- SUMMARY: Texts as byte strings, and their numerals.

/-!
# Texts

Source files, names and messages are strings of bytes. They are meant to be
UTF-8, but nothing in the assembler relies on it, so a text is a plain list of
bytes.
-/
namespace CellAsm

/-- A string of bytes. -/
abbrev Text := List UInt8

instance : LawfulBEq Text := inferInstance

namespace Text

/-- The UTF-8 bytes of a character. -/
def ofChar (c : Char) : Text := String.utf8EncodeChar c

/-- The UTF-8 bytes of a string of characters. -/
def ofChars (cs : List Char) : Text := cs.flatMap ofChar

def ofString (s : String) : Text := ofChars s.toList

instance : Coe String Text := ⟨ofString⟩

/-- The parts of a message, one after the other. -/
def join (parts : List Text) : Text := parts.flatten

/-- The parts with `separator` between any two of them. -/
def joinWith (separator : Text) (parts : List Text) : Text :=
  (parts.intersperse separator).flatten

/-- The pieces of `t` between the bytes equal to `b`; one more than there are
such bytes. -/
def splitAtByte (b : UInt8) : Text → List Text
  | [] => [[]]
  | c :: rest =>
    if c = b then [] :: splitAtByte b rest
    else match splitAtByte b rest with
      | [] => [[c]]
      | piece :: pieces => (c :: piece) :: pieces

/-- Byte-wise lexicographic order. -/
def le : Text → Text → Bool
  | [], _ => true
  | _ :: _, [] => false
  | a :: s, b :: t => a < b || (a == b && le s t)

end Text

-- ---------------------------------------------------------------------------
-- Numerals
-- ---------------------------------------------------------------------------

-- The powers and the zero of a type of numbers are the core library's wherever
-- they are written, also where those of an algebraic structure are in scope.
attribute [instance (high), default_instance high + 1] instPowNat
attribute [instance (high)] Zero.ofOfNat0

/-- The digits of `n`, most significant first. Zero has one digit. -/
def digits (base n : Nat) : List Nat :=
  if n < base ∨ base < 2 then [n] else digits base (n / base) ++ [n % base]
termination_by n
decreasing_by
  rename_i h
  simp only [not_or, Nat.not_lt] at h
  exact Nat.div_lt_self (by omega) (by omega)

/-- The byte that writes a digit below 36. -/
def digitByte (d : Nat) : UInt8 :=
  if d < 10 then UInt8.ofNat (48 + d) else UInt8.ofNat (87 + d)

namespace Text

/-- `n` in the given base, with lower-case letters above 9. -/
def numeral (base n : Nat) : Text := (digits base n).map digitByte

/-- An integer in decimal, with a minus sign if it is negative. -/
def decimal : Int → Text
  | .ofNat n => numeral 10 n
  | .negSucc n => '-'.toUInt8 :: numeral 10 (n + 1)

/-- `n` in hexadecimal, with zeros in front up to `width` digits. -/
def hex (width n : Nat) : Text := (numeral 16 n).leftpad width '0'.toUInt8

end Text

end CellAsm
