-- SUMMARY: Decoding texts into characters, one byte at a time where they are not UTF-8.
import CellAsm.Text.Basic

/-!
# Characters of a text

A text is read as a list of glyphs. A glyph is a character together with the
bytes that stand for it: a well-formed UTF-8 sequence, or a single byte that
starts no such sequence and counts as the replacement character.
-/
namespace CellAsm

/-- A character and the bytes it was read from. -/
structure Glyph where
  char : Char
  bytes : Text
deriving DecidableEq, Repr

namespace Utf8

/-- Stands for a byte that begins no well-formed sequence. -/
def replacement : Char := '�'

/-- The six bits a continuation byte carries. -/
def payload? (b : UInt8) : Option Nat :=
  if 0x80 ≤ b ∧ b < 0xC0 then some (b.toNat - 0x80) else none

/-- The code point of the sequence that starts with `b`, and how many of the
bytes after `b` belong to it. Overlong sequences are none. -/
def sequence? (b : UInt8) (rest : Text) : Option (Nat × Nat) :=
  if b < 0x80 then some (b.toNat, 0)
  else if b < 0xC0 then none
  else if b < 0xE0 then
    match rest with
    | x :: _ => do
      let n := (b.toNat - 0xC0) * 0x40 + (← payload? x)
      if 0x80 ≤ n then some (n, 1) else none
    | [] => none
  else if b < 0xF0 then
    match rest with
    | x :: y :: _ => do
      let n := ((b.toNat - 0xE0) * 0x40 + (← payload? x)) * 0x40 + (← payload? y)
      if 0x800 ≤ n then some (n, 2) else none
    | _ => none
  else if b < 0xF8 then
    match rest with
    | x :: y :: z :: _ => do
      let n := (((b.toNat - 0xF0) * 0x40 + (← payload? x)) * 0x40 + (← payload? y)) * 0x40
        + (← payload? z)
      if 0x10000 ≤ n then some (n, 3) else none
    | _ => none
  else none

/-- The first character of `b :: rest`, and how many bytes after `b` it takes.
Surrogates and numbers past the last code point are not characters. -/
def head (b : UInt8) (rest : Text) : Char × Nat :=
  match sequence? b rest with
  | some (n, more) => if n.isValidChar then (Char.ofNat n, more) else (replacement, 0)
  | none => (replacement, 0)

end Utf8

namespace Text

def glyphs : Text → List Glyph
  | [] => []
  | b :: rest =>
    ⟨(Utf8.head b rest).1, b :: rest.take (Utf8.head b rest).2⟩
      :: glyphs (rest.drop (Utf8.head b rest).2)
termination_by t => t.length
decreasing_by simp only [List.length_drop, List.length_cons]; omega

/-- Decoding drops no byte. -/
theorem flatMap_bytes_glyphs (t : Text) : t.glyphs.flatMap Glyph.bytes = t := by
  fun_induction glyphs t with
  | case1 => rfl
  | case2 b rest ih => simp [ih]

/-- The first glyph. -/
def glyph? : Text → Option Glyph
  | [] => none
  | b :: rest => some ⟨(Utf8.head b rest).1, b :: rest.take (Utf8.head b rest).2⟩

theorem length_pos_of_glyph? {t : Text} {g : Glyph} (h : t.glyph? = some g) :
    0 < g.bytes.length := by
  cases t with
  | nil => cases h
  | cons b rest =>
    cases h
    exact Nat.succ_pos _

def chars (t : Text) : List Char := t.glyphs.map Glyph.char

end Text

namespace Glyph

/-- A byte that begins no character. -/
def isStray (g : Glyph) : Bool := g.char == Utf8.replacement && g.bytes.length == 1

end Glyph

namespace Text

/-- The text as a string of characters, if it is UTF-8. -/
def toString? (t : Text) : Option String :=
  if t.glyphs.any Glyph.isStray then none else some (String.ofList t.chars)

end Text

end CellAsm
