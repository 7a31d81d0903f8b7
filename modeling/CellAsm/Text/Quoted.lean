-- SUMMARY: Texts and characters in quotes, with everything unprintable escaped.
import CellAsm.Text.Printable

/-!
# Quoted text

A quoted text shows printable characters as they are. The quote and the
backslash get a backslash, the usual control characters their letter, and any
other unprintable character its number. A byte that begins no character is
written as two hexadecimal digits.
-/
namespace CellAsm

namespace Quoted

/-- The letter that follows the backslash for the control characters that have one. -/
def controlLetter? (c : Char) : Option Char :=
  match c.toNat with
  | 0x07 => some 'a'
  | 0x08 => some 'b'
  | 0x09 => some 't'
  | 0x0A => some 'n'
  | 0x0B => some 'v'
  | 0x0C => some 'f'
  | 0x0D => some 'r'
  | _ => none

/-- A character between quotes `quote`. -/
def escapeChar (quote c : Char) : Text :=
  if c = quote ∨ c = '\\' then Text.ofChars ['\\', c]
  else if isPrintable c then Text.ofChar c
  else match controlLetter? c with
    | some l => Text.ofChars ['\\', l]
    | none =>
      if c.toNat < 0x80 then Text.ofString "\\x" ++ Text.hex 2 c.toNat
      else if c.toNat < 0x10000 then Text.ofString "\\u" ++ Text.hex 4 c.toNat
      else Text.ofString "\\U" ++ Text.hex 8 c.toNat

def escapeGlyph (quote : Char) (g : Glyph) : Text :=
  if g.isStray then g.bytes.flatMap fun b => Text.ofString "\\x" ++ Text.hex 2 b.toNat
  else escapeChar quote g.char

end Quoted

namespace Text

/-- The text in double quotes. -/
def quoted (t : Text) : Text :=
  ofChar '\x22' ++ t.glyphs.flatMap (Quoted.escapeGlyph '\x22') ++ ofChar '\x22'

/-- A character in single quotes. -/
def quotedChar (c : Char) : Text :=
  ofChar '\x27' ++ Quoted.escapeChar '\x27' c ++ ofChar '\x27'

end Text

end CellAsm
