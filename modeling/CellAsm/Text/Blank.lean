-- SUMMARY: White space, and trimming it from both ends of a text.
import CellAsm.Text.CharClass

/-!
# Blanks

Names and numbers are trimmed of white space before they are looked up or read.
A byte that begins no character is not white space.
-/
namespace CellAsm.CharClass

/-- The Unicode property White_Space. -/
def blank : CharClass :=
  [(0x0009, 0x000D), (0x0020, 0x0020), (0x0085, 0x0085), (0x00A0, 0x00A0), (0x1680, 0x1680),
   (0x2000, 0x200A), (0x2028, 0x2029), (0x202F, 0x202F), (0x205F, 0x205F), (0x3000, 0x3000)]

end CellAsm.CharClass

namespace CellAsm

def isBlank (c : Char) : Bool := CharClass.blank.contains c

namespace Text

/-- The text without the white space at its two ends. -/
def trim (t : Text) : Text :=
  let kept := (t.glyphs.dropWhile fun g => isBlank g.char).reverse
  (kept.dropWhile fun g => isBlank g.char).reverse.flatMap Glyph.bytes

end Text

end CellAsm
