-- SUMMARY: JSON values and their two printed forms.
import CellAsm.Text.Utf8

/-!
# JSON values

Members of an object keep their order and may repeat. A number is kept as it was
written, since only its reader knows what range it must lie in.
-/
namespace CellAsm.Json

inductive Value
  | null
  | bool (b : Bool)
  | number (literal : Text)
  | string (t : Text)
  | array (items : List Value)
  | object (members : List (Text × Value))
deriving Repr

namespace Value

def ofInt (n : Int) : Value := number (Text.decimal n)

end Value

-- ---------------------------------------------------------------------------
-- Strings
-- ---------------------------------------------------------------------------

/-- A character inside a string. Characters that mean something in a web page
are written by number, and so are the two line separators. -/
def escapeChar (c : Char) : Text :=
  if c = '\x22' then "\\\""
  else if c = '\\' then "\\\\"
  else match c.toNat with
    | 0x08 => "\\b"
    | 0x09 => "\\t"
    | 0x0A => "\\n"
    | 0x0C => "\\f"
    | 0x0D => "\\r"
    | n =>
      if n < 0x20 ∨ c = '<' ∨ c = '>' ∨ c = '&' ∨ n = 0x2028 ∨ n = 0x2029 then
        Text.ofString "\\u" ++ Text.hex 4 n
      else Text.ofChar c

/-- A stray byte is written as the number of the replacement character. -/
def escapeGlyph (g : Glyph) : Text :=
  if g.isStray then "\\ufffd" else escapeChar g.char

def renderString (t : Text) : Text :=
  Text.ofChar '\x22' ++ t.glyphs.flatMap escapeGlyph ++ Text.ofChar '\x22'

-- ---------------------------------------------------------------------------
-- Printing
-- ---------------------------------------------------------------------------

/-- How the parts of an array or object are set apart: what stands between a
key and its value, and what a line break at a given depth is. -/
structure Style where
  colon : Text
  newline : Nat → Text

namespace Style

/-- No blanks anywhere. -/
def compact : Style := ⟨":", fun _ => []⟩

/-- A line for each item, indented by tabs. -/
def indented : Style := ⟨": ", fun depth => '\n'.toUInt8 :: List.replicate depth '\t'.toUInt8⟩

end Style

mutual

/-- The text of a value whose lines are indented by `depth`. -/
def Value.render (style : Style) (depth : Nat) : Value → Text
  | .null => "null"
  | .bool true => "true"
  | .bool false => "false"
  | .number literal => literal
  | .string t => renderString t
  | .array [] => "[]"
  | .array (v :: rest) =>
    Text.join ["[", style.newline (depth + 1), v.render style (depth + 1),
      renderItems style (depth + 1) rest, style.newline depth, "]"]
  | .object [] => "\x7b\x7d"
  | .object ((key, v) :: rest) =>
    Text.join ["\x7b", style.newline (depth + 1), renderString key, style.colon,
      v.render style (depth + 1), renderMembers style (depth + 1) rest, style.newline depth, "\x7d"]

/-- The items of an array after the first. -/
def renderItems (style : Style) (depth : Nat) : List Value → Text
  | [] => []
  | v :: rest =>
    Text.join [",", style.newline depth, v.render style depth, renderItems style depth rest]

/-- The members of an object after the first. -/
def renderMembers (style : Style) (depth : Nat) : List (Text × Value) → Text
  | [] => []
  | (key, v) :: rest =>
    Text.join [",", style.newline depth, renderString key, style.colon, v.render style depth,
      renderMembers style depth rest]

end

end CellAsm.Json
