-- SUMMARY: Tokens, their positions, and the names and numbers they carry.
import CellAsm.Text.Blank
import CellAsm.Text.Integer
import CellAsm.Text.Quoted

/-!
# Tokens

A token is one lexical unit of a source file. Later stages replace the operand
tokens of a program by others that carry a number; those keep the position of
the token they stand for and are padded to its width.
-/
namespace CellAsm

/-- The lexical class of a token. -/
inductive TokenKind
  | eof
  | eol
  /-- A mnemonic, or the name of a label, a constant or a field value. -/
  | identifier
  | constant
  /-- The decoded contents of a quoted string. -/
  | string
  /-- An identifier with the label character after it. -/
  | label
  | comma
  | leftBracket
  | rightBracket
  | leftParen
  | rightParen
  | illegal
  | equ
  | templateStart
  | templateEnd
  | inclusion
  | ascii
  | data
  | exported
  | align
  | pos
  | long
  | short
  /-- A number that stands for none of the above. -/
  | unnamed (code : Int)
deriving DecidableEq, Repr

namespace TokenKind

/-- The named kinds in the order of their numbers. -/
def named : List TokenKind :=
  [eof, eol, identifier, constant, string, label, comma, leftBracket, rightBracket, leftParen,
   rightParen, illegal, equ, templateStart, templateEnd, inclusion, ascii, data, exported, align,
   pos, long, short]

def ofCode (n : Int) : TokenKind :=
  if n < 0 then unnamed n else (named[n.toNat]?).getD (unnamed n)

def code : TokenKind → Int
  | unnamed n => n
  | k => named.idxOf k

/-- What a message calls a token of this kind. -/
def text : TokenKind → Text
  | eof => "end of file"
  | eol => "end of line"
  | identifier => "identifier"
  | constant => "constant"
  | string => "string"
  | label => "label"
  | comma => "','"
  | leftBracket => "'['"
  | rightBracket => "']'"
  | leftParen => "'('"
  | rightParen => "')'"
  | illegal => "illegal character"
  | equ => "EQU"
  | templateStart => "MACRO"
  | templateEnd => "ENDM"
  | inclusion => "include"
  | ascii => "ascii"
  | data => "data"
  | exported => "global"
  | align => "align"
  | pos => "pos"
  | long => "long"
  | short => "short"
  | unnamed n => Text.join ["kind(", Text.decimal n, ")"]

end TokenKind

/-- Lines and columns count from 1, the offset counts bytes from 0. -/
structure Position where
  file : Text := []
  line : Int := 0
  column : Int := 0
  offset : Int := 0
deriving DecidableEq, Repr

/-- The file, and the line and column if they are known. -/
def Position.text (p : Position) : Text :=
  let file := if p.file = [] then Text.ofString "<input>" else p.file
  if 0 < p.line then Text.join [file, ":", Text.decimal p.line, ":", Text.decimal p.column]
  else file

structure Token where
  kind : TokenKind := .eof
  contents : Text := []
  position : Position := {}
  legal : Bool := false
deriving DecidableEq, Repr

namespace Token

/-- The name a token is known by in tables: its trimmed contents, and for the
definition of a label without the label character. -/
def symbol (t : Token) : Text :=
  let s := t.contents.trim
  if h : t.kind = .label ∧ 0 < s.length then within s 0 (s.length - 1) (by omega) else s

theorem symbol_eq (t : Token) :
    t.symbol = if t.kind = .label then t.contents.trim.dropLast else t.contents.trim := by
  simp only [symbol, within, List.drop_zero, List.dropLast_eq_take]
  cases t.contents.trim with
  | nil => simp
  | cons b s => simp

/-- What a message shows for a token. -/
def text (t : Token) : Text :=
  match t.kind with
  | .eof | .eol => t.kind.text
  | .string => t.contents.quoted
  | _ => t.contents

end Token

-- ---------------------------------------------------------------------------
-- Replacing a token by a number
-- ---------------------------------------------------------------------------

def isAsciiDigit (b : UInt8) : Bool := 48 ≤ b && b ≤ 57

/-- Pads a numeral to a width: with zeros after the sign if it is decimal, and
with blanks in front otherwise. -/
def padNumeral (width : Nat) (t : Text) : Text :=
  let missing : Int := width - t.length
  if h : missing ≤ 0 then t
  else
    have hmissing := Int.le_of_lt (Int.not_le.1 h)
    let (sign, ds) := splitSign t
    if ds ≠ [] ∧ ds.all isAsciiDigit then sign ++ copies missing '0'.toUInt8 hmissing ++ ds
    else copies missing ' '.toUInt8 hmissing ++ t

/-- The token that stands for `t` and carries `contents`. -/
def Token.carrying (t : Token) (kind : TokenKind) (contents : Text) : Token where
  kind := kind
  contents := padNumeral t.contents.length contents
  position := t.position
  legal := true

end CellAsm
