-- SUMMARY: Source files as lists of lines, and the operands on a line.
import CellAsm.Token.Lexer

/-!
# Lines

A program is read line by line. A lexical error ends the lines of a file: the
lines before it are still read, the rest of its own line is not.
-/
namespace CellAsm

/-- The tokens of a line, without its end. -/
abbrev Line := List Token

/-- The lines of a file up to its end or its first lexical error. -/
structure SourceLines where
  lines : List Line := []
  error : Option Diagnostic := none
deriving DecidableEq, Repr

namespace SourceLines

/-- Collects tokens into lines, with `line` already on the first. -/
def ofLexed (line : Line) : List Lexed → SourceLines
  | [] => { lines := [line] }
  | x :: rest =>
    match x.cause with
    | some c => { error := some ⟨c, some x.token⟩ }
    | none =>
      match x.token.kind with
      | .eof => { lines := [line] }
      | .eol =>
        let after := ofLexed [] rest
        { after with lines := line :: after.lines }
      | _ => ofLexed (line ++ [x.token]) rest

/-- The lines of a file with the given name and contents. -/
def scan (p : Punctuation) (file contents : Text) : Except Fault SourceLines := do
  return ofLexed [] (← (Scanner.ofText (.ofPunctuation p) file contents).scan)

end SourceLines

-- ---------------------------------------------------------------------------
-- Operands
-- ---------------------------------------------------------------------------

/-- Collects operands behind those read so far. A comma may only follow an operand;
`comma` says that none has been read since the last one, or since the start. -/
def collectOperands (comma : Bool) (operands : List Token) :
    List Token → Except Failure (Bool × List Token)
  | [] => .ok (comma, operands)
  | t :: rest =>
    if t.kind = .comma then
      if comma then .error (.blame t .unexpectedComma)
      else collectOperands true operands rest
    else collectOperands false (operands ++ [t]) rest

/-- The operands collected from all of `ts`, behind which no comma is left. -/
def endOperands (ts : List Token) (comma : Bool) (operands : List Token) :
    Except Failure (List Token) :=
  if comma ∧ 0 < operands.length then do
    let last ← Strict.get ts (ts.length - 1)
    .error (.blame last .trailingComma)
  else .ok operands

/-- The operands in a list of tokens. Commas between them are optional. -/
def splitOperands (ts : List Token) : Except Failure (List Token) := do
  let collected ← collectOperands true [] ts
  endOperands ts collected.1 collected.2

end CellAsm
