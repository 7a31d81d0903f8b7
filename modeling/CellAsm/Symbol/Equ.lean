-- SUMMARY: Constants: following them to their numbers and putting those into operands.
import CellAsm.Diagnostic
import CellAsm.Field
import CellAsm.Statement
import CellAsm.Table

/-!
# Constants

A constant stands for a number or for another constant. A program's own constants
take precedence over those of the machine. Every operand that names a constant is
replaced by the number the constant leads to.
-/
namespace CellAsm.Equ

/-- The token of a number that no source line holds. -/
def literal (n : Int) : Token := { kind := .constant, contents := Text.decimal n, legal := true }

/-- The constants of a program, and those of the machine that it does not define
itself. -/
def merge (locals : Table Token) (globals : List NamedValue) : Table Token :=
  globals.foldl
    (fun (t : Table Token) g => if t.contains g.name then t else t.insert g.name (literal g.value))
    locals

/-- Follows a chain of names that starts at `v` for at most `steps` steps. -/
def chase (table : Table Token) (name : Text) : Nat → Token → Except Failure Token
  | steps, v =>
    if v.kind = .identifier then
      match steps with
      | 0 => .error (.blame v (.equCyclic name))
      | steps + 1 =>
        match table.find? v.symbol with
        | none => .error (.blame v (.equDangling name v.contents))
        | some w => chase table name steps w
    else if v.kind = .constant then .ok v
    else .error (.blame v (.equNotNumeric name))

/-- The number a constant leads to. A chain longer than the table has a cycle. -/
def follow (table : Table Token) (name : Text) : Except Failure Token :=
  chase table name (table.size + 1) ((table.find? name).getD {})

/-- Every constant with the number it leads to. -/
def resolveTable (table : Table Token) : Except Failure (Table Token) := do
  let entries ← table.entries.mapM fun (name, _) => do return (name, ← follow table name)
  return .ofList entries

/-- An operand that names a constant becomes its number. -/
def replace (resolved : Table Token) (o : Token) : Token :=
  if o.kind = .identifier then
    match resolved.find? o.symbol with
    | some v => o.carrying v.kind v.contents
    | none => o
  else o

/-- The statements with all constants replaced, and the numbers of the constants. -/
def resolve (statements : List Statement) (locals : Table Token) (globals : List NamedValue) :
    Except Failure (List Statement × Table Token) := do
  let resolved ← resolveTable (merge locals globals)
  return (statements.map fun c => { c with operands := c.operands.map (replace resolved) }, resolved)

end CellAsm.Equ
