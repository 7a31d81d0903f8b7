-- SUMMARY: A whole program as statements, with all its names checked.
import CellAsm.Source.Reader

/-!
# A program as statements

When all lines are read, labels that still wait mark the end of the program. Then
every name used as an operand must be defined, no label may have the name of a
constant, and every exported name must be a label.
-/
namespace CellAsm.SourceState

/-- Puts the labels at the end of the program on a statement that emits nothing. -/
def close (s : SourceState) : Except Failure SourceState :=
  if 0 < s.pending.length then do
    let label ← Strict.get s.pending 0
    return s.emit { action := .data, keyword := label, width := 1 }
  else .ok s

-- ---------------------------------------------------------------------------
-- Checking names
-- ---------------------------------------------------------------------------

/-- No label has the name of a constant. -/
def checkLabels (m : Machine) (equs : Table Token) : List Token → Except Failure Unit
  | [] => .ok ()
  | l :: rest =>
    if equs.contains l.symbol then .error (.blame l (.labelIsEqu l.symbol))
    else if (m.equ? l.symbol).isSome then .error (.blame l (.labelIsGlobalEqu l.symbol))
    else checkLabels m equs rest

/-- The operand at position `j` of an instruction is the name of a value of its field. -/
def namesValue (spec : Option Instruction) (j : Nat) (o : Token) : Except Failure Bool :=
  match spec with
  | none => .ok false
  | some spec =>
    if j < spec.operandFields.length then do
      let i ← Strict.get spec.operandFields j
      let f ← Strict.get spec.fields i
      return (f.lookup o.contents).isSome
    else .ok false

/-- Every name among the operands from position `j` on is known, or is a value of its
field. -/
def checkNamesFrom (known : Text → Bool) (spec : Option Instruction) :
    Nat → List Token → Except Failure Unit
  | _, [] => .ok ()
  | j, o :: rest => do
    if o.kind ≠ .identifier ∨ known o.symbol then checkNamesFrom known spec (j + 1) rest
    else if ← namesValue spec j o then checkNamesFrom known spec (j + 1) rest
    else .error (.blame o (.undefinedSymbol o.contents))

/-- An alignment or position does not depend on a label. It is taken for granted
that it has an operand. -/
def checkCellOperand (labels : List Text) (c : Statement) : Except Failure Unit :=
  if c.action = .align ∨ c.action = .pos then do
    let o ← Strict.get c.operands 0
    if o.kind = .identifier ∧ o.symbol ∈ labels then
      .error (.blame o (.labelNotAllowed c.keyword.contents))
    else .ok ()
  else .ok ()

def checkStatements (known : Text → Bool) (labels : List Text) :
    List Statement → Except Failure Unit
  | [] => .ok ()
  | c :: rest => do
    checkNamesFrom known c.instruction 0 c.operands
    checkCellOperand labels c
    checkStatements known labels rest

/-- Every exported name is a label. -/
def checkExported (labels : List Text) : List Token → Except Failure Unit
  | [] => .ok ()
  | g :: rest =>
    if g.symbol ∈ labels then checkExported labels rest
    else .error (.blame g (.exportNotLabel g.contents))

/-- All labels of the program, in order. -/
def labels (s : SourceState) : List Token := s.statements.flatMap Statement.labels

def checkSymbols (m : Machine) (s : SourceState) : Except Failure Unit := do
  let labels := s.labels.map Token.symbol
  let known (name : Text) : Bool :=
    labels.contains name || s.equs.contains name || (m.equ? name).isSome
  checkLabels m s.equs s.labels
  checkStatements known labels s.statements
  checkExported labels s.exports

end CellAsm.SourceState

namespace CellAsm.SourceEnv

/-- Reads the program in `contents`. Its tokens bear the name as it is given,
and names of included files are relative to its clean form. -/
def parse (env : SourceEnv) (name contents : Text) : Except Stop SourceState := do
  let source ← SourceState.attempt {} (env.scanLines name contents)
  let s ← env.readLines [Path.clean name] source.lines {}
  let s ← s.endOfFile source.error
  let s ← s.attempt s.close
  s.attempt (s.checkSymbols env.machine)
  return s

end CellAsm.SourceEnv
