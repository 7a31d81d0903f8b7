-- SUMMARY: Assembling a program from its source to its code.
import CellAsm.Code.Block
import CellAsm.Source.Parse
import CellAsm.Symbol.Equ
import CellAsm.Symbol.Label

/-!
# Programs

A program is assembled in stages: the source is read into statements, constants
are replaced by their numbers, labels get their addresses, the remaining names
are replaced, and the statements are packed into cells.
-/
namespace CellAsm

/-- Everything a successful assembly produced. -/
structure Program where
  blocks : List Block := []
  /-- The statements with numbers for operands that the code comes from. -/
  statements : List Statement := []
  labels : Table Token := {}
  equs : Table Token := {}
  exports : List Text := []
  start : UInt64 := 0
deriving DecidableEq, Repr

/-- An assembly that ended: its result and its records. -/
structure Assembly where
  result : Except Failure Program
  log : List Record := []

namespace SourceEnv

/-- The stages after reading. Each has something to record when it succeeds. -/
def finish (env : SourceEnv) (start : UInt64) (s : SourceState) : Assembly :=
  let m := env.machine
  let log := s.log ++ [.parsed s.statements.length s.equs.size]
  let named : Except Failure (List Statement × Table Token × Table Token) := do
    let (statements, equs) ← Equ.resolve s.statements s.equs m.equs
    let labels ← Label.assign statements start m.cellSize
    let statements ← Label.replace statements labels start m.cellSize
    return (statements, equs, labels)
  match named with
  | .error f => ⟨.error f, log⟩
  | .ok (statements, equs, labels) =>
    let log := log ++ [.normalized labels.size]
    match Code.generate statements start m.cellSize with
    | .error f => ⟨.error f, log⟩
    | .ok blocks =>
      ⟨.ok {
          blocks := blocks, statements := statements, labels := labels, equs := equs
          exports := s.exports.map Token.symbol, start := start },
        log ++ [.generated blocks.length]⟩

/-- Assembles the source `contents`, with its first statement at `start`. -/
def assemble (env : SourceEnv) (name contents : Text) (start : UInt64) : Assembly :=
  match env.parse name contents with
  | .error stop => ⟨.error stop.failure, stop.log⟩
  | .ok s => env.finish start s

end SourceEnv

end CellAsm
