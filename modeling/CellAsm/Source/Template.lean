-- SUMMARY: Templates: named lists of lines with parameters.
import CellAsm.Source.Line

/-!
# Templates

A template is a list of lines with a name and parameters. A line that starts with
the name stands for the lines of the template, with every identifier that names a
parameter replaced by the argument for it.
-/
namespace CellAsm

structure Template where
  name : Token
  params : List Token
  body : List Line := []
deriving DecidableEq, Repr

namespace Template

/-- The first repeated parameter, or the first that is not a name. -/
def checkParams (name : Token) : List Text → List Token → Except Failure Unit
  | _, [] => .ok ()
  | seen, p :: rest =>
    if p.kind ≠ .identifier then .error (.blame p (.parameterKind name.contents p.kind))
    else if seen.contains p.contents then
      .error (.blame p (.parameterRepeated name.contents p.contents))
    else checkParams name (p.contents :: seen) rest

/-- The token that stands for `t` when the parameters have the given arguments. -/
def substitute (arguments : List (Text × Token)) (t : Token) : Token :=
  if t.kind = .identifier then (arguments.lookup t.contents).getD t else t

/-- The parameters from position `i` on, each with the argument for it. -/
def bindFrom (arguments : List Token) :
    Nat → List Token → Except Failure (List (Text × Token))
  | _, [] => .ok []
  | i, p :: rest => do
    let a ← Strict.get arguments i
    return (p.contents, a) :: (← bindFrom arguments (i + 1) rest)

/-- The lines a call of the template stands for. There is an argument for each
parameter. -/
def expand (m : Template) (arguments : List Token) : Except Failure (List Line) := do
  let pairs ← bindFrom arguments 0 m.params
  return m.body.map fun line => line.map (substitute pairs)

end Template

/-- How deep calls of templates may be nested. -/
def maxExpansionDepth : Nat := 64

end CellAsm
