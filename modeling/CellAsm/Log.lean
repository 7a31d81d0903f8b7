-- SUMMARY: The record an assembly keeps of its stages.
import CellAsm.Text.Basic

/-!
# Records

An assembly records each file it includes, each template it learns, and what
each stage produced.
-/
namespace CellAsm

inductive Record
  | included (file source : Text)
  | templateDefined (name : Text) (lines : Nat)
  | parsed (statements equs : Nat)
  | normalized (labels : Nat)
  | generated (blocks : Nat)
deriving DecidableEq, Repr

namespace Record

def message : Record → Text
  | included _ _ => "include"
  | templateDefined _ _ => "macro defined"
  | parsed _ _ => "parsed"
  | normalized _ => "normalized"
  | generated _ => "generated"

def attributes : Record → List (Text × Text)
  | included file source => [("file", file), ("from", source)]
  | templateDefined name lines => [("name", name), ("lines", Text.decimal lines)]
  | parsed statements equs => [("calls", Text.decimal statements), ("equs", Text.decimal equs)]
  | normalized labels => [("labels", Text.decimal labels)]
  | generated blocks => [("instructions", Text.decimal blocks)]

end Record

end CellAsm
