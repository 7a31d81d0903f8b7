-- SUMMARY: Writing piece by piece to something that may stop accepting.
import CellAsm.Fault
import CellAsm.Text.Basic

/-!
# Output

Listings and images are written in pieces. A writer may refuse a piece; nothing
of that piece and nothing after it is written then.
-/
namespace CellAsm

/-- A writer that refuses its write number `failAt`, counted from 1, or none if
there is no such number. -/
structure Writer where
  failAt : Int := 0
deriving DecidableEq, Repr

/-- What reached the writer, and the error if it refused something. -/
structure Written where
  text : Text := []
  error : Option Text := none
deriving DecidableEq, Repr

namespace Writer

/-- What a refused write is reported as, within the activity it belongs to. -/
def refusal (activity : String) : Text := Text.join [activity, ": writer full"]

/-- Writes the pieces in order, the first of them as write number `n`. A piece is
computed right before it is written. -/
def writeFrom (w : Writer) (activity : String) : Int → List (Except Fault Text) →
    Except Fault Written
  | _, [] => .ok {}
  | _, .error f :: _ => .error f
  | n, .ok piece :: rest =>
    if n = w.failAt then .ok { error := some (refusal activity) }
    else do
      let after ← w.writeFrom activity (n + 1) rest
      return { after with text := piece ++ after.text }

def write (w : Writer) (activity : String) (pieces : List (Except Fault Text)) :
    Except Fault Written :=
  w.writeFrom activity 1 pieces

end Writer

end CellAsm
