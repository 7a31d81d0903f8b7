-- SUMMARY: Machine descriptions and punctuation tables written as JSON.
import CellAsm.Json.Basic
import CellAsm.Machine.Basic
import CellAsm.Output

/-!
# Writing a machine description

The members come in a fixed order, on lines indented by tabs. A missing list is
`null`; constants, named values and punctuation are left out when there are none.
-/
namespace CellAsm

open Json (Value)

/-- The characters and their role names, in the order of the characters. -/
def Punctuation.toJson (p : Punctuation) : Value :=
  .object (p.sorted.map fun (c, r) => (Text.ofChar c, .string r.text))

/-- The table without any blanks. -/
def Punctuation.render (p : Punctuation) : Text := p.toJson.render .compact 0

def NamedValue.toJson (v : NamedValue) : Value :=
  .object [("name", .string v.name), ("value", .ofInt v.value)]

namespace Machine

/-- A member that is left out when its list is empty. -/
def listMember {α : Type} (key : String) (toJson : α → Value) (items : List α) :
    List (Text × Value) :=
  if items.isEmpty then [] else [(Text.ofString key, .array (items.map toJson))]

end Machine

def Field.toJson (f : Field) : Except NameError Value := do
  let relativity ← f.relativity.written
  let presence ← f.presence.written
  return .object
    ([(Text.ofString "name", .string f.name), (Text.ofString "bits", .ofInt f.bits),
      (Text.ofString "relativity", .string relativity), (Text.ofString "type", .string presence),
      (Text.ofString "signed", .bool f.signed)]
      ++ Machine.listMember "values" NamedValue.toJson f.values)

namespace Machine

/-- A list, or `null` if there is none. -/
def optionalList {α : Type} (toJson : α → Except NameError Value) :
    Option (List α) → Except NameError Value
  | some items => do return .array (← items.mapM toJson)
  | none => .ok .null

end Machine

def Instruction.toJson (s : Instruction) : Except NameError Value := do
  let fields ← Machine.optionalList Field.toJson s.fieldList
  return .object
    [("name", .string s.name), ("opcode", .ofInt s.opcode.toNat), ("fields", fields)]

namespace Machine

def toJson (m : Machine) : Except NameError Value := do
  let instructions ← optionalList Instruction.toJson m.instructionList
  return .object
    ([(Text.ofString "name", .string m.name), (Text.ofString "cellSize", .ofInt m.cellSize),
      (Text.ofString "instructions", instructions)]
      ++ listMember "equs" NamedValue.toJson m.equs
      ++ match m.punctuation with
        | some p => if p.entries.isEmpty then [] else [(Text.ofString "punctuation", p.toJson)]
        | none => [])

/-- The text of a description, with a newline at its end. -/
def save (m : Machine) : Except NameError Text := do
  return (← m.toJson).render .indented 0 ++ Text.ofString "\n"

/-- What a failure to name something is reported as. -/
def saveError (e : NameError) : Text :=
  let type : String :=
    match e with
    | .relativity _ => "*machine.Relativity"
    | .presence _ => "*machine.FieldType"
  Text.join ["save machine: json: error calling MarshalText for type ", type, ": ", e.message]

/-- Writes the text of a description in one piece. -/
def write (m : Machine) (w : Writer) : Except Fault Written :=
  match m.save with
  | .ok t => w.write "save machine" [.ok t]
  | .error e => .ok { error := some (saveError e) }

end Machine

end CellAsm
