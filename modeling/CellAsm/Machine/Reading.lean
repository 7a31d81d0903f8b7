-- SUMMARY: Machine descriptions read from JSON.
import CellAsm.Json.Reader
import CellAsm.Machine.Basic
import CellAsm.Table
import CellAsm.Text.Integer

/-!
# Reading a machine description

A description is one JSON value; whatever follows it is ignored. Keys are matched
without regard to case. `null` leaves a value as it is, and drops a list.

An unknown key, a value of the wrong type, or a name that stands for nothing does
not stop the reading. What can not be read leaves its place as it is, and the
first such error in the text is reported at the end. A punctuation table is read
as a whole and has at most one error.

A key may be repeated. The later value is read on top of the earlier one, item by
item in a list, so a list also remembers items that a shorter repetition left
behind.
-/
namespace CellAsm

open Json (Value)

namespace Machine

/-- Why a JSON text gives no description. -/
inductive ReadError
  /-- There is no value at all. -/
  | empty
  /-- Not JSON, or a value of the wrong type or out of range. -/
  | malformed
  | unknownKey (key : Text)
  | unknownRelativity (name : Text)
  | unknownPresence (name : Text)
  | punctuationKey (key : Text)
  | punctuationRole (role key : Text)
deriving DecidableEq, Repr

/-- There is no fixed wording for malformed JSON. -/
def ReadError.message? : ReadError → Option Text
  | empty => none
  | malformed => none
  | unknownKey key => some (Text.join ["json: unknown field ", key.quoted])
  | unknownRelativity name => some (Text.join ["unknown relativity: ", name])
  | unknownPresence name => some (Text.join ["unknown field type: ", name])
  | punctuationKey key =>
    some (Text.join ["punctuation key ", key.quoted, " is not a single character"])
  | punctuationRole role key =>
    some (Text.join ["unknown punctuation role ", role.quoted, " for ", key.quoted])

/-- Reading with one remembered error. -/
abbrev Reading := StateM (Option ReadError)

namespace Reading

/-- Remembers an error unless there is one already. The first error in the text counts, also
when a part with rules of its own, such as the punctuation, has another behind it. -/
def note (e : ReadError) : Reading Unit := modify (·.or (some e))

/-- Fails with the remembered error, if there is one. -/
def finish {α : Type} (r : Reading α) : Except ReadError α :=
  match r.run none with
  | (a, none) => .ok a
  | (_, some e) => .error e

end Reading

-- ---------------------------------------------------------------------------
-- Simple values
-- ---------------------------------------------------------------------------

def readText (old : Text) : Value → Reading Text
  | .string t => pure t
  | .null => pure old
  | _ => do Reading.note .malformed; pure old

def readBool (old : Bool) : Value → Reading Bool
  | .bool b => pure b
  | .null => pure old
  | _ => do Reading.note .malformed; pure old

/-- A number written without fraction and exponent. -/
def wholeNumber? (literal : Text) : Option Int :=
  match literal with
  | 0x2D :: ds => (Text.ofDigits? 10 ds).map fun n => -(n : Int)
  | ds => (Text.ofDigits? 10 ds).map fun n => (n : Int)

/-- A signed number of 64 bits. -/
def readInt (old : Int) : Value → Reading Int
  | .number literal =>
    match wholeNumber? literal with
    | some n =>
      if -(2 ^ 63) ≤ n ∧ n < 2 ^ 63 then pure n
      else do Reading.note .malformed; pure old
    | none => do Reading.note .malformed; pure old
  | .null => pure old
  | _ => do Reading.note .malformed; pure old

/-- An unsigned number of 64 bits, without a sign. -/
def readWord (old : UInt64) : Value → Reading UInt64
  | .number literal =>
    match Text.ofDigits? 10 literal with
    | some n =>
      if n < 2 ^ 64 then pure (UInt64.ofNat n)
      else do Reading.note .malformed; pure old
    | none => do Reading.note .malformed; pure old
  | .null => pure old
  | _ => do Reading.note .malformed; pure old

def readRelativity (old : Relativity) : Value → Reading Relativity
  | .string t =>
    match Relativity.ofName? t with
    | some r => pure r
    | none => do Reading.note (.unknownRelativity t); pure old
  | .null => pure old
  | _ => do Reading.note .malformed; pure old

def readPresence (old : Presence) : Value → Reading Presence
  | .string t =>
    match Presence.ofName? t with
    | some p => pure p
    | none => do Reading.note (.unknownPresence t); pure old
  | .null => pure old
  | _ => do Reading.note .malformed; pure old

-- ---------------------------------------------------------------------------
-- Lists and objects
-- ---------------------------------------------------------------------------

/-- A list as it is being read: its items, and items of an earlier, longer
reading that later ones may still be read on top of. -/
structure Slots (α : Type) where
  items : List α := []
  left : List α := []
deriving Repr

/-- Reads each value on top of the item that was there before. -/
def readItems {α : Type} (blank : α) (readItem : α → Value → Reading α) :
    List α → List Value → Reading (List α)
  | _, [] => pure []
  | [], v :: rest => do
    let a ← readItem blank v
    return a :: (← readItems blank readItem [] rest)
  | old :: olds, v :: rest => do
    let a ← readItem old v
    return a :: (← readItems blank readItem olds rest)

def readList {α : Type} (blank : α) (readItem : α → Value → Reading α)
    (old : Option (Slots α)) : Value → Reading (Option (Slots α))
  | .array [] => pure (some {})
  | .array vs => do
    let slots := old.getD {}
    let before := slots.items ++ slots.left
    let items ← readItems blank readItem before vs
    return some ⟨items, before.drop items.length⟩
  | .null => pure none
  | _ => do Reading.note .malformed; pure old

/-- Reads the members one after the other; `readMember` says what to do with a
key, or that it does not know the key. -/
def readObject {α : Type} (readMember : α → Text → Value → Option (Reading α)) (old : α) :
    Value → Reading α
  | .object members =>
    members.foldlM (fun a (key, v) =>
      match readMember a key v with
      | some r => r
      | none => do Reading.note (.unknownKey key); pure a) old
  | .null => pure old
  | _ => do Reading.note .malformed; pure old

-- ---------------------------------------------------------------------------
-- Punctuation
-- ---------------------------------------------------------------------------

/-- The role names in a JSON object; a repeated key has its last value. -/
def roleNames : Value → Except ReadError (Table Text)
  | .object members =>
    members.foldlM (fun (t : Table Text) (key, v) =>
      match v with
      | .string role => .ok (t.insert key role)
      | .null => .ok (t.insert key [])
      | _ => .error .malformed) {}
  | .null => .ok {}
  | _ => .error .malformed

def readRole (key role : Text) : Except ReadError (Char × Role) :=
  match key.chars with
  | [c] =>
    match Role.ofName? role with
    | some r => .ok (c, r)
    | none => .error (.punctuationRole role key)
  | _ => .error (.punctuationKey key)

/-- The standard table with the changes a JSON object lists. -/
def readPunctuation (v : Value) : Except ReadError Punctuation := do
  let names ← roleNames v
  let entries ← names.entries.mapM fun (key, role) => readRole key role
  return Punctuation.ofAssignments entries

end Machine

/-- A punctuation table that is a JSON text of its own. -/
def Punctuation.ofJson (t : Text) : Except Machine.ReadError Punctuation :=
  match Json.Value.whole? t with
  | some v => Machine.readPunctuation v
  | none => .error .malformed

namespace Machine

-- ---------------------------------------------------------------------------
-- Descriptions
-- ---------------------------------------------------------------------------

/-- A field with its list of values as it is being read. -/
structure FieldDraft where
  field : Field := {}
  values : Option (Slots NamedValue) := none
deriving Repr

structure InstructionDraft where
  name : Text := []
  opcode : UInt64 := 0
  fields : Option (Slots FieldDraft) := none
deriving Repr

structure Draft where
  name : Text := []
  cellSize : Int := 0
  instructions : Option (Slots InstructionDraft) := none
  equs : Option (Slots NamedValue) := none
  punctuation : Option Punctuation := none
deriving Repr

def FieldDraft.toField (d : FieldDraft) : Field :=
  { d.field with values := (d.values.map Slots.items).getD [] }

def InstructionDraft.toInstruction (d : InstructionDraft) : Instruction where
  name := d.name
  opcode := d.opcode
  fieldList := d.fields.map fun s => s.items.map FieldDraft.toField

def Draft.toMachine (d : Draft) : Machine where
  name := d.name
  cellSize := d.cellSize
  instructionList := d.instructions.map fun s => s.items.map InstructionDraft.toInstruction
  equs := (d.equs.map Slots.items).getD []
  punctuation := d.punctuation

def readValueMember (d : NamedValue) (key : Text) (v : Value) : Option (Reading NamedValue) :=
  if key.foldsTo "name" then some do return { d with name := ← readText d.name v }
  else if key.foldsTo "value" then some do return { d with value := ← readInt d.value v }
  else none

def readNamedValue : NamedValue → Value → Reading NamedValue := readObject readValueMember

def readFieldMember (d : FieldDraft) (key : Text) (v : Value) : Option (Reading FieldDraft) :=
  if key.foldsTo "name" then some do
    return { d with field.name := ← readText d.field.name v }
  else if key.foldsTo "bits" then some do
    return { d with field.bits := ← readInt d.field.bits v }
  else if key.foldsTo "relativity" then some do
    return { d with field.relativity := ← readRelativity d.field.relativity v }
  else if key.foldsTo "type" then some do
    return { d with field.presence := ← readPresence d.field.presence v }
  else if key.foldsTo "signed" then some do
    return { d with field.signed := ← readBool d.field.signed v }
  else if key.foldsTo "values" then some do
    return { d with values := ← readList {} readNamedValue d.values v }
  else none

def readField : FieldDraft → Value → Reading FieldDraft := readObject readFieldMember

def readInstructionMember (d : InstructionDraft) (key : Text) (v : Value) :
    Option (Reading InstructionDraft) :=
  if key.foldsTo "name" then some do return { d with name := ← readText d.name v }
  else if key.foldsTo "opcode" then some do return { d with opcode := ← readWord d.opcode v }
  else if key.foldsTo "fields" then some do
    return { d with fields := ← readList {} readField d.fields v }
  else none

def readInstruction : InstructionDraft → Value → Reading InstructionDraft :=
  readObject readInstructionMember

def readMachineMember (d : Draft) (key : Text) (v : Value) : Option (Reading Draft) :=
  if key.foldsTo "name" then some do return { d with name := ← readText d.name v }
  else if key.foldsTo "cellSize" then some do
    return { d with cellSize := ← readInt d.cellSize v }
  else if key.foldsTo "instructions" then some do
    return { d with instructions := ← readList {} readInstruction d.instructions v }
  else if key.foldsTo "equs" then some do
    return { d with equs := ← readList {} readNamedValue d.equs v }
  else if key.foldsTo "punctuation" then some do
    match readPunctuation v with
    | .ok p => return { d with punctuation := some p }
    | .error e => do Reading.note e; return d
  else none

def readDescription : Draft → Value → Reading Draft := readObject readMachineMember

/-- Why a text gives no machine that programs can be assembled for. -/
inductive LoadError
  | unreadable (e : ReadError)
  | invalid (d : Defect)
deriving DecidableEq, Repr

def LoadError.message? : LoadError → Option Text
  | unreadable e => e.message?.map fun t => Text.join ["decode machine: ", t]
  | invalid d => some (Text.join ["invalid machine: ", d.message])

/-- The description in a JSON text, not checked. -/
def ofJson (t : Text) : Except ReadError Machine :=
  match Json.Value.first? t with
  | some v => (readDescription {} v).finish.map Draft.toMachine
  | none => .error (if t.chars.all Json.isSpace then .empty else .malformed)

/-- The description in a JSON text, with the standard punctuation unless it has
its own, if it is valid. -/
def load (t : Text) : Except LoadError Machine := do
  let m ← (ofJson t).mapError .unreadable
  let m := { m with punctuation := some m.punctuationTable }
  m.validate.mapError .invalid
  return m

end Machine

end CellAsm
