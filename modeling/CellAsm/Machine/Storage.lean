-- SUMMARY: Descriptions of machines in storage that is shared by reference.
import CellAsm.Machine.Basic

/-!
# Descriptions in storage

A description is spread over pieces of storage: a record for the machine, and lists
and tables that the record refers to. Who has a reference to a piece can change what
it holds, and everyone else who refers to it sees the change. A copy is made of
pieces of its own.
-/
namespace CellAsm

/-- What a piece of storage holds. -/
inductive PieceKind
  /-- Named values: those of a field, or the constants of a machine. -/
  | named
  | fields
  | instructions
  | punctuation
  | machine
deriving DecidableEq, Repr

/-- A piece of storage. -/
structure Piece where
  kind : PieceKind
  index : Nat
deriving DecidableEq, Repr

/-- A reference to a piece of a known kind. -/
structure Ref (k : PieceKind) where
  index : Nat
deriving DecidableEq, Repr

def Ref.piece {k : PieceKind} (r : Ref k) : Piece := ⟨k, r.index⟩

def Piece.ref (p : Piece) : Ref p.kind := ⟨p.index⟩

/-- A field, with a reference to its named values. A reference may be missing here
and in the other records. -/
structure FieldRecord where
  name : Text := []
  bits : Int := 0
  relativity : Relativity := .absolute
  presence : Presence := .required
  signed : Bool := false
  values : Option (Ref .named) := none
deriving DecidableEq, Repr

structure InstructionRecord where
  name : Text := []
  opcode : UInt64 := 0
  fields : Option (Ref .fields) := none
deriving DecidableEq, Repr

structure MachineRecord where
  name : Text := []
  cellSize : Int := 0
  instructions : Option (Ref .instructions) := none
  equs : Option (Ref .named) := none
  punctuation : Option (Ref .punctuation) := none
deriving DecidableEq, Repr

namespace PieceKind

def all : List PieceKind := [named, fields, instructions, punctuation, machine]

abbrev Content : PieceKind → Type
  | named => List NamedValue
  | fields => List FieldRecord
  | instructions => List InstructionRecord
  | punctuation => Punctuation
  | machine => MachineRecord

end PieceKind

-- ---------------------------------------------------------------------------
-- References
-- ---------------------------------------------------------------------------

def FieldRecord.pieces (f : FieldRecord) : List Piece := f.values.toList.map Ref.piece

def InstructionRecord.pieces (s : InstructionRecord) : List Piece := s.fields.toList.map Ref.piece

def MachineRecord.pieces (m : MachineRecord) : List Piece :=
  m.instructions.toList.map Ref.piece ++ m.equs.toList.map Ref.piece ++
    m.punctuation.toList.map Ref.piece

/-- The pieces that some content refers to. -/
def PieceKind.refersTo : (k : PieceKind) → k.Content → List Piece
  | named, _ => []
  | fields, fs => fs.flatMap FieldRecord.pieces
  | instructions, specs => specs.flatMap InstructionRecord.pieces
  | punctuation, _ => []
  | machine, m => m.pieces

-- ---------------------------------------------------------------------------
-- Storage
-- ---------------------------------------------------------------------------

/-- The contents of all pieces, kind by kind. -/
structure Storage where
  contents : (k : PieceKind) → List k.Content := fun _ => []

namespace Storage

/-- There is such a piece. -/
def Has (h : Storage) (p : Piece) : Prop := p.index < (h.contents p.kind).length

instance (h : Storage) (p : Piece) : Decidable (h.Has p) := inferInstanceAs (Decidable (_ < _))

def read? {k : PieceKind} (h : Storage) (r : Ref k) : Option k.Content := (h.contents k)[r.index]?

/-- The pieces that a piece refers to. -/
def refersTo (h : Storage) (p : Piece) : List Piece :=
  ((h.read? p.ref).map p.kind.refersTo).getD []

/-- The storage with other pieces of one kind. -/
def replacing (h : Storage) (k : PieceKind) (l : List k.Content) : Storage where
  contents j := if e : k = j then e ▸ l else h.contents j

/-- One more piece. -/
def add (h : Storage) (k : PieceKind) (c : k.Content) : Storage :=
  h.replacing k (h.contents k ++ [c])

/-- Changes what a piece holds. -/
def write {k : PieceKind} (h : Storage) (r : Ref k) (c : k.Content) : Storage :=
  h.replacing k ((h.contents k).set r.index c)

/-- The pieces that were not there before. -/
def beyond (h before : Storage) : List Piece :=
  (PieceKind.all.flatMap fun k => (List.range (h.contents k).length).map (Piece.mk k)).filter
    fun p => ¬before.Has p

-- ---------------------------------------------------------------------------
-- What a description says
-- ---------------------------------------------------------------------------

/-- What a record refers to, if it does. -/
def find? {k : PieceKind} (h : Storage) (r : Option (Ref k)) : Option k.Content := r.bind h.read?

def named (h : Storage) (r : Option (Ref .named)) : List NamedValue := (h.find? r).getD []

def field (h : Storage) (f : FieldRecord) : Field where
  name := f.name
  bits := f.bits
  relativity := f.relativity
  presence := f.presence
  signed := f.signed
  values := h.named f.values

def instruction (h : Storage) (s : InstructionRecord) : Instruction where
  name := s.name
  opcode := s.opcode
  fieldList := (h.find? s.fields).map (List.map h.field)

def machine (h : Storage) (m : MachineRecord) : Machine where
  name := m.name
  cellSize := m.cellSize
  instructionList := (h.find? m.instructions).map (List.map h.instruction)
  equs := h.named m.equs
  punctuation := h.find? m.punctuation

/-- The description that a reference leads to. -/
def machine? (h : Storage) (r : Ref .machine) : Option Machine := (h.read? r).map h.machine

end Storage

-- ---------------------------------------------------------------------------
-- New pieces
-- ---------------------------------------------------------------------------

/-- Storing something. -/
abbrev Storing := StateM Storage

namespace Storing

/-- A new piece. -/
def store (k : PieceKind) (c : k.Content) : Storing (Ref k) := fun h =>
  (⟨(h.contents k).length⟩, h.add k c)

/-- A new list of named values; an empty one needs no piece. -/
def storeNamed (l : List NamedValue) : Storing (Option (Ref .named)) :=
  if l.isEmpty then pure none else some <$> store .named l

def describeField (f : Field) : Storing FieldRecord := do
  let values ← storeNamed f.values
  return {
    name := f.name, bits := f.bits, relativity := f.relativity, presence := f.presence
    signed := f.signed, values := values }

def describeInstruction (s : Instruction) : Storing InstructionRecord := do
  let fields ← s.fieldList.mapM fun fs => fs.mapM describeField >>= store .fields
  return { name := s.name, opcode := s.opcode, fields := fields }

/-- A new description. -/
def describe (m : Machine) : Storing (Ref .machine) := do
  let instructions ← m.instructionList.mapM fun specs =>
    specs.mapM describeInstruction >>= store .instructions
  let equs ← storeNamed m.equs
  let punctuation ← m.punctuation.mapM (store .punctuation)
  store .machine {
    name := m.name, cellSize := m.cellSize, instructions := instructions, equs := equs
    punctuation := punctuation }

def copyField (f : FieldRecord) : Storing FieldRecord := do
  let values ← storeNamed ((← get).named f.values)
  return { f with values := values }

def copyInstruction (s : InstructionRecord) : Storing InstructionRecord := do
  let fields ← (((← get).find? s.fields).getD []).mapM copyField >>= store .fields
  return { s with fields := some fields }

/-- A copy of a description that shares no piece with it. No list is missing, and the
punctuation is spelled out. -/
def snapshot (m : MachineRecord) : Storing (Ref .machine) := do
  let specs := ((← get).find? m.instructions).getD []
  let instructions ← specs.mapM copyInstruction >>= store .instructions
  let equs ← storeNamed ((← get).named m.equs)
  let punctuation ← store .punctuation (((← get).find? m.punctuation).getD .standard)
  store .machine {
    m with instructions := some instructions, equs := equs, punctuation := some punctuation }

end Storing

end CellAsm
