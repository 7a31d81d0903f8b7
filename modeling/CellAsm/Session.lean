-- SUMMARY: An assembler that keeps a machine and its last result.
import CellAsm.Machine.Storage
import CellAsm.Program

/-!
# Sessions

An assembler keeps a copy of the machine it was given, so that later changes to
the description do not reach it, and the program of the last assembly that
succeeded. Whatever fails leaves both as they are.

In a session the descriptions of its user and the copies of the assembler lie in the same
storage. The user edits a description through references to its pieces, also while the
assembler has a copy of it.
-/
namespace CellAsm

structure Assembler where
  machine : Machine
  result : Option Program := none
deriving Repr

/-- Why a machine is refused. -/
inductive MachineError
  | absent
  | invalid (d : Machine.Defect)
deriving DecidableEq, Repr

def MachineError.message : MachineError → Text
  | absent => "nil machine"
  | invalid d => Text.join ["invalid machine: ", d.message]

namespace Assembler

/-- The copy of a machine that an assembler keeps, if programs can be assembled
for it. -/
def accept (m : Option Machine) : Except MachineError Machine :=
  match m with
  | none => .error .absent
  | some m => do
    m.snapshot.validate.mapError .invalid
    return m.snapshot

def create (m : Option Machine) : Except MachineError Assembler := do
  return { machine := ← accept m }

/-- Assembles a source text, and the assembler after that. -/
def assembleSource (a : Assembler) (library : Library) (name contents : Text) (start : UInt64) :
    Assembler × Assembly :=
  let run := SourceEnv.assemble ⟨a.machine, some library⟩ name contents start
  match run.result with
  | .ok p => ({ a with result := some p }, run)
  | .error _ => (a, run)

/-- Assembles a file of the library. -/
def assembleFile (a : Assembler) (library : Library) (name : Text) (start : UInt64) :
    Assembler × Assembly :=
  match library.read name with
  | .error reason =>
    (a, ⟨.error (.diagnostic ⟨.unreadable "read source" name reason, none⟩), []⟩)
  | .ok contents => a.assembleSource library name contents start

end Assembler

-- ---------------------------------------------------------------------------
-- Sessions
-- ---------------------------------------------------------------------------

/-- An assembler, with its machine in storage. -/
structure StoredAssembler where
  machine : Ref .machine
  result : Option Program := none

/-- An assembler, the descriptions of its user, and the files. -/
structure Session where
  files : Table Text := {}
  storage : Storage := {}
  /-- The pieces that the user has references to. These are the pieces that the user made:
  a reference cannot be made up. -/
  owned : List Piece := []
  /-- The description that was last taken over. -/
  held : Option (Ref .machine) := none
  assembler : Option StoredAssembler := none

/-- What the user of a session does. -/
inductive Command
  /-- Makes a description. -/
  | describe (m : Machine)
  /-- Makes a piece, from references that the user has. -/
  | store (k : PieceKind) (c : k.Content)
  /-- Changes a piece that the user has a reference to. -/
  | write {k : PieceKind} (r : Ref k) (c : k.Content)
  | new (m : Option (Ref .machine))
  | update (m : Option (Ref .machine))
  /-- Edits the opcode of an instruction of the held description. -/
  | setOpcode (index : Int) (value : UInt64)
  /-- Edits a constant of the held description. -/
  | setEqu (index : Int) (value : Int)
  /-- Hands over the held description again. -/
  | reload
  | put (name contents : Text)
  | delete (name : Text)
  | source (name contents : Text) (start : UInt64)
  | file (name : Text) (start : UInt64)
  | program

/-- What the session answers. -/
inductive Answer
  | done
  | described (r : Ref .machine)
  | stored (p : Piece)
  | count (n : Nat)
  | program (p : Option Program)
  | refused (e : MachineError)
  | failed (f : Failure)
deriving Repr

/-- The list with one item changed, if it has one at the index. -/
def modifyAt? {α : Type} (l : List α) (i : Int) (f : α → α) : Option (List α) :=
  if 0 ≤ i ∧ i < l.length then some (l.modify i.toNat f) else none

namespace Session

def faulty (s : Session) (f : Fault) : Session × Answer := (s, .failed (.fault f))

-- ---------------------------------------------------------------------------
-- The descriptions of the user
-- ---------------------------------------------------------------------------

/-- The user has all the references in some content. -/
def Owns (s : Session) {k : PieceKind} (c : k.Content) : Prop := ∀ p ∈ k.refersTo c, p ∈ s.owned

instance (s : Session) {k : PieceKind} (c : k.Content) : Decidable (s.Owns c) :=
  inferInstanceAs (Decidable (∀ p ∈ _, _))

def describe (s : Session) (m : Machine) : Session × Answer :=
  let (r, storage) := Storing.describe m s.storage
  ({ s with storage := storage, owned := s.owned ++ storage.beyond s.storage }, .described r)

def store (s : Session) (k : PieceKind) (c : k.Content) : Session × Answer :=
  if s.Owns c then
    let (r, storage) := Storing.store k c s.storage
    ({ s with storage := storage, owned := s.owned ++ [r.piece] }, .stored r.piece)
  else s.faulty .absent

def write (s : Session) {k : PieceKind} (r : Ref k) (c : k.Content) : Session × Answer :=
  if r.piece ∈ s.owned ∧ s.Owns c then ({ s with storage := s.storage.write r c }, .done)
  else s.faulty .absent

/-- Changes a list of the held description; there must be one, with such an item. -/
def edit (s : Session) {k : PieceKind} (list : MachineRecord → Option (Ref k))
    (f : k.Content → Option k.Content) : Session × Answer :=
  match s.storage.find? s.held with
  | none => s.faulty .absent
  | some m =>
    match list m with
    | none => s.faulty .outOfRange
    | some r =>
      match (s.storage.read? r).bind f with
      | none => s.faulty .outOfRange
      | some c => ({ s with storage := s.storage.write r c }, .done)

-- ---------------------------------------------------------------------------
-- The assembler
-- ---------------------------------------------------------------------------

/-- The copy of a description that an assembler keeps, if programs can be assembled
for it, and the storage with it. -/
def accept (s : Session) (m : MachineRecord) : Except MachineError (Ref .machine × Storage) :=
  let (copy, storage) := Storing.snapshot m s.storage
  match storage.machine? copy with
  | none => .error .absent
  | some machine => do
    machine.validate.mapError .invalid
    return (copy, storage)

/-- Takes over a description, and holds it on success. What was copied in vain is dropped. -/
def hand (s : Session) (m : Option (Ref .machine))
    (keep : Ref .machine → Option StoredAssembler) : Session × Answer :=
  match m with
  | none => (s, .refused .absent)
  | some r =>
    match if r.piece ∈ s.owned then s.storage.read? r else none with
    | none => s.faulty .absent
    | some record =>
      match s.accept record with
      | .error e => (s, .refused e)
      | .ok (copy, storage) =>
        match keep copy with
        | none => s.faulty .absent
        | some a => ({ s with storage := storage, assembler := some a, held := m }, .done)

/-- Another description for the assembler, which must be there. -/
def update (s : Session) (m : Option (Ref .machine)) : Session × Answer :=
  s.hand m fun copy => s.assembler.map fun a => { a with machine := copy }

/-- The assembler with its machine. -/
def assembler? (s : Session) : Option Assembler := do
  let a ← s.assembler
  let machine ← s.storage.machine? a.machine
  return ⟨machine, a.result⟩

/-- Runs an assembly. -/
def run (s : Session) (f : Assembler → Library → Assembler × Assembly) : Session × Answer :=
  match s.assembler? with
  | none => s.faulty .absent
  | some a =>
    let (a, assembly) := f a (.ofRoot s.files)
    let answer :=
      match assembly.result with
      | .ok p => .count p.blocks.length
      | .error e => .failed e
    ({ s with assembler := s.assembler.map ({ · with result := a.result }) }, answer)

def step (s : Session) : Command → Session × Answer
  | .describe m => s.describe m
  | .store k c => s.store k c
  | .write r c => s.write r c
  | .new m => s.hand m fun copy => some { machine := copy }
  | .update m => s.update m
  | .reload => s.update s.held
  | .setOpcode i value =>
    s.edit MachineRecord.instructions fun specs => modifyAt? specs i ({ · with opcode := value })
  | .setEqu i value =>
    s.edit MachineRecord.equs fun equs => modifyAt? equs i ({ · with value := value })
  | .put name contents => ({ s with files := s.files.insert name contents }, .done)
  | .delete name => ({ s with files := s.files.erase name }, .done)
  | .source name contents start =>
    s.run fun a library => a.assembleSource library name contents start
  | .file name start => s.run fun a library => a.assembleFile library name start
  | .program =>
    match s.assembler with
    | none => s.faulty .absent
    | some a => (s, .program a.result)

/-- The code of the last assembly that succeeded. -/
def result? (s : Session) : Option (List Block) :=
  s.assembler.bind fun a => a.result.map Program.blocks

end Session

end CellAsm
