-- SUMMARY: What a run of the command line does, as a list of steps.
import CellAsm.CommandLine.Options
import CellAsm.Image
import CellAsm.Listing
import CellAsm.Machine.Reading
import CellAsm.Session

/-!
# Runs of the command line

All that a run does is decided from its arguments and the files it reads. The
outcome is a list of steps, to be carried out in order until one fails.
-/
namespace CellAsm.CommandLine

inductive Step
  | print (t : Text)
  | write (file contents : Text)
  /-- Reports an error and ends the run. -/
  | fail (message : Text)
  /-- Ends the run because some data has no meaning. -/
  | crash (f : Fault)
deriving DecidableEq, Repr

/-- Why a file has no contents. -/
structure FileError where
  /-- It could be opened, and only reading it failed. -/
  opened : Bool
  message : Text
deriving DecidableEq, Repr

/-- The files a run may read: by name, and as a library for included files. -/
structure FileView where
  read : Text → Except FileError Text
  library : Library

/-- The steps of a run, and the file whose absence ended it, if one did. -/
structure Plan where
  steps : List Step
  unread : Option Text := none
deriving DecidableEq, Repr

namespace Plan

def failing (message : Text) : Plan := { steps := [.fail message] }

end Plan

/-- Writes an image of the code: bytes, or hexadecimal lines. -/
def imageStep (code : List Block) (cellSize : Int) (file : Text) (binary : Bool) : Step :=
  match loadImage code cellSize with
  | .error (.fault f) => .crash f
  | .error e => .fail e.message
  | .ok (store, first, stop) =>
    let contents :=
      if binary then store.bytes (signed first) (signed stop)
      else (store.writeHex {} (signed first) (signed stop)).map Written.text
    match contents with
    | .ok t => .write file t
    | .error f => .crash f

/-- Prints the listing, with the source of the main file. -/
def listingStep (code : List Block) (file source : Text) : Step :=
  match Listing.write {} code (.ofList [(file, source)]) with
  | .ok w => .print w.text
  | .error f => .crash f

/-- What is done with the code of a program. -/
def codeSteps (opts : Options) (cellSize : Int) (file source : Text) (code : List Block) :
    List Step :=
  (if opts.listing then [listingStep code file source] else [])
    ++ (if opts.output = [] then [] else [imageStep code cellSize opts.output false])
    ++ (if opts.binary = [] then [] else [imageStep code cellSize opts.binary true])

/-- The text of an error in a machine description. -/
def loadErrorText : Machine.LoadError → Text
  | .unreadable .empty => "decode machine: EOF"
  | e => e.message?.getD (Text.ofString "decode machine: invalid JSON")

/-- The machine in a file. -/
def loadMachine (view : FileView) (file : Text) : Except Plan Machine :=
  match view.read file with
  | .error e =>
    let message :=
      if e.opened then Text.join ["load machine ", file, ": decode machine: ", e.message]
      else Text.join ["load machine: ", e.message]
    .error { steps := [.fail message], unread := some file }
  | .ok contents =>
    match Machine.load contents with
    | .ok m => .ok m
    | .error e => .error (.failing (Text.join ["load machine ", file, ": ", loadErrorText e]))

/-- The file that could not be read, if that is what a failure says. -/
def unreadFile? : Failure → Option Text
  | .diagnostic ⟨.unreadable _ file _, _⟩ => some file
  | _ => none

/-- Ends a run with a failed assembly. -/
def failurePlan (f : Failure) : Plan :=
  match f with
  | .fault f => { steps := [.crash f] }
  | .diagnostic d => { steps := [.fail d.report.text], unread := unreadFile? f }

/-- The steps for the given options. -/
def planFor (view : FileView) (opts : Options) : Except Plan Plan := do
  let file := opts.file.getD []
  let m ← loadMachine view (opts.machine.getD [])
  let a ← (Assembler.create (some m)).mapError fun e => Plan.failing e.message
  if opts.start < 0 then
    .error (.failing (Text.join ["negative start address ", Text.decimal opts.start]))
  else
    let source ← (view.read file).mapError fun e =>
      failurePlan (.diagnostic ⟨.unreadable "read source" file e.message, none⟩)
    let (_, run) := a.assembleSource view.library file source (UInt64.ofNat opts.start.toNat)
    match run.result with
    | .error f => .error (failurePlan f)
    | .ok p => return { steps := codeSteps opts m.cellSize file source p.blocks }

/-- The steps of a run with the given argument vector. -/
def plan (view : FileView) (argv : List Text) : Plan :=
  match options argv with
  | .error .noArguments => { steps := [.print help] }
  | .error e => .failing e.message
  | .ok opts =>
    match planFor view opts with
    | .ok p => p
    | .error p => p

end CellAsm.CommandLine
