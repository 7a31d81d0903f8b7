-- SUMMARY: The command line on the real file system.
import CellAsm.CommandLine.Directory

/-!
# The command

Files are read when a run asks for them: the run is planned with the files read
so far, and planned again when it misses one that has not been tried.
-/
namespace CellAsm.CommandLine

def bytesToText (bytes : ByteArray) : Text := bytes.data.toList

def textToBytes (t : Text) : ByteArray := ⟨t.toArray⟩

/-- The reason for which the system refused to open a file. -/
def openError (name : Text) (e : IO.Error) : Text :=
  match e with
  | .noFileOrDirectory .. => Directory.complaint "open" name .notFound
  | e => Text.join ["open ", name, ": ", e.toString]

/-- The reason for which a file has no contents. -/
def fileError (name : Text) (e : IO.Error) : FileError :=
  match e with
  | .inappropriateType .. => ⟨true, Directory.complaint "read" name .isDirectory⟩
  | e => ⟨false, openError name e⟩

def readFile (name : Text) : IO (Except FileError Text) := do
  match name.toString? with
  | none => return .error ⟨false, Directory.complaint "open" name .notFound⟩
  | some path =>
    try
      return .ok (bytesToText (← IO.FS.readBinFile path))
    catch e =>
      return .error (fileError name e)

def writeFile (name contents : Text) : IO (Except Text Unit) := do
  match name.toString? with
  | none => return .error (Directory.complaint "open" name .notFound)
  | some path =>
    try
      IO.FS.writeBinFile path (textToBytes contents)
      return .ok ()
    catch e =>
      return .error (openError name e)

/-- What has been read so far. -/
abbrev Known := Table (Except FileError Text)

def Known.read (known : Known) (name : Text) : Except FileError Text :=
  match known.find? name with
  | some r => r
  | none => .error ⟨false, Directory.complaint "open" name .notFound⟩

def Known.view (known : Known) : FileView where
  read := known.read
  library := {
    read := fun name => (known.read name).mapError FileError.message
    names := known.names
    mem_names := by
      intro name contents h
      unfold Known.read at h
      split at h
      · rename_i hfind
        exact Table.mem_names_of_find? hfind
      · cases h }

/-- Plans a run, reading files as they turn out to be needed. -/
partial def settle (argv : List Text) (known : Known) : IO Plan := do
  let p := plan known.view argv
  match p.unread with
  | some name =>
    if known.contains name then return p
    else settle argv (known.insert name (← readFile name))
  | none => return p

/-- Carries out the steps until one fails; the exit code. -/
def carryOut : List Step → IO UInt32
  | [] => return 0
  | .print t :: rest => do
    (← IO.getStdout).write (textToBytes t)
    carryOut rest
  | .write file contents :: rest => do
    match ← writeFile file contents with
    | .ok _ => carryOut rest
    | .error reason => do
      (← IO.getStderr).write (textToBytes (errorLine reason))
      return 1
  | .fail message :: _ => do
    (← IO.getStderr).write (textToBytes (errorLine message))
    return 1
  | .crash _ :: _ => return 2

end CellAsm.CommandLine

/-- Runs the command; the first argument is the name it was called by. -/
def main (args : List String) : IO UInt32 := do
  let argv := (← IO.appPath).toString :: args
  let p ← CellAsm.CommandLine.settle (argv.map CellAsm.Text.ofString) {}
  CellAsm.CommandLine.carryOut p.steps
