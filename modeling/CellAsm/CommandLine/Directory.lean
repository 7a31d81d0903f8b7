-- SUMMARY: Runs of the command line on a directory held in memory.
import CellAsm.CommandLine.Plan
import CellAsm.Path

/-!
# Directories

A directory is given by the files in it and below it. A subdirectory exists if
some file lies in it. Names are looked up element by element, so every element
but the last must be a directory, even if `..` leaves it again. The directories
above exist too, and nothing else is known to lie in them.
-/
namespace CellAsm.CommandLine

structure Directory where
  files : Table Text := {}
deriving Repr

/-- Why a name can not be looked up or opened. -/
inductive LookupError
  | notFound
  | notDirectory
  | isDirectory
  | nameTooLong
  /-- The name holds a NUL. -/
  | invalid
deriving DecidableEq, Repr

def LookupError.message : LookupError → Text
  | notFound => "no such file or directory"
  | notDirectory => "not a directory"
  | isDirectory => "is a directory"
  | nameTooLong => "file name too long"
  | invalid => "invalid argument"

namespace Directory

def nameOf (path : List Text) : Text := Text.joinWith [Path.slash] path

def up : Text := Text.ofString ".."

/-- The directory itself, one above it, or one that holds a file. -/
def isDirectory (d : Directory) (path : List Text) : Bool :=
  path.all (· == up) || d.files.names.any fun n => (nameOf path ++ [Path.slash]).isPrefixOf n

def isFile (d : Directory) (path : List Text) : Bool := d.files.contains (nameOf path)

/-- The longest element a name may have. -/
def maxElement : Nat := 255

/-- The longest name. -/
def maxName : Nat := 4095

/-- Goes into the elements one after the other, each from a directory. -/
def walk (d : Directory) : List Text → List Text → Except LookupError (List Text)
  | path, [] => .ok path
  | path, element :: rest =>
    if !d.isDirectory path then .error (if d.isFile path then .notDirectory else .notFound)
    else if element = [] ∨ element = Text.ofString "." then d.walk path rest
    else if element = up then
      d.walk (if path.all (· == up) then path ++ [up] else path.dropLast) rest
    else if maxElement < element.length then .error .nameTooLong
    else d.walk (path ++ [element]) rest

/-- The path that a name denotes, whether or not there is a file. The root is a
directory above. -/
def resolve (d : Directory) (name : Text) : Except LookupError (List Text) :=
  if name.contains 0 then .error .invalid
  else if name = [] then .error .notFound
  else if maxName < name.length then .error .nameTooLong
  else if Path.isAbsolute name then
    if Path.clean name = [Path.slash] then .ok [up] else .error .notFound
  else d.walk [] (name.splitAtByte Path.slash)

/-- The name without the slashes at its end. -/
def withoutSlashes (name : Text) : Text := (name.reverse.dropWhile (· == Path.slash)).reverse

/-- The path that a file would be created at. A slash at the end of its name asks
for a directory. -/
def resolveNew (d : Directory) (name : Text) : Except LookupError (List Text) := do
  let bare := withoutSlashes name
  if bare = [] then
    let _ ← d.resolve name
    .error .isDirectory
  else
    let path ← d.resolve bare
    if bare ≠ name ∨ d.isDirectory path then .error .isDirectory else return path

def complaint (operation : String) (name : Text) (e : LookupError) : Text :=
  Text.join [operation, " ", name, ": ", e.message]

/-- The contents of a file. A directory can be opened, but not read. -/
def read (d : Directory) (name : Text) : Except FileError Text :=
  match d.resolve name with
  | .error e => .error ⟨false, complaint "open" name e⟩
  | .ok path =>
    if d.isDirectory path then .error ⟨true, complaint "read" name .isDirectory⟩
    else match d.files.find? (nameOf path) with
      | some contents => .ok contents
      | none => .error ⟨false, complaint "open" name .notFound⟩

/-- Creates a file or replaces its contents. -/
def write (d : Directory) (name contents : Text) : Except Text Directory :=
  match d.resolveNew name with
  | .error e => .error (complaint "open" name e)
  | .ok path => .ok ⟨d.files.insert (nameOf path) contents⟩

/-- The files as they can be included: under their own names. -/
def library (d : Directory) : Library where
  read name :=
    match d.read name, Library.readTable d.files name with
    | .error e, _ => .error e.message
    | .ok _, .ok contents => .ok contents
    | .ok _, .error _ => .error (complaint "open" name .notFound)
  names := d.files.names
  mem_names := by
    intro name contents h
    split at h
    · simp at h
    · rename_i hread
      exact Library.mem_names_of_readTable hread
    · simp at h

def view (d : Directory) : FileView := ⟨d.read, d.library⟩

end Directory

/-- What a run printed, how it ended, and the files after it. -/
structure Outcome where
  exitCode : Nat := 0
  stdout : Text := []
  stderr : Text := []
  directory : Directory
deriving Repr

/-- How an error is shown. -/
def errorLine (message : Text) : Text := Text.join ["Error: ", message, "\n"]

/-- Carries out the steps in a directory until one fails. -/
def perform (o : Outcome) : List Step → Outcome
  | [] => o
  | .print t :: rest => perform { o with stdout := o.stdout ++ t } rest
  | .write file contents :: rest =>
    match o.directory.write file contents with
    | .ok d => perform { o with directory := d } rest
    | .error reason => { o with exitCode := 1, stderr := o.stderr ++ errorLine reason }
  | .fail message :: _ => { o with exitCode := 1, stderr := o.stderr ++ errorLine message }
  | .crash _ :: _ => { o with exitCode := 2 }

/-- A whole run in a directory. -/
def run (d : Directory) (argv : List Text) : Outcome :=
  perform { directory := d } (plan d.view argv).steps

end CellAsm.CommandLine
