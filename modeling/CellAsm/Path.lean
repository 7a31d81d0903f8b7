-- SUMMARY: Slash-separated file names: shortest form, directory part, and names relative to a file.
import CellAsm.Text.Basic

/-!
# File names

Names of source files are slash separated. A name is clean if it has no empty,
`.` or avoidable `..` element; every name has a clean form that denotes the same
file in a tree without links.
-/
namespace CellAsm.Path

def slash : UInt8 := '/'.toUInt8

/-- A name that starts at the root. -/
def isAbsolute : Text → Bool
  | b :: _ => b == slash
  | [] => false

/-- One more element on top of the elements kept so far, the last of them first. -/
def push (rooted : Bool) (kept : List Text) (element : Text) : List Text :=
  if element = [] ∨ element = Text.ofString "." then kept
  else if element = Text.ofString ".." then
    match kept with
    | last :: rest => if last = Text.ofString ".." then element :: kept else rest
    | [] => if rooted then [] else [element]
  else element :: kept

/-- The shortest name of the same file: no empty and no `.` elements, and a `..`
only where nothing before it can be taken back. -/
def clean (name : Text) : Text :=
  let rooted := isAbsolute name
  let kept := (name.splitAtByte slash).foldl (push rooted) []
  let body := Text.joinWith [slash] kept.reverse
  if rooted then slash :: body
  else if body = [] then Text.ofString "." else body

/-- The clean name of the directory a file lies in. -/
def directory (name : Text) : Text :=
  clean (name.reverse.dropWhile (· != slash)).reverse

/-- The file that `name` denotes when it is written in the file `current`. -/
def relativeTo (current name : Text) : Text :=
  if isAbsolute name then name
  else clean (directory current ++ slash :: name)

end CellAsm.Path
