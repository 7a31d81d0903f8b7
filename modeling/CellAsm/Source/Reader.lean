-- SUMMARY: Reading a program with the templates it calls and the files it includes.
import CellAsm.Library
import CellAsm.Path
import CellAsm.Source.State

/-!
# Reading a program

Three functions call each other: one reads the lines of a file, one reads a
single line, and one reads the lines of an expanded template. A line may expand a
template, up to a fixed depth, or include a file, which starts again at depth
zero. A file that is being read can not be included again, and only finitely many
can be opened, so reading ends.
-/
namespace CellAsm

/-- Why and after which records reading stopped. -/
structure Stop where
  failure : Failure
  log : List Record
deriving DecidableEq, Repr

/-- The machine a program is for, and the files it may include. -/
structure SourceEnv where
  machine : Machine
  library : Option Library := none

namespace SourceEnv

/-- How many more files can be opened when those of `stack` are being read. -/
def unopened (env : SourceEnv) (stack : List Text) : Nat :=
  match env.library with
  | some lib => lib.unopened stack
  | none => 0

theorem unopened_cons_lt {env : SourceEnv} {lib : Library} {stack : List Text}
    {name contents : Text} (hlib : env.library = some lib) (hread : lib.read name = .ok contents)
    (hnew : name ∉ stack) : env.unopened (name :: stack) < env.unopened stack := by
  unfold unopened
  rw [hlib]
  exact lib.unopened_cons_lt hread hnew

/-- The lines of a file under the punctuation of the machine. -/
def scanLines (env : SourceEnv) (file contents : Text) : Except Failure SourceLines :=
  (SourceLines.scan env.machine.punctuationTable file contents).mapError .fault

end SourceEnv

namespace SourceState

def stop {α : Type} (s : SourceState) (f : Failure) : Except Stop α := .error ⟨f, s.log⟩

/-- A step that records nothing before it fails. -/
def attempt {α : Type} (s : SourceState) (r : Except Failure α) : Except Stop α :=
  r.mapError fun f => ⟨f, s.log⟩

/-- The leading labels of a line wait for the next statement, and the rest of the
line is left. -/
def takeLabels (s : SourceState) (line : Line) : Except Failure (SourceState × Line) :=
  if line.length = 0 then .ok (s, line)
  else do
    let head ← Strict.get line 0
    if head.kind = .label then
      match _h : Strict.suffix line 1 with
      | .error e => .error e
      | .ok rest => takeLabels { s with pending := s.pending ++ [head] } rest
    else .ok (s, line)
termination_by line.length
decreasing_by exact Strict.length_lt_of_suffix Int.zero_lt_one _h

/-- The end of a file: a lexical error if there was one, and no open template. -/
def endOfFile (s : SourceState) (error : Option Diagnostic) : Except Stop SourceState :=
  match error with
  | some d => s.stop (.diagnostic d)
  | none =>
    match s.defining with
    | some t => s.stop (.blame t.name (.templateUnclosed t.name.contents))
    | none => .ok s

/-- A line `EQU name value`. -/
def equBefore (m : Machine) (s : SourceState) (keyword : Token) (rest : List Token) :
    Except Failure SourceState :=
  if rest.length = 0 then .error (.blame keyword .equIncomplete)
  else do
    let name ← Strict.get rest 0
    let value ← Strict.suffix rest 1
    s.defineEqu m keyword name value

/-- A line `name EQU value`. -/
def equBetween (m : Machine) (s : SourceState) (name : Token) (rest : List Token) :
    Except Failure SourceState := do
  let keyword ← Strict.get rest 0
  let value ← Strict.suffix rest 1
  s.defineEqu m keyword name value

/-- A line that neither expands a template nor includes a file; it has no labels
in front. -/
def plainLine (m : Machine) (s : SourceState) (head : Token) (rest : List Token) :
    Except Failure SourceState :=
  match head.kind with
  | .equ => s.equBefore m head rest
  | .templateStart => s.startTemplate m head rest
  | .templateEnd => .error (.blame head .templateNotOpen)
  | .exported => s.exportNames head rest
  | .ascii => s.ascii head rest
  | .data => s.data head rest
  | .long => s.sized head rest 4
  | .short => s.sized head rest 2
  | .align => s.cellDirective head .align rest
  | .pos => s.cellDirective head .pos rest
  | .identifier => s.instruction m head rest
  | k => .error (.blame head (.unexpected k))

end SourceState

namespace SourceEnv

mutual

/-- Reads the lines of a file. It is the first of `files`; each of them was included
by the next. -/
def readLines (env : SourceEnv) (files : List Text) :
    List Line → SourceState → Except Stop SourceState
  | [], s => .ok s
  | line :: rest, s => do
    let s ← if s.defining.isSome then s.attempt (s.collectOpen line)
      else env.readLine files 0 line s
    env.readLines files rest s
termination_by lines _ => (env.unopened files, maxExpansionDepth + 2, lines.length)

/-- Reads a line at some depth of expanded templates. -/
def readLine (env : SourceEnv) (files : List Text) (depth : Nat) (line : Line)
    (s : SourceState) : Except Stop SourceState := do
  s.attempt (SourceState.checkLegal line)
  let (s, line) ← s.attempt (s.takeLabels line)
  if line.length = 0 then .ok s
  else
    let head ← s.attempt (Strict.get line 0)
    let rest ← s.attempt (Strict.suffix line 1)
    if head.kind = .identifier ∧ (← s.attempt (SourceState.startsWith .equ rest)) then
      s.attempt (s.equBetween env.machine head rest)
    else if head.kind = .inclusion then
      match ← s.attempt (SourceState.soleOf (· == .string) rest) with
      | none => s.stop (.blame head (.fileNameMissing head.contents))
      | some t =>
        let file ← s.attempt (Strict.get files 0)
        let name := Path.relativeTo file t.contents
        if _hnew : name ∈ files then s.stop (.blame t (.cyclicInclude name))
        else match _hlib : env.library with
          | none => s.stop (.blame t .includeUnavailable)
          | some lib =>
            match _hread : lib.read name with
            | .error reason => s.stop (.blame t (.unreadable "include" name reason))
            | .ok contents =>
              let s := { s with log := s.log ++ [.included name file] }
              let source ← s.attempt (env.scanLines name contents)
              let s ← env.readLines (name :: files) source.lines s
              s.endOfFile source.error
    else if head.kind = .identifier then
      match s.templates.find? head.contents with
      | some t =>
        if _hdepth : maxExpansionDepth ≤ depth then
          s.stop (.blame head (.expansionTooDeep t.name.contents))
        else
          let lines ← s.attempt (SourceState.expansion t head rest)
          env.readExpansion files (depth + 1) lines s
      | none => s.attempt (s.plainLine env.machine head rest)
    else s.attempt (s.plainLine env.machine head rest)
termination_by (env.unopened files, maxExpansionDepth + 1 - depth, 0)
decreasing_by
  · exact Prod.Lex.left _ _ (unopened_cons_lt _hlib _hread _hnew)
  · apply Prod.Lex.right
    apply Prod.Lex.left
    omega

/-- Reads the lines of an expanded template. -/
def readExpansion (env : SourceEnv) (files : List Text) (depth : Nat) :
    List Line → SourceState → Except Stop SourceState
  | [], s => .ok s
  | line :: rest, s => do
    let s ← env.readLine files depth line s
    env.readExpansion files depth rest s
termination_by lines _ => (env.unopened files, maxExpansionDepth + 1 - depth, lines.length + 1)

end

end SourceEnv

end CellAsm
