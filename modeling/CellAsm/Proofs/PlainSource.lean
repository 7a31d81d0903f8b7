-- SUMMARY: A source without templates and included files is read line by line.
import CellAsm.Proofs.Stages

/-!
# Plain sources

Reading follows files into files and templates into templates. A source that has
neither is read by a plain recursion over its lines, which can be evaluated. What
that recursion reads is what reading in general gives. A small machine and source
stand at the end, on which general statements are tried.
-/
namespace CellAsm

namespace SourceState

/-- Reads a line as if there were no templates. -/
def plainRead (m : Machine) (s : SourceState) (line : Line) : Except Failure SourceState := do
  checkLegal line
  let s := s.addLabels line
  match line.dropWhile (·.kind == .label) with
  | [] => .ok s
  | head :: rest =>
    match equLine? head rest with
    | some (keyword, value) => s.defineEqu m keyword head value
    | none => s.plainLine m head rest

/-- Reads lines as long as no template is defined. -/
def plainReads? (m : Machine) : List Line → SourceState → Option SourceState
  | [], s => some s
  | line :: rest, s =>
    if s.defining.isSome || !s.templates.entries.isEmpty then none
    else (s.plainRead m line).toOption.bind (plainReads? m rest)

/-- Reads a source that has neither templates nor included files. -/
def plainParse? (m : Machine) (name contents : Text) : Option SourceState := do
  let source := SourceLines.ofText m.punctuationTable name contents
  let s ← plainReads? m source.lines {}
  if source.error.isSome || s.defining.isSome then none
  else if s.closeLabels.checkSymbols m = .ok () then some s.closeLabels else none

end SourceState

namespace SourceEnv

open SourceState

theorem readLine_of_plainRead {env : SourceEnv} {file : Text} {outer : List Text} {depth : Nat}
    {line : Line} {s s' : SourceState} (htemplates : s.templates.entries = [])
    (h : s.plainRead env.machine line = .ok s') :
    env.readLine (file :: outer) depth line s = .ok s' := by
  simp only [plainRead, bind_eq_ok] at h
  obtain ⟨_, hlegal, h⟩ := h
  have htaken : LineTaken env file outer depth line s s' .nothing := by
    cases hline : line.dropWhile (·.kind == .label) with
    | nil =>
      rw [hline] at h
      cases h
      exact .labels hline
    | cons head rest =>
      rw [hline] at h
      dsimp only at h
      cases hequ : equLine? head rest with
      | some definition =>
        rw [hequ] at h
        exact .equ hline hequ h
      | none =>
        rw [hequ] at h
        refine .plain hline hequ ?_ ?_ h
        · -- a line that includes a file is no plain line
          intro hkind
          simp only [plainLine, hkind] at h
          cases h
        · intro _
          rw [Table.find?, htemplates]
          rfl
  rw [readLine_eq, takeLine_of_lineTaken hlegal htaken]
  rfl

theorem readLines_of_plainReads? {env : SourceEnv} {file : Text} {outer : List Text}
    {lines : List Line} {s s' : SourceState} (h : plainReads? env.machine lines s = some s') :
    env.readLines (file :: outer) lines s = .ok s' := by
  induction lines generalizing s with
  | nil =>
    cases h
    rw [readLines]
  | cons line rest ih =>
    unfold plainReads? at h
    split at h
    · cases h
    · rename_i hplain
      simp only [Bool.or_eq_true, Bool.not_eq_true', not_or, Bool.not_eq_true, Option.isSome_eq_false_iff,
        Option.isNone_iff_eq_none, Bool.not_eq_false, List.isEmpty_iff] at hplain
      obtain ⟨hdefining, htemplates⟩ := hplain
      obtain ⟨next, hnext, hrest⟩ := Option.bind_eq_some_iff.1 h
      rw [readLines_of_closed hdefining, bind_eq_ok]
      exact ⟨next, readLine_of_plainRead htemplates (toOption_eq_some.1 hnext), ih hrest⟩

/-- What a plain source is read as. -/
theorem parse_of_plainParse? {env : SourceEnv} {name contents : Text} {s : SourceState}
    (h : plainParse? env.machine name contents = some s) : env.parse name contents = .ok s := by
  simp only [plainParse?, Option.bind_eq_bind, Option.bind_eq_some_iff] at h
  obtain ⟨gathered, hgathered, h⟩ := h
  split at h
  · cases h
  · rename_i hend
    split at h
    · rename_i hcheck
      cases h
      simp only [Bool.or_eq_true, not_or, Bool.not_eq_true, Option.isSome_eq_false_iff,
        Option.isNone_iff_eq_none] at hend
      obtain ⟨herror, hdefining⟩ := hend
      rw [parse_eq]
      simp only [bind_eq_ok, pure_eq_ok, attempt_eq_ok]
      refine ⟨gathered, readLines_of_plainReads? hgathered, gathered, ?_, (), hcheck, rfl⟩
      rw [linesOf, herror]
      simp only [endOfFile, hdefining]
    · cases h

end SourceEnv

/-! ## Assembling plain sources -/

/-- Assembles a source that has neither templates nor included files. -/
def plainAssemble? (m : Machine) (name contents : Text) (start : UInt64) : Option Program := do
  let s ← SourceState.plainParse? m name contents
  (SourceEnv.finish ⟨m, none⟩ start s).result.toOption

theorem Assembler.assembleSource_of_plainAssemble? {a : Assembler} (library : Library)
    {name contents : Text} {start : UInt64} {p : Program}
    (h : plainAssemble? a.machine name contents start = some p) :
    (a.assembleSource library name contents start).2.result = .ok p := by
  simp only [plainAssemble?, Option.bind_eq_bind, Option.bind_eq_some_iff] at h
  obtain ⟨s, hs, hfinish⟩ := h
  let env : SourceEnv := ⟨a.machine, some library⟩
  have hparse : env.parse name contents = .ok s := SourceEnv.parse_of_plainParse? hs
  rw [assembleSource_snd, SourceEnv.assemble, hparse]
  exact toOption_eq_some.1 hfinish

namespace Sample

/-- The distance of a jump, counted from its own address. -/
def distance : Field where
  name := "to"
  bits := 8
  relativity := .preIncrement
  signed := true

/-- One of two registers. -/
def register : Field where
  name := "reg"
  bits := 8
  values := [⟨"r0", 0⟩, ⟨"r1", 1⟩]

def jump : Instruction where
  name := "jmp"
  opcode := 1
  fieldList := some [{ bits := 8 }, distance]

def select : Instruction where
  name := "sel"
  opcode := 2
  fieldList := some [{ bits := 8 }, register]

def machine : Machine where
  cellSize := 8
  instructionList := some [jump, select]

def assembler : Assembler := ⟨machine.snapshot, none⟩

def library : Library := .ofTable {}

/-- Jumps forward and backward over an alignment, and names of all kinds. -/
def source : Text := "k EQU -1\ntop: jmp end\n .align 4\n sel r1\nend: jmp top\n .data 2, [k, end]\n .ascii \"hi\"\n"

/-- What a plain source for the sample machine is read as. -/
def read (contents : Text) : SourceState :=
  (SourceState.plainParse? assembler.machine "sample" contents).getD {}

/-- A jump to address 200, which is too far for its field from low addresses. -/
def farSource : Text := "top: jmp end\n .pos 200\nend: jmp top\n"

/-- A label where a register is expected. -/
def straySource : Text := "foo: sel foo\n"

theorem accepted : Assembler.accept (some machine) = .ok assembler.machine := by decide +kernel

theorem parse_eq_read {contents : Text}
    (h : (SourceState.plainParse? assembler.machine "sample" contents).isSome) :
    SourceEnv.parse ⟨assembler.machine, some library⟩ "sample" contents = .ok (read contents) := by
  obtain ⟨s, hs⟩ := Option.isSome_iff_exists.1 h
  rw [read, hs]
  exact SourceEnv.parse_of_plainParse? hs

end Sample

end CellAsm
