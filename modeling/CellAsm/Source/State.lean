-- SUMMARY: What reading a program has gathered so far, and what each kind of line adds to it.
import CellAsm.Log
import CellAsm.Machine.Basic
import CellAsm.Source.Template
import CellAsm.Statement
import CellAsm.Table

/-!
# Reading statements

Reading a program gathers statements, constants, exported names and templates.
Labels wait for the next statement. While a template is being defined, lines are
collected into it instead.
-/
namespace CellAsm

/-- What has been gathered. -/
structure SourceState where
  statements : List Statement := []
  /-- Labels that wait for the next statement. -/
  pending : List Token := []
  /-- The value token of each constant, not resolved. -/
  equs : Table Token := {}
  /-- The name token of each constant. -/
  equNames : Table Token := {}
  /-- The exported names. -/
  exports : List Token := []
  templates : Table Template := {}
  /-- The template being defined. -/
  defining : Option Template := none
  log : List Record := []
deriving DecidableEq, Repr

namespace SourceState

/-- Adds a statement, which takes the waiting labels. -/
def emit (s : SourceState) (c : Statement) : SourceState :=
  { s with statements := s.statements ++ [{ c with labels := s.pending }], pending := [] }

/-- The first token that may not appear outside strings and comments. -/
def checkLegal : List Token → Except Failure Unit
  | [] => .ok ()
  | t :: rest =>
    if !t.legal || t.kind == .illegal then .error (.blame t (.illegalCharacter t.contents))
    else checkLegal rest

/-- Every operand is a name or a constant. -/
def checkOperands (cause : TokenKind → Cause) : List Token → Except Failure Unit
  | [] => .ok ()
  | o :: rest =>
    if o.kind = .identifier ∨ o.kind = .constant then checkOperands cause rest
    else .error (.blame o (cause o.kind))

/-- The list has a first token, of kind `k`. -/
def startsWith (k : TokenKind) (ts : List Token) : Except Failure Bool :=
  if ts.length = 0 then .ok false
  else do
    let t ← Strict.get ts 0
    return t.kind = k

/-- The only token of the list, if there is just one and its kind is accepted. -/
def soleOf (accepts : TokenKind → Bool) (ts : List Token) : Except Failure (Option Token) :=
  if ts.length ≠ 1 then .ok none
  else do
    let t ← Strict.get ts 0
    return if accepts t.kind then some t else none

-- ---------------------------------------------------------------------------
-- Machine instructions
-- ---------------------------------------------------------------------------

def instruction (m : Machine) (s : SourceState) (head : Token) (rest : List Token) :
    Except Failure SourceState :=
  match m.instruction? head.contents with
  | none => .error (.blame head (.unknownInstruction head.contents))
  | some spec => do
    let operands ← splitOperands rest
    checkOperands (.operandKind head.contents) operands
    let least := spec.minOperands
    let most := spec.operandSlots.length
    if operands.length < least ∨ most < operands.length then
      .error (.blame head (.operandCount head.contents least most operands.length))
    else
      return s.emit { instruction := some spec, keyword := head, operands := operands }

-- ---------------------------------------------------------------------------
-- Constants
-- ---------------------------------------------------------------------------

/-- The value of a constant: a number, or a constant defined before. -/
def checkEquValue (m : Machine) (s : SourceState) (symbol : Text) (value : Token) :
    Except Failure Unit :=
  match value.kind with
  | .constant => .ok ()
  | .identifier =>
    if s.equs.contains value.symbol || (m.equ? value.symbol).isSome then .ok ()
    else .error (.blame value (.equUndefined symbol value.contents))
  | k => .error (.blame value (.equValueKind symbol k))

/-- Defines the constant `name` with the value on the rest of the line. -/
def defineEqu (m : Machine) (s : SourceState) (keyword name : Token) (rest : List Token) :
    Except Failure SourceState := do
  if 0 < s.pending.length then
    let label ← Strict.get s.pending 0
    .error (.blame label (.labelOnEqu label.contents))
  else if name.kind ≠ .identifier then .error (.blame name (.equName name.kind))
  else if rest.length ≠ 1 then .error (.blame keyword (.equValueCount name.contents))
  else match s.equNames.find? name.symbol with
    | some previous => .error (.blame name (.equRedefined name.symbol previous.position))
    | none => do
      let value ← Strict.get rest 0
      checkEquValue m s name.symbol value
      return { s with
        equs := s.equs.insert name.symbol value
        equNames := s.equNames.insert name.symbol name }

-- ---------------------------------------------------------------------------
-- Directives
-- ---------------------------------------------------------------------------

/-- Every exported name is an identifier. -/
def checkExports (keyword : Token) : List Token → Except Failure Unit
  | [] => .ok ()
  | o :: rest =>
    if o.kind = .identifier then checkExports keyword rest
    else .error (.blame o (.exportKind keyword.contents o.kind))

def exportNames (s : SourceState) (keyword : Token) (rest : List Token) :
    Except Failure SourceState := do
  let names ← splitOperands rest
  if names.isEmpty then .error (.blame keyword (.exportMissing keyword.contents))
  else
    checkExports keyword names
    return { s with exports := s.exports ++ names }

def ascii (s : SourceState) (keyword : Token) (rest : List Token) :
    Except Failure SourceState := do
  match ← soleOf (· == .string) rest with
  | some t => .ok (s.emit { action := .ascii, keyword := keyword, operands := [t] })
  | none => .error (.blame keyword (.stringMissing keyword.contents))

/-- Values of `width` bytes each. -/
def values (s : SourceState) (keyword : Token) (ts : List Token) (width : Int) :
    Except Failure SourceState := do
  let operands ← splitOperands ts
  checkOperands (.valueKind keyword.contents) operands
  return s.emit { action := .data, keyword := keyword, operands := operands, width := width }

/-- Values of a fixed width, at least one. -/
def sized (s : SourceState) (keyword : Token) (rest : List Token) (width : Int) :
    Except Failure SourceState :=
  if rest.isEmpty then .error (.blame keyword (.valueMissing keyword.contents))
  else s.values keyword rest width

/-- The values behind a byte count: a single one, or several in brackets. -/
def bracketed (keyword : Token) (ts : List Token) : Except Failure (List Token) := do
  if ← startsWith .leftBracket ts then
    let last ← Strict.get ts (ts.length - 1)
    if last.kind ≠ .rightBracket then .error (.blame last (.dataUnclosed keyword.contents))
    else
      let values ← Strict.slice ts 1 (ts.length - 1)
      if values.isEmpty then .error (.blame last (.dataEmpty keyword.contents))
      else .ok values
  else if ts.length ≠ 1 then .error (.blame keyword (.dataUnbracketed keyword.contents))
  else .ok ts

/-- The tokens behind a byte count, without an optional comma in front. -/
def afterCount (rest : List Token) : Except Failure (List Token) := do
  let values ← Strict.suffix rest 1
  let first ← Strict.get values 0
  if first.kind = .comma then Strict.suffix values 1 else .ok values

/-- A byte count of 1 to 8, an optional comma, and values of that width. -/
def data (s : SourceState) (keyword : Token) (rest : List Token) :
    Except Failure SourceState := do
  if rest.length < 2 then .error (.blame keyword (.dataIncomplete keyword.contents))
  else
    let count ← Strict.get rest 0
    if count.kind ≠ .constant then .error (.blame keyword (.dataIncomplete keyword.contents))
    else match count.contents.toInt? with
      | some n =>
        if 1 ≤ n ∧ n ≤ 8 then
          let values ← bracketed keyword (← afterCount rest)
          s.values keyword values n
        else .error (.blame count (.dataWidth keyword.contents))
      | none => .error (.blame count (.dataWidth keyword.contents))

/-- An alignment or a position. -/
def cellDirective (s : SourceState) (keyword : Token) (action : Action) (rest : List Token) :
    Except Failure SourceState := do
  match ← soleOf (fun k => k == .constant || k == .identifier) rest with
  | some t => .ok (s.emit { action := action, keyword := keyword, operands := [t] })
  | none => .error (.blame keyword (.constantMissing keyword.contents))

-- ---------------------------------------------------------------------------
-- Templates
-- ---------------------------------------------------------------------------

/-- Starts the definition of a template. -/
def startTemplate (m : Machine) (s : SourceState) (keyword : Token) (rest : List Token) :
    Except Failure SourceState := do
  if ← startsWith .identifier rest then
    let name ← Strict.get rest 0
    match s.templates.find? name.contents with
    | some previous =>
      .error (.blame name (.templateRedefined name.contents previous.name.position))
    | none =>
      if (m.instruction? name.contents).isSome then
        .error (.blame name (.templateShadows name.contents))
      else
        let params ← splitOperands (← Strict.suffix rest 1)
        Template.checkParams name [] params
        return { s with defining := some { name := name, params := params } }
  else .error (.blame keyword .templateUnnamed)

/-- Adds a line to the template being defined, or closes it. -/
def collect (s : SourceState) (t : Template) (line : Line) : Except Failure SourceState :=
  let more : SourceState := { s with defining := some { t with body := t.body ++ [line] } }
  if line.length = 0 then .ok more
  else do
    let head ← Strict.get line 0
    match head.kind with
    | .templateEnd =>
      if 1 < line.length then
        let extra ← Strict.get line 1
        .error (.blame extra (.afterTemplateEnd extra.kind))
      else
        .ok { s with
          templates := s.templates.insert t.name.contents t
          defining := none
          log := s.log ++ [.templateDefined t.name.contents t.body.length] }
    | .templateStart => .error (.blame head (.templateNested t.name.contents))
    | _ => .ok more

/-- Collects a line while a template is being defined. -/
def collectOpen (s : SourceState) (line : Line) : Except Failure SourceState := do
  let t ← Strict.deref s.defining
  s.collect t line

/-- The lines that a call of a template stands for. -/
def expansion (t : Template) (call : Token) (rest : List Token) : Except Failure (List Line) := do
  let arguments ← splitOperands rest
  if arguments.length ≠ t.params.length then
    .error (.blame call (.argumentCount t.name.contents t.params.length arguments.length))
  else t.expand arguments

end SourceState

end CellAsm
