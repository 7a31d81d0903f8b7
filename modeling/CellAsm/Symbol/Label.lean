-- SUMMARY: The addresses of labels, and names in operands turned into numbers.
import CellAsm.Layout
import CellAsm.Table

/-!
# Labels and names

A label is the address of the statement it stands on. When all labels have their
addresses, every name left among the operands becomes a number: a label its
address, counted from the instruction where the field asks for it, and the name
of a field value that value.
-/
namespace CellAsm.Label

/-- Gives the labels of a statement its address. -/
def define (address : UInt64) : Table Token → List Token → Except Failure (Table Token)
  | labels, [] => .ok labels
  | labels, l :: rest =>
    match labels.find? l.symbol with
    | some previous => .error (.blame l (.labelRedefined l.symbol previous.position))
    | none =>
      define address
        (labels.insert l.symbol
          { kind := .constant, contents := Text.decimal address.toNat, position := l.position,
            legal := true })
        rest

/-- The addresses of all labels when the first statement is at `address`. -/
def assignFrom (cellSize : Int) :
    UInt64 → Table Token → List Statement → Except Failure (Table Token)
  | _, labels, [] => .ok labels
  | address, labels, c :: rest => do
    let labels ← define address labels c.labels
    let n ← c.lengthInBits address cellSize
    let next ← c.advance address n cellSize
    assignFrom cellSize next labels rest

def assign (statements : List Statement) (start : UInt64) (cellSize : Int) :
    Except Failure (Table Token) :=
  assignFrom cellSize start {} statements

-- ---------------------------------------------------------------------------
-- Operands
-- ---------------------------------------------------------------------------

/-- The label an operand names. -/
def named? (labels : Table Token) (o : Token) : Option Token :=
  if o.kind = .identifier then labels.find? o.symbol else none

/-- An operand of a directive. -/
def replaceValue (labels : Table Token) (o : Token) : Except Failure Token :=
  if o.kind = .identifier then
    match labels.find? o.symbol with
    | some l => .ok (o.carrying l.kind l.contents)
    | none => .error (.blame o (.undefinedSymbol o.contents))
  else .ok o

/-- A label address as the field of an instruction at `address` wants it. -/
def relative (r : Relativity) (address next : UInt64) (v : Int) : Int :=
  match r with
  | .preIncrement => v - address.toNat
  | .postIncrement => v - next.toNat
  | _ => v

/-- An operand of the instruction `spec` at `address`, written for field `f` at
position `i`. -/
def replaceOperand (spec : Instruction) (labels : Table Token) (address next : UInt64)
    (f : Field) (i : Nat) (o : Token) : Except Failure Token :=
  match named? labels o with
  | some l =>
    match l.contents.toInt? with
    | some v => .ok (o.carrying .constant (Text.decimal (relative f.relativity address next v)))
    | none => .error (.blame o (.labelAddress o.contents l.contents))
  | none =>
    if f.restricted then
      match f.lookup o.contents.trim with
      | some v => .ok (o.carrying .constant (Text.decimal v.value))
      | none =>
        .error (.blame o (.valueNotAllowed o.contents (Instruction.fieldLabel f i) spec.name))
    else if o.kind = .constant then .ok o
    else .error (.blame o (.undefinedSymbol o.contents))

/-- The operands of an instruction from position `j` on, each for its field. -/
def replaceFields (spec : Instruction) (labels : Table Token) (address next : UInt64) :
    Nat → List Token → Except Failure (List Token)
  | _, [] => .ok []
  | j, o :: rest => do
    let i ← Strict.get spec.operandFields j
    let f ← Strict.get spec.fields i
    let o ← replaceOperand spec labels address next f i o
    return o :: (← replaceFields spec labels address next (j + 1) rest)

/-- No more operands than the instruction has fields for. -/
def checkCount (spec : Instruction) (operands : List Token) : Except Failure Unit :=
  if spec.operandFields.length < operands.length then do
    let o ← Strict.get operands spec.operandFields.length
    .error (.blame o (.tooManyOperands spec.name))
  else .ok ()

/-- A statement at `address` with `next` behind it, all its names replaced. -/
def replaceNames (labels : Table Token) (address next : UInt64) (c : Statement) :
    Except Failure Statement := do
  let operands ← match c.instruction with
    | none => c.operands.mapM (replaceValue labels)
    | some spec => do
      checkCount spec c.operands
      replaceFields spec labels address next 0 c.operands
  return { c with operands := operands }

/-- The statements with all names replaced, the first of them at `address`. -/
def replaceFrom (labels : Table Token) (cellSize : Int) :
    UInt64 → List Statement → Except Failure (List Statement)
  | _, [] => .ok []
  | address, c :: rest => do
    let n ← c.lengthInBits address cellSize
    let next ← c.advance address n cellSize
    let c ← replaceNames labels address next c
    return c :: (← replaceFrom labels cellSize next rest)

def replace (statements : List Statement) (labels : Table Token) (start : UInt64)
    (cellSize : Int) : Except Failure (List Statement) :=
  replaceFrom labels cellSize start statements

end CellAsm.Label
