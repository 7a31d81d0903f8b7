-- SUMMARY: Everything that can be wrong with a program, and the wording of it.
import CellAsm.Fault
import CellAsm.Token.Basic

/-!
# Diagnostics

A diagnostic is a cause and the token it is blamed on. Its class and its wording
follow from the cause. A report is the finished form: class, message and token.
-/
namespace CellAsm

/-- The broad class of an error. -/
inductive ErrorClass
  | lexical
  | parsing
  | nameSpace
  | operand
  | numberFormat
  | equCycle
  | inclusion
  /-- A number that stands for none of the above. -/
  | unnamed (code : Int)
deriving DecidableEq, Repr

namespace ErrorClass

/-- The named classes in the order of their numbers. -/
def named : List ErrorClass :=
  [lexical, parsing, nameSpace, operand, numberFormat, equCycle, inclusion]

def ofCode (n : Int) : ErrorClass :=
  if n < 0 then unnamed n else (named[n.toNat]?).getD (unnamed n)

def text : ErrorClass → Text
  | lexical => "lexical error"
  | parsing => "parse error"
  | nameSpace => "name space error"
  | operand => "invalid operand"
  | numberFormat => "number format error"
  | equCycle => "EQU cycle"
  | inclusion => "include error"
  | unnamed n => Text.join ["error(", Text.decimal n, ")"]

end ErrorClass

-- ---------------------------------------------------------------------------
-- Causes
-- ---------------------------------------------------------------------------

inductive Cause
  -- Scanning
  | unknownDirective (text : Text)
  | malformedInteger (text : Text)
  | unterminatedString
  | illegalEscape (c : Option Char)
  | illegalCharacter (text : Text)
  -- Lines
  | unexpected (kind : TokenKind)
  | unexpectedComma
  | trailingComma
  | unknownInstruction (name : Text)
  | operandKind (name : Text) (kind : TokenKind)
  | operandCount (name : Text) (least most found : Nat)
  -- Constants
  | equIncomplete
  | labelOnEqu (label : Text)
  | equName (kind : TokenKind)
  | equValueCount (name : Text)
  | equRedefined (name : Text) (previous : Position)
  | equUndefined (name reference : Text)
  | equValueKind (name : Text) (kind : TokenKind)
  | equCyclic (name : Text)
  | equDangling (name reference : Text)
  | equNotNumeric (name : Text)
  -- Files
  | fileNameMissing (keyword : Text)
  | cyclicInclude (file : Text)
  | includeUnavailable
  /-- A file could not be read, for the given reason; `activity` says what for. -/
  | unreadable (activity file reason : Text)
  -- Directives
  | exportMissing (keyword : Text)
  | exportKind (keyword : Text) (kind : TokenKind)
  | stringMissing (keyword : Text)
  | dataIncomplete (keyword : Text)
  | dataWidth (keyword : Text)
  | dataUnclosed (keyword : Text)
  | dataEmpty (keyword : Text)
  | dataUnbracketed (keyword : Text)
  | valueMissing (keyword : Text)
  | valueKind (keyword : Text) (kind : TokenKind)
  | constantMissing (keyword : Text)
  -- Templates
  | templateUnnamed
  | templateRedefined (name : Text) (previous : Position)
  | templateShadows (name : Text)
  | parameterKind (name : Text) (kind : TokenKind)
  | parameterRepeated (name parameter : Text)
  | templateUnclosed (name : Text)
  | templateNested (name : Text)
  | templateNotOpen
  | afterTemplateEnd (kind : TokenKind)
  | expansionTooDeep (name : Text)
  | argumentCount (name : Text) (expected found : Nat)
  -- Symbols
  | labelIsEqu (name : Text)
  | labelIsGlobalEqu (name : Text)
  | labelRedefined (name : Text) (previous : Position)
  | undefinedSymbol (text : Text)
  | labelNotAllowed (keyword : Text)
  | exportNotLabel (text : Text)
  -- Layout
  | noInstruction
  | unknownAction (text : Text)
  | soleOperand (keyword : Text)
  | constantNeeded (keyword found : Text)
  | outOfRange (text : Text)
  | zeroAlignment
  | positionBehind (position address : UInt64)
  | fillTooLong (keyword operand : Text) (cells : UInt64)
  | partialCell (bits cellSize : Int)
  | addressOverflow (address : UInt64)
  -- Operands
  | tooManyOperands (instruction : Text)
  | labelAddress (label address : Text)
  | valueNotAllowed (text field instruction : Text)
  -- Packing
  | unresolvedOperand (text : Text)
  | valueTooWide (value : Int) (field instruction : Text) (bits : Int) (signed : Bool) (lo hi : Int)
  | dataTooWide (value width : Int)
  | packedLength (bits expected : Int)
deriving DecidableEq, Repr

/-- The largest number of cells a single alignment or position may skip. -/
def maxFillCells : Nat := 2 ^ 24

namespace Cause

def errorClass : Cause → ErrorClass
  | unknownDirective _ | unterminatedString | illegalEscape _ | illegalCharacter _ => .lexical
  | malformedInteger _ | labelAddress _ _ => .numberFormat
  | equRedefined _ _ | labelIsEqu _ | labelIsGlobalEqu _ | labelRedefined _ _ => .nameSpace
  | equCyclic _ | equDangling _ _ => .equCycle
  | cyclicInclude _ | includeUnavailable | unreadable _ _ _ => .inclusion
  | equUndefined _ _ | equNotNumeric _ | undefinedSymbol _ | labelNotAllowed _
  | exportNotLabel _ | constantNeeded _ _ | outOfRange _ | zeroAlignment | positionBehind _ _
  | fillTooLong _ _ _ | partialCell _ _ | addressOverflow _ | tooManyOperands _
  | valueNotAllowed _ _ _ | unresolvedOperand _ | valueTooWide _ _ _ _ _ _ _ | dataTooWide _ _
  | packedLength _ _ => .operand
  | _ => .parsing

def message : Cause → Text
  | unknownDirective t => Text.join ["unknown pseudo-op ", t]
  | malformedInteger t => Text.join ["malformed integer ", t]
  | unterminatedString => "unterminated string"
  | illegalEscape c =>
    Text.join ["illegal escape character ", Text.quotedChar (c.getD Utf8.replacement), " in string"]
  | illegalCharacter t => Text.join ["illegal character ", t]
  | unexpected k => Text.join ["unexpected ", k.text]
  | unexpectedComma => "unexpected ','"
  | trailingComma => "trailing ','"
  | unknownInstruction n => Text.join ["unknown instruction ", n]
  | operandKind n k => Text.join [n, ": unexpected ", k.text, " operand"]
  | operandCount n least most found =>
    if least = most then
      Text.join [n, " takes ", Text.decimal most, " operands, got ", Text.decimal found]
    else
      Text.join [n, " takes ", Text.decimal least, " to ", Text.decimal most, " operands, got ",
        Text.decimal found]
  | equIncomplete => "EQU needs a name and a value"
  | labelOnEqu l => Text.join ["label ", l, " on an EQU line"]
  | equName k => Text.join ["EQU: expected a name, got ", k.text]
  | equValueCount n => Text.join ["EQU ", n, " needs exactly one value"]
  | equRedefined n p => Text.join ["EQU ", n, " already defined at ", p.text]
  | equUndefined n r => Text.join ["EQU ", n, " refers to undefined EQU ", r]
  | equValueKind n k => Text.join ["EQU ", n, ": expected a constant or EQU name, got ", k.text]
  | equCyclic n => Text.join ["EQU ", n, " is defined in terms of itself"]
  | equDangling n r => Text.join ["EQU ", n, " does not resolve to a constant: ", r, " is undefined"]
  | equNotNumeric n => Text.join ["EQU ", n, " has a non-numeric value"]
  | fileNameMissing kw => Text.join [kw, " needs a quoted file name"]
  | cyclicInclude f => Text.join ["cyclic include of ", f]
  | includeUnavailable => "includes are not available"
  | unreadable activity _ reason => Text.join [activity, ": ", reason]
  | exportMissing kw => Text.join [kw, " needs at least one name"]
  | exportKind kw k => Text.join [kw, ": expected a label name, got ", k.text]
  | stringMissing kw => Text.join [kw, " needs one quoted string"]
  | dataIncomplete kw => Text.join [kw, " needs a byte count and a value"]
  | dataWidth kw => Text.join [kw, ": byte count must be 1 to 8"]
  | dataUnclosed kw => Text.join [kw, ": missing ']'"]
  | dataEmpty kw => Text.join [kw, ": empty value list"]
  | dataUnbracketed kw => Text.join [kw, ": several values must be enclosed in [ ]"]
  | valueMissing kw => Text.join [kw, " needs at least one value"]
  | valueKind kw k => Text.join [kw, ": unexpected ", k.text]
  | constantMissing kw => Text.join [kw, " needs one constant"]
  | templateUnnamed => "MACRO needs a name"
  | templateRedefined n p => Text.join ["duplicate macro ", n, ", first defined at ", p.text]
  | templateShadows n => Text.join ["macro ", n, " has the name of an instruction"]
  | parameterKind n k => Text.join ["macro ", n, ": parameter must be a name, got ", k.text]
  | parameterRepeated n p => Text.join ["macro ", n, ": duplicate parameter ", p]
  | templateUnclosed n => Text.join ["MACRO ", n, " has no ENDM"]
  | templateNested n => Text.join ["MACRO inside the definition of ", n]
  | templateNotOpen => "ENDM without MACRO"
  | afterTemplateEnd k => Text.join ["unexpected ", k.text, " after ENDM"]
  | expansionTooDeep n => Text.join ["macro ", n, " expands too deeply"]
  | argumentCount n expected found =>
    Text.join ["macro ", n, " takes ", Text.decimal expected, " arguments, got ", Text.decimal found]
  | labelIsEqu n => Text.join ["label ", n, " is already used as an EQU"]
  | labelIsGlobalEqu n => Text.join ["label ", n, " is already used as a global EQU"]
  | labelRedefined n p => Text.join ["label ", n, " was already used at ", p.text]
  | undefinedSymbol t => Text.join ["undefined symbol ", t]
  | labelNotAllowed kw => Text.join [kw, " can not take a label"]
  | exportNotLabel t => Text.join ["global ", t, " is not a label"]
  | noInstruction => "instruction call without instruction"
  | unknownAction t => Text.join ["unhandled pseudo-op ", t]
  | soleOperand kw => Text.join [kw, " takes one operand"]
  | constantNeeded kw found => Text.join [kw, " needs a constant, got ", found]
  | outOfRange t => Text.join [t, " out of range"]
  | zeroAlignment => "alignment must be positive"
  | positionBehind p a =>
    Text.join ["position ", Text.decimal p.toNat, " is behind the current address ",
      Text.decimal a.toNat]
  | fillTooLong kw o cells =>
    Text.join [kw, " ", o, " would fill ", Text.decimal cells.toNat, " cells, at most ",
      Text.decimal maxFillCells, " are allowed"]
  | partialCell bits cellSize =>
    Text.join ["length of ", Text.decimal bits, " bits is not a multiple of the ",
      Text.decimal cellSize, "-bit cell size"]
  | addressOverflow a => Text.join ["address overflows after ", Text.decimal a.toNat]
  | tooManyOperands n => Text.join [n, ": too many operands"]
  | labelAddress l a => Text.join ["label ", l, " has address ", a]
  | valueNotAllowed t f n => Text.join [t, " is not a valid value for field ", f, " of ", n]
  | unresolvedOperand t => Text.join ["unresolved operand ", t]
  | valueTooWide v f n bits signed lo hi =>
    Text.join ["value ", Text.decimal v, " does not fit in field ", f, " of ", n, " (",
      Text.decimal bits, " bits ", if signed then "signed" else "unsigned", ", ",
      Text.decimal lo, "..", Text.decimal hi, ")"]
  | dataTooWide v width =>
    Text.join ["value ", Text.decimal v, " does not fit in ", Text.decimal width, " bytes"]
  | packedLength bits expected =>
    Text.join ["packed ", Text.decimal bits, " bits, expected ", Text.decimal expected]

/-- The text of the error that lies behind the cause, if there is one. -/
def reason? : Cause → Option Text
  | unreadable _ _ reason => some reason
  | _ => none

end Cause

structure Diagnostic where
  cause : Cause
  token : Option Token
deriving DecidableEq, Repr

/-- Why an operation on a program stops: something is wrong with the program, or
the data it was given has no meaning. -/
inductive Failure
  | diagnostic (d : Diagnostic)
  | fault (f : Fault)
deriving DecidableEq, Repr

namespace Failure

instance : OfFault Failure := ⟨.fault⟩

/-- Blames a token. -/
def blame (t : Token) (c : Cause) : Failure := .diagnostic ⟨c, some t⟩

end Failure

-- ---------------------------------------------------------------------------
-- Reports
-- ---------------------------------------------------------------------------

/-- An error as it is shown. -/
structure Report where
  errorClass : ErrorClass
  message : Text
  token : Option Token := none
  reason : Option Text := none
deriving DecidableEq, Repr

/-- Position, class and message. -/
def Report.text (r : Report) : Text :=
  match r.token with
  | some t => Text.join [t.position.text, ": ", r.errorClass.text, ": ", r.message]
  | none => Text.join [r.errorClass.text, ": ", r.message]

def Diagnostic.report (d : Diagnostic) : Report where
  errorClass := d.cause.errorClass
  message := d.cause.message
  token := d.token
  reason := d.cause.reason?

/-- An error in general: a report, some other text, or either of them within a
context. -/
inductive Trouble
  | report (r : Report)
  | plain (text : Text)
  | within (context : Text) (inner : Trouble)
deriving DecidableEq, Repr

namespace Trouble

def text : Trouble → Text
  | report r => r.text
  | plain t => t
  | within context inner => Text.join [context, ": ", inner.text]

/-- The report inside, through any contexts. -/
def report? : Trouble → Option Report
  | report r => some r
  | plain _ => none
  | within _ inner => inner.report?

def hasClass (t : Trouble) (k : ErrorClass) : Bool := t.report?.any (·.errorClass == k)

end Trouble

end CellAsm
