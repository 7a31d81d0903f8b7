-- SUMMARY: Statements: what the lines of a program come down to.
import CellAsm.Instruction
import CellAsm.Token.Basic

/-!
# Statements

A statement is a machine instruction or a directive that emits something, with
its operand tokens and the labels that mark its address.
-/
namespace CellAsm

/-- What a statement emits. -/
inductive Action
  /-- A machine instruction. -/
  | instruction
  /-- Each operand in a fixed number of bytes. -/
  | data
  /-- The bytes of a string. -/
  | ascii
  /-- Zero cells up to a multiple of the operand. -/
  | align
  /-- Zero cells up to the address given by the operand. -/
  | pos
  /-- A number that stands for none of the above. -/
  | unnamed (code : Int)
deriving DecidableEq, Repr

namespace Action

def ofCode : Int → Action
  | 0 => instruction
  | 1 => data
  | 2 => ascii
  | 3 => align
  | 4 => pos
  | n => unnamed n

def text : Action → Text
  | instruction => "instruction"
  | data => "data"
  | ascii => "ascii"
  | align => "align"
  | pos => "pos"
  | unnamed n => Text.join ["pseudo(", Text.decimal n, ")"]

end Action

structure Statement where
  labels : List Token := []
  /-- The machine instruction; directives have none. -/
  instruction : Option Instruction := none
  action : Action := .instruction
  keyword : Token := {}
  operands : List Token := []
  /-- The size in bytes of each value of a data directive. -/
  width : Int := 0
deriving DecidableEq, Repr

end CellAsm
