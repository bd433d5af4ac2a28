import OutOfOrder.Instruction.Control

/-!
# Instructions

An `Instruction` is one dynamic instance of an instruction word: the word, where it was fetched
from, when, and what decoding made of it. Nothing about it changes afterwards. The register fields,
the function codes and the immediate are read off the word whenever they are asked for.
-/

namespace OutOfOrder

/-- One instance of an instruction on its way through the machine. -/
structure Instruction where
  /-- The serial number of the fetch: later instructions have higher numbers. -/
  uuid : Nat
  /-- The address the word was fetched from. -/
  pc : Word
  /-- The encoding. -/
  word : Word
  /-- The format its opcode selects. -/
  format : Format
  /-- The control word its function codes select. -/
  control : Control
deriving DecidableEq, Repr

namespace Instruction

/-- The destination register field, in use or not. -/
def rd (i : Instruction) : Reg := Field.rd i.word

/-- The first source register field, in use or not. -/
def rs1 (i : Instruction) : Reg := Field.rs1 i.word

/-- The second source register field, in use or not. -/
def rs2 (i : Instruction) : Reg := Field.rs2 i.word

/-- The minor function code. -/
def funct3 (i : Instruction) : BitVec 3 := Field.funct3 i.word

/-- The major function code. -/
def funct7 (i : Instruction) : BitVec 7 := Field.funct7 i.word

/-- The immediate operand. -/
def imm (i : Instruction) : Word := i.format.imm i.word

/-- The functional unit that executes it. -/
def unit (i : Instruction) : UnitKind := i.control.unit

/-- The register it writes, if it writes one. -/
def dest (i : Instruction) : Option Reg := if i.control.usesRd then some i.rd else none

/-- Must fetching wait until this instruction has been resolved? -/
def isControlFlow (i : Instruction) : Bool := i.control.branch.isControlFlow

/-- Does the program end with this instruction? -/
def isExit (i : Instruction) : Bool := i.control.isExit

end Instruction

end OutOfOrder
