import OutOfOrder.Instruction.Basic

/-!
# Where control goes

A branch compares its two operands and goes to an address relative to its own, or on to the next
instruction. A jump always goes, and leaves the address of the next instruction behind as its
result. A jump to a register clears the lowest bit of its target.
-/

namespace OutOfOrder

/-- Does control leave the sequential path, given the two operands? -/
def BranchOp.taken (op : BranchOp) (a b : Word) : Bool :=
  match op with
  | none => false
  | beq => a == b
  | bne => a != b
  | blt => a.slt b
  | bge => b.sle a
  | bltu => a.ult b
  | bgeu => b.ule a
  | jal | jalr => true

/-- The outcome of a control-flow instruction. -/
structure Resolution where
  /-- The return address of a jump; zero for a branch. -/
  link : Word
  /-- The address of the next instruction. -/
  target : Word
deriving DecidableEq, Repr

namespace Instruction

/-- The address after an instruction. -/
def fallThrough (i : Instruction) : Word := i.pc + instructionSize

/-- The address of the next instruction, given the two operands. -/
def target (i : Instruction) (a b : Word) : Word :=
  if i.control.branch = .jalr then (a + i.imm) &&& ~~~1
  else if i.control.branch.taken a b then i.pc + i.imm
  else i.fallThrough

/-- The return address that an instruction leaves behind. -/
def link (i : Instruction) : Word :=
  if i.control.branch = .jal ∨ i.control.branch = .jalr then i.fallThrough else 0

/-- The outcome of a control-flow instruction, given the two operands. -/
def resolve (i : Instruction) (a b : Word) : Resolution :=
  { link := i.link, target := i.target a b }

end Instruction

end OutOfOrder
