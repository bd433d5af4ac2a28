import OutOfOrder.Csr
import OutOfOrder.Semantics.Arithmetic
import OutOfOrder.Instruction.Basic

/-!
# Access to control and status registers

Such an instruction reads a register and replaces it by the source, or sets or clears in it the bits
that are set in the source. The source is the first operand or the number in the register field.
Setting or clearing no bits at all is not a write.
-/

namespace OutOfOrder

namespace Instruction

/-- The control and status register that an instruction names. -/
def csr (i : Instruction) : Csr := Field.csr i.word

/-- Does the instruction replace the register as a whole? -/
def isSwap (i : Instruction) : Bool := i.funct3 == 0b001 || i.funct3 == 0b101

/-- The source of an access to a control and status register. -/
def csrSource (i : Instruction) (a : Word) : Word :=
  if i.control.aluField then i.rs1.setWidth 32 else a

/-- The arithmetic input made from the source. -/
def csrOperand (i : Instruction) (a : Word) : Word :=
  if i.control.aluInvert then ~~~(i.csrSource a) else i.csrSource a

/-- Access a control and status register: its old value, and the registers afterwards. -/
def accessCsr (i : Instruction) (a : Word) (f : CsrFile) : Word × CsrFile :=
  let old := f.read i.csr
  if i.isSwap then (old, f.write i.csr (i.csrOperand a))
  else if i.csrSource a = 0 then (old, f)
  else (old, f.write i.csr (i.control.alu.eval (i.csrOperand a) old))

end Instruction

end OutOfOrder
