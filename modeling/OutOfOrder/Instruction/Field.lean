import OutOfOrder.Word

/-!
# The fields of an instruction word

Every instruction is one word, and its fields stand at fixed positions whatever the format. A
field that an instruction does not use is read all the same.
-/

namespace OutOfOrder.Field

/-- Bits 6 to 0: which format the word has. -/
def opcode (w : Word) : BitVec 7 := w.extractLsb' 0 7

/-- Bits 11 to 7: the destination register. -/
def rd (w : Word) : Reg := w.extractLsb' 7 5

/-- Bits 14 to 12: the minor function code. -/
def funct3 (w : Word) : BitVec 3 := w.extractLsb' 12 3

/-- Bits 19 to 15: the first source register. -/
def rs1 (w : Word) : Reg := w.extractLsb' 15 5

/-- Bits 24 to 20: the second source register, or a shift amount. -/
def rs2 (w : Word) : Reg := w.extractLsb' 20 5

/-- Bits 31 to 25: the major function code. -/
def funct7 (w : Word) : BitVec 7 := w.extractLsb' 25 7

/-- Bits 31 to 20: the address of a control and status register. -/
def csr (w : Word) : BitVec 12 := w.extractLsb' 20 12

end OutOfOrder.Field
