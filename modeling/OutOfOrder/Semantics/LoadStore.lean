import OutOfOrder.Instruction.Basic
import OutOfOrder.Memory

/-!
# Loads and stores

The address is the first operand plus the immediate, and the function code tells the width. A store
writes the low bytes of the second operand and has no result. A load of less than a word extends
what it has read, with the sign or with zeros.
-/

namespace OutOfOrder

/-- The width of an access, from the two low bits of the function code. -/
def Width.ofFunct3 (funct3 : BitVec 3) : Width :=
  match funct3.extractLsb' 0 2 with
  | 0b00 => .byte
  | 0b01 => .half
  | _ => .word

/-- What a load makes of the number it has read. Only signed bytes and halves change. -/
def extendLoaded (funct3 : BitVec 3) (w : Word) : Word :=
  match funct3 with
  | 0b000 => (w.setWidth 8).signExtend 32
  | 0b001 => (w.setWidth 16).signExtend 32
  | _ => w

namespace Instruction

/-- The width of the access of a load or store. -/
def width (i : Instruction) : Width := Width.ofFunct3 i.funct3

/-- The request that a load or store makes, given the two operands. -/
def access (i : Instruction) (a b : Word) : Access :=
  if i.control.isStore then .write (a + i.imm) i.width b else .read (a + i.imm) i.width

/-- The result of a load or store, given the answer of memory. -/
def loaded (i : Instruction) (answer : Word) : Word :=
  if i.control.isStore then 0 else extendLoaded i.funct3 answer

/-- Perform a load or store: its result, and the memory afterwards. -/
def loadStore (i : Instruction) (a b : Word) (m : Memory) : Except MemoryError (Word × Memory) :=
  (m.perform (i.access a b)).map fun (answer, after) => (i.loaded answer, after)

end Instruction

end OutOfOrder
