import OutOfOrder.Instruction.Format

/-!
# Control words

Decoding turns an instruction word into the signals that steer the datapath: which register fields
are in use, what the two inputs of the arithmetic unit are, which operation it performs, and what
else the instruction does. Every later decision about an instruction is read off its control word.

## Main definitions

* `AluOp`, `BranchOp`, `UnitKind` — what units can be asked to do, and which units there are
* `Control` — the control word, and `Control.unit`, the unit it sends an instruction to
* `Format.control?` — the control word of an instruction word, if its function codes select one
-/

namespace OutOfOrder

/-- An operation of the arithmetic unit. -/
inductive AluOp where
  /-- No operation: the result is zero. -/
  | none
  | add
  | sub
  /-- Shift left. -/
  | sll
  /-- Set if less than, signed. -/
  | slt
  /-- Set if less than, unsigned. -/
  | sltu
  | xor
  /-- Shift right, filling with zeros. -/
  | srl
  /-- Shift right, filling with the sign. -/
  | sra
  | or
  | and
deriving DecidableEq, Repr

/-- When control leaves the sequential path. -/
inductive BranchOp where
  /-- Never: not a control-flow instruction. -/
  | none
  | beq
  | bne
  | blt
  | bge
  | bltu
  | bgeu
  /-- Always, to an address relative to the program counter. -/
  | jal
  /-- Always, to an address held in a register. -/
  | jalr
deriving DecidableEq, Repr

/-- Is this the branch operation of a control-flow instruction? -/
def BranchOp.isControlFlow (b : BranchOp) : Bool := b != .none

/-- The functional units. -/
inductive UnitKind where
  /-- Integer arithmetic and logic. -/
  | alu
  /-- Branches and jumps. -/
  | branch
  /-- Loads and stores. -/
  | memory
  /-- Control and status registers. -/
  | system
deriving DecidableEq, Repr

namespace UnitKind

/-- Every unit, in the order of fixed priority. -/
def all : List UnitKind := [alu, branch, memory, system]

/-- The unit after a unit, in cyclic order. -/
def next : UnitKind → UnitKind
  | alu => branch
  | branch => memory
  | memory => system
  | system => alu

/-- Every unit, in cyclic order from a given one on. -/
def cycle (k : UnitKind) : List UnitKind := [k, k.next, k.next.next, k.next.next.next]

/-- The name of a unit in reports. -/
def name : UnitKind → String
  | alu => "ALU"
  | branch => "BRU"
  | memory => "LSU"
  | system => "SFU"

/-- Must the instructions of this unit start in program order? -/
def isOrdered : UnitKind → Bool
  | alu | branch => false
  | memory | system => true

end UnitKind

/-- What decoding an instruction word tells the rest of the machine. -/
structure Control where
  /-- A register other than `x0` is written. -/
  usesRd : Bool := false
  /-- The first source register is read. -/
  usesRs1 : Bool := false
  /-- The second source register is read. -/
  usesRs2 : Bool := false
  /-- There is an immediate operand. -/
  usesImm : Bool := false
  /-- The first arithmetic input is the program counter. -/
  aluPc : Bool := false
  /-- The second arithmetic input is the immediate. -/
  aluImm : Bool := false
  /-- The first arithmetic input is the number in the first source register field. -/
  aluField : Bool := false
  /-- The first arithmetic input is complemented. -/
  aluInvert : Bool := false
  /-- The second arithmetic input is a control and status register. -/
  aluCsr : Bool := false
  /-- Reads memory. -/
  isLoad : Bool := false
  /-- Writes memory. -/
  isStore : Bool := false
  /-- Reads and perhaps writes a control and status register. -/
  isCsr : Bool := false
  /-- Ends the program. -/
  isExit : Bool := false
  /-- What the arithmetic unit does. -/
  alu : AluOp := .none
  /-- When control leaves the sequential path. -/
  branch : BranchOp := .none
deriving DecidableEq, Repr

/-- The unit that executes an instruction with this control word. -/
def Control.unit (c : Control) : UnitKind :=
  if c.isLoad || c.isStore then .memory
  else if c.isCsr then .system
  else if c.branch.isControlFlow then .branch
  else .alu

/-! ### Function codes -/

namespace AluOp

/-- The arithmetic operation of a minor function code. -/
def ofFunct3 (funct3 : BitVec 3) : AluOp :=
  match funct3 with
  | 0b000 => add
  | 0b001 => sll
  | 0b010 => slt
  | 0b011 => sltu
  | 0b100 => xor
  | 0b101 => srl
  | 0b110 => or
  | _ => and

/-- The operation of register arithmetic. The alternate major code turns an addition into a
subtraction and a logical right shift into an arithmetic one, and is refused everywhere else. -/
def ofRegister? (funct3 : BitVec 3) (funct7 : BitVec 7) : Option AluOp :=
  if funct7 = 0b0000000 then some (ofFunct3 funct3)
  else if funct7 = 0b0100000 then
    match funct3 with
    | 0b000 => some sub
    | 0b101 => some sra
    | _ => Option.none
  else Option.none

/-- The operation of immediate arithmetic. Only a shift leaves room for a major function code;
elsewhere those bits belong to the immediate. -/
def ofImmediate? (funct3 : BitVec 3) (funct7 : BitVec 7) : Option AluOp :=
  if Format.isShift funct3 then
    if funct7 = 0b0000000 then some (ofFunct3 funct3)
    else if funct7 = 0b0100000 ∧ funct3 = 0b101 then some sra
    else Option.none
  else some (ofFunct3 funct3)

end AluOp

/-- The branch operation of a minor function code. -/
def BranchOp.ofFunct3? (funct3 : BitVec 3) : Option BranchOp :=
  match funct3 with
  | 0b000 => some beq
  | 0b001 => some bne
  | 0b100 => some blt
  | 0b101 => some bge
  | 0b110 => some bltu
  | 0b111 => some bgeu
  | _ => Option.none

/-- The function codes that loads may have: signed bytes, halves and words, and unsigned bytes and
halves. -/
def isLoadCode (funct3 : BitVec 3) : Bool :=
  funct3 == 0b000 || funct3 == 0b001 || funct3 == 0b010 || funct3 == 0b100 || funct3 == 0b101

/-- The function codes that stores may have: bytes, halves and words. -/
def isStoreCode (funct3 : BitVec 3) : Bool :=
  funct3 == 0b000 || funct3 == 0b001 || funct3 == 0b010

/-- The immediate of the two instructions that end a program, an environment call and a break. -/
def isExitCode (imm : Word) : Bool := imm == 0x000 || imm == 0x001

/-- The immediates of the three trap returns. -/
def isTrapReturnCode (imm : Word) : Bool := imm == 0x002 || imm == 0x102 || imm == 0x302

/-- The control word of a system instruction. Function code zero is for environment calls, breaks
and trap returns, told apart by the immediate. The others access a control and status register:
swap, set bits and clear bits, first with a register as the source and then with the number in the
register field. -/
def systemControl? (w : Word) : Option Control :=
  let access : Control :=
    { usesRd := Field.rd w != 0, usesImm := true, isCsr := true, aluCsr := true }
  match Field.funct3 w with
  | 0b000 =>
    if isExitCode (Format.system.imm w) then
      some { usesImm := true, isExit := true, alu := .add }
    else if isTrapReturnCode (Format.system.imm w) then some { usesImm := true, alu := .add }
    else none
  | 0b001 => some { access with usesRs1 := true, alu := .add }
  | 0b010 => some { access with usesRs1 := true, alu := .or }
  | 0b011 => some { access with usesRs1 := true, alu := .and, aluInvert := true }
  | 0b101 => some { access with aluField := true, alu := .add }
  | 0b110 => some { access with aluField := true, alu := .or }
  | 0b111 => some { access with aluField := true, alu := .and, aluInvert := true }
  | _ => none

/-- The control word that an instruction word selects within its format, or `none` if its function
codes select no operation. Register `x0` is never written, so an instruction that names it as its
destination has none. -/
def Format.control? (f : Format) (w : Word) : Option Control :=
  let writesRd := Field.rd w != 0
  match f with
  | .register =>
    (AluOp.ofRegister? (Field.funct3 w) (Field.funct7 w)).map fun op =>
      { usesRd := writesRd, usesRs1 := true, usesRs2 := true, alu := op }
  | .immediate =>
    (AluOp.ofImmediate? (Field.funct3 w) (Field.funct7 w)).map fun op =>
      { usesRd := writesRd, usesRs1 := true, usesImm := true, aluImm := true, alu := op }
  | .load =>
    if isLoadCode (Field.funct3 w) then
      some { usesRd := writesRd, usesRs1 := true, usesImm := true, aluImm := true, isLoad := true,
             alu := .add }
    else none
  | .store =>
    if isStoreCode (Field.funct3 w) then
      some { usesRs1 := true, usesRs2 := true, usesImm := true, aluImm := true, isStore := true,
             alu := .add }
    else none
  | .branch =>
    (BranchOp.ofFunct3? (Field.funct3 w)).map fun op =>
      { usesRs1 := true, usesRs2 := true, usesImm := true, aluPc := true, aluImm := true,
        alu := .add, branch := op }
  | .lui => some { usesRd := writesRd, usesImm := true, aluImm := true, alu := .add }
  | .auipc =>
    some { usesRd := writesRd, usesImm := true, aluPc := true, aluImm := true, alu := .add }
  | .jal =>
    some { usesRd := writesRd, usesImm := true, aluPc := true, aluImm := true, alu := .add,
           branch := .jal }
  | .jalr =>
    if Field.funct3 w = 0b000 then
      some { usesRd := writesRd, usesRs1 := true, usesImm := true, aluImm := true, alu := .add,
             branch := .jalr }
    else none
  | .system => systemControl? w
  | .fence => some {}

end OutOfOrder
