import OutOfOrder.Instruction.Basic
import OutOfOrder.Text.Hex

/-!
# The printed form of an instruction

In reports an instruction reads

```
ADDI x1, x0, 0x14, PC=0x0 (#0)
```

its mnemonic, the operands it uses, its address and its serial number. The mnemonic is looked up by
format, function codes and immediate, independently of the control word; decoding makes sure that
the look-up succeeds.

## Main definitions

* `Format.mnemonic?` — the name of an operation
* `Instruction.text` — the printed form
-/

namespace OutOfOrder

/-- The name of the operation that the function codes and, for system instructions, the immediate
select within a format. The alternate form of an addition or right shift is marked by one bit of
the major function code. -/
def Format.mnemonic? (f : Format) (funct3 : BitVec 3) (funct7 : BitVec 7) (imm : Word) :
    Option String :=
  let alternate := funct7.getLsbD 5
  match f with
  | .lui => some "LUI"
  | .auipc => some "AUIPC"
  | .jal => some "JAL"
  | .jalr => some "JALR"
  | .fence => some "FENCE"
  | .register =>
    match funct3 with
    | 0b000 => some (if alternate then "SUB" else "ADD")
    | 0b001 => some "SLL"
    | 0b010 => some "SLT"
    | 0b011 => some "SLTU"
    | 0b100 => some "XOR"
    | 0b101 => some (if alternate then "SRA" else "SRL")
    | 0b110 => some "OR"
    | _ => some "AND"
  | .immediate =>
    match funct3 with
    | 0b000 => some "ADDI"
    | 0b001 => some "SLLI"
    | 0b010 => some "SLTI"
    | 0b011 => some "SLTIU"
    | 0b100 => some "XORI"
    | 0b101 => some (if alternate then "SRAI" else "SRLI")
    | 0b110 => some "ORI"
    | _ => some "ANDI"
  | .branch =>
    match funct3 with
    | 0b000 => some "BEQ"
    | 0b001 => some "BNE"
    | 0b100 => some "BLT"
    | 0b101 => some "BGE"
    | 0b110 => some "BLTU"
    | 0b111 => some "BGEU"
    | _ => none
  | .load =>
    match funct3 with
    | 0b000 => some "LB"
    | 0b001 => some "LH"
    | 0b010 => some "LW"
    | 0b100 => some "LBU"
    | 0b101 => some "LHU"
    | _ => none
  | .store =>
    match funct3 with
    | 0b000 => some "SB"
    | 0b001 => some "SH"
    | 0b010 => some "SW"
    | _ => none
  | .system =>
    match funct3 with
    | 0b000 =>
      if imm = 0x000 then some "ECALL"
      else if imm = 0x001 then some "EBREAK"
      else if imm = 0x002 then some "URET"
      else if imm = 0x102 then some "SRET"
      else if imm = 0x302 then some "MRET"
      else none
    | 0b001 => some "CSRRW"
    | 0b010 => some "CSRRS"
    | 0b011 => some "CSRRC"
    | 0b101 => some "CSRRWI"
    | 0b110 => some "CSRRSI"
    | 0b111 => some "CSRRCI"
    | _ => none

/-- The name of a register: `x` and its number. -/
def Reg.name (r : Reg) : String := "x" ++ toString r.toNat

namespace Instruction

/-- The mnemonic, if the instruction has one. -/
def mnemonic? (i : Instruction) : Option String :=
  i.format.mnemonic? i.funct3 i.funct7 i.imm

/-- The operands in use: destination, sources, immediate. -/
def operandTexts (i : Instruction) : List String :=
  (if i.control.usesRd then [Reg.name i.rd] else [])
    ++ (if i.control.usesRs1 then [Reg.name i.rs1] else [])
    ++ (if i.control.usesRs2 then [Reg.name i.rs2] else [])
    ++ (if i.control.usesImm then [Hex.plain i.imm.toNat] else [])

/-- The operands, separated from each other by commas and from the mnemonic by a blank. -/
def operandList : List String → String
  | [] => ""
  | t :: ts => " " ++ t ++ String.join (ts.map fun u => ", " ++ u)

/-- Where and when the instruction was fetched. -/
def origin (i : Instruction) : String :=
  ", PC=" ++ Hex.plain i.pc.toNat ++ " (#" ++ toString i.uuid ++ ")"

/-- The printed form, if the instruction has a mnemonic. -/
def text? (i : Instruction) : Option String :=
  i.mnemonic?.map fun name => name ++ operandList i.operandTexts ++ i.origin

/-- The printed form. Every instruction that comes out of `decode` has one. -/
def text (i : Instruction) : String := i.text?.getD ""

end Instruction

end OutOfOrder
