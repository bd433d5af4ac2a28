import OutOfOrder.Instruction.Field

/-!
# Instruction formats and their immediates

The seven low bits of a word name its format, and the format says where the immediate stands. The
immediate of a branch, a jump or a store is scattered over the word; it is gathered here by listing
its pieces from the most significant one down.

## Main definitions

* `Format` — the eleven formats
* `Format.opcode`, `Format.ofOpcode?` — the code of a format, and the format of a code
* `Format.imm` — the immediate operand, as a full word
-/

namespace OutOfOrder

/-- What the low seven bits of an instruction word select. -/
inductive Format where
  /-- Arithmetic on two registers. -/
  | register
  /-- Loads. -/
  | load
  /-- Arithmetic on a register and an immediate. -/
  | immediate
  /-- Stores. -/
  | store
  /-- Conditional branches. -/
  | branch
  /-- Load upper immediate. -/
  | lui
  /-- Add upper immediate to the program counter. -/
  | auipc
  /-- Jump and link. -/
  | jal
  /-- Jump to a register and link. -/
  | jalr
  /-- Environment calls, trap returns and access to control and status registers. -/
  | system
  /-- Memory fences. -/
  | fence
deriving DecidableEq, Repr

namespace Format

/-- The opcode of a format. -/
def opcode : Format → BitVec 7
  | register => 0b0110011
  | load => 0b0000011
  | immediate => 0b0010011
  | store => 0b0100011
  | branch => 0b1100011
  | lui => 0b0110111
  | auipc => 0b0010111
  | jal => 0b1101111
  | jalr => 0b1100111
  | system => 0b1110011
  | fence => 0b0001111

/-- Every format. -/
def all : List Format :=
  [register, load, immediate, store, branch, lui, auipc, jal, jalr, system, fence]

/-- The format with the given opcode. A number of more than seven bits is the opcode of none. -/
def ofOpcode? (n : Nat) : Option Format := all.find? fun f => f.opcode.toNat == n

/-- Does the minor function code of immediate arithmetic select a shift? The immediate is then a
shift amount in the place of the second source register. -/
def isShift (funct3 : BitVec 3) : Bool := funct3 == 0b001 || funct3 == 0b101

/-- The immediate operand that a word carries in a given format. Formats without one have zero. -/
def imm (f : Format) (w : Word) : Word :=
  match f with
  | .immediate =>
    if isShift (Field.funct3 w) then (Field.rs2 w).setWidth 32
    else (w.extractLsb' 20 12).signExtend 32
  | .load | .jalr => (w.extractLsb' 20 12).signExtend 32
  | .store => (w.extractLsb' 25 7 ++ w.extractLsb' 7 5).signExtend 32
  | .branch =>
    (w.extractLsb' 31 1 ++ w.extractLsb' 7 1 ++ w.extractLsb' 25 6 ++ w.extractLsb' 8 4
      ++ 0#1).signExtend 32
  | .lui | .auipc => w.extractLsb' 12 20 ++ 0#12
  | .jal =>
    (w.extractLsb' 31 1 ++ w.extractLsb' 12 8 ++ w.extractLsb' 20 1 ++ w.extractLsb' 21 10
      ++ 0#1).signExtend 32
  | .system => (w.extractLsb' 20 12).setWidth 32
  | .register | .fence => 0

end Format

end OutOfOrder
