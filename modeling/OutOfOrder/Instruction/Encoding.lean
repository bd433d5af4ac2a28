import OutOfOrder.Instruction.Decode

/-!
# Encoding

Assembling a word puts register numbers and function codes into their fields and scatters the
immediate over the bits that its format reserves for it. Decoding gathers what was scattered, so the
two are inverse to each other wherever the format has room for the immediate.

## Main definitions

* `Format.encode` — the word of an operation
* `Instruction.encoded` — the word that an instruction spells out
* `Format.HasRoomFor` — the immediates that a format can hold
* `Format.HasOperation` — the function codes that a format has an operation for
* `Instruction.MadeOf` — the parts that an instruction is put together from
-/

namespace OutOfOrder

namespace Format

/-- The word with the given registers, function codes and immediate. Parts that the format has no
field for are left out. -/
def encode (f : Format) (rd rs1 rs2 : Reg) (funct3 : BitVec 3) (funct7 : BitVec 7) (imm : Word) :
    Word :=
  match f with
  | .register => funct7 ++ rs2 ++ rs1 ++ funct3 ++ rd ++ f.opcode
  | .immediate =>
    if isShift funct3 then funct7 ++ imm.extractLsb' 0 5 ++ rs1 ++ funct3 ++ rd ++ f.opcode
    else imm.extractLsb' 0 12 ++ rs1 ++ funct3 ++ rd ++ f.opcode
  | .load | .jalr | .system | .fence =>
    imm.extractLsb' 0 12 ++ rs1 ++ funct3 ++ rd ++ f.opcode
  | .store =>
    imm.extractLsb' 5 7 ++ rs2 ++ rs1 ++ funct3 ++ imm.extractLsb' 0 5 ++ f.opcode
  | .branch =>
    imm.extractLsb' 12 1 ++ imm.extractLsb' 5 6 ++ rs2 ++ rs1 ++ funct3 ++ imm.extractLsb' 1 4
      ++ imm.extractLsb' 11 1 ++ f.opcode
  | .lui | .auipc => imm.extractLsb' 12 20 ++ rd ++ f.opcode
  | .jal =>
    imm.extractLsb' 20 1 ++ imm.extractLsb' 1 10 ++ imm.extractLsb' 11 1 ++ imm.extractLsb' 12 8
      ++ rd ++ f.opcode

/-- The immediates that a format can hold, with the given minor function code: signed numbers of
twelve bits, even signed numbers of thirteen or twenty-one bits for branches and jumps, multiples of
4096 for the upper part of a word, shift amounts, and twelve-bit addresses. A fence has room for
twelve bits as well, but they are no operand, and decoding reads none. -/
def HasRoomFor (f : Format) (funct3 : BitVec 3) (imm : Word) : Prop :=
  match f with
  | .immediate =>
    if isShift funct3 then imm.toNat < 32 else -2048 ≤ imm.toInt ∧ imm.toInt < 2048
  | .load | .jalr | .store => -2048 ≤ imm.toInt ∧ imm.toInt < 2048
  | .branch => -4096 ≤ imm.toInt ∧ imm.toInt < 4096 ∧ imm.toNat % 2 = 0
  | .jal => -1048576 ≤ imm.toInt ∧ imm.toInt < 1048576 ∧ imm.toNat % 2 = 0
  | .lui | .auipc => imm.toNat % 4096 = 0
  | .system => imm.toNat < 4096
  | .register | .fence => imm = 0

instance (f : Format) (funct3 : BitVec 3) (imm : Word) : Decidable (f.HasRoomFor funct3 imm) := by
  unfold HasRoomFor
  split <;> infer_instance

/-- The function codes that a format has an operation for. System instructions with the minor code
zero are told apart by the immediate. -/
def HasOperation (f : Format) (funct3 : BitVec 3) (funct7 : BitVec 7) (imm : Word) : Prop :=
  match f with
  | .register => funct7.toNat = 0 ∨ funct7.toNat = 0x20 ∧ funct3.toNat ∈ [0, 5]
  | .immediate =>
    funct3.toNat ∉ [1, 5] ∨ funct3.toNat = 1 ∧ funct7.toNat = 0 ∨
      funct3.toNat = 5 ∧ funct7.toNat ∈ [0, 0x20]
  | .load => funct3.toNat ∈ [0, 1, 2, 4, 5]
  | .store => funct3.toNat ∈ [0, 1, 2]
  | .branch => funct3.toNat ∈ [0, 1, 4, 5, 6, 7]
  | .jalr => funct3.toNat = 0
  | .system =>
    funct3.toNat = 0 ∧ imm.toNat ∈ [0, 1, 2, 0x102, 0x302] ∨ funct3.toNat ∈ [1, 2, 3, 5, 6, 7]
  | .lui | .auipc | .jal | .fence => True

instance (f : Format) (funct3 : BitVec 3) (funct7 : BitVec 7) (imm : Word) :
    Decidable (f.HasOperation funct3 funct7 imm) := by
  unfold HasOperation
  split <;> infer_instance

end Format

/-- The word that the fields and the immediate of an instruction spell out. -/
def Instruction.encoded (i : Instruction) : Word :=
  i.format.encode i.rd i.rs1 i.rs2 i.funct3 i.funct7 i.imm

/-- An instruction is put together from the given parts, as far as its format has a field for
them. -/
structure Instruction.MadeOf (i : Instruction) (f : Format) (rd rs1 rs2 : Reg)
    (funct3 : BitVec 3) (funct7 : BitVec 7) (imm : Word) : Prop where
  format_eq : i.format = f
  imm_eq : i.imm = imm
  /-- Stores and branches have a piece of the immediate in the place of the destination. -/
  rd_eq : f ∉ [.store, .branch] → i.rd = rd
  rs1_eq : f ∉ [.lui, .auipc, .jal] → i.rs1 = rs1
  rs2_eq : f ∈ [.register, .store, .branch] → i.rs2 = rs2
  funct3_eq : f ∉ [.lui, .auipc, .jal] → i.funct3 = funct3
  /-- Of the instructions with an immediate, only shifts have a major function code. -/
  funct7_eq : f = .register ∨ f = .immediate ∧ Format.isShift funct3 → i.funct7 = funct7

end OutOfOrder
