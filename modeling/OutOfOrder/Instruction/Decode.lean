import OutOfOrder.Instruction.Text

/-!
# Decoding

A word is decoded in three steps: its opcode selects a format, its function codes select an
operation within the format, and the operation must have a name to be printed under. Each step can
refuse the word, with an error of its own.

## Main definitions

* `DecodeError` — why a word is not an instruction, and `DecodeError.message`, in words
* `decode` — the instruction of a word fetched at an address
-/

namespace OutOfOrder

/-- Why a word cannot be executed. -/
inductive DecodeError where
  /-- No format has this opcode. -/
  | unknownOpcode (word opcode pc : Word)
  /-- The function codes select no operation of the format. -/
  | unknownOperation (opcode funct3 funct7 imm pc : Word)
  /-- The operation has no mnemonic. -/
  | noMnemonic (opcode funct3 funct7 imm : Word)
deriving DecidableEq, Repr

/-- The function codes and the immediate, as the two errors about them print them. -/
def DecodeError.codes (opcode funct3 funct7 imm : Word) : String :=
  "opcode " ++ Hex.code opcode ++ " funct3=" ++ toString funct3.toNat ++ " funct7="
    ++ Hex.code funct7 ++ " imm=" ++ Hex.plain imm.toNat

/-- The error in words. -/
def DecodeError.message : DecodeError → String
  | unknownOpcode word opcode pc =>
    "unrecognized opcode " ++ Hex.code opcode ++ " in word " ++ Hex.word word ++ " at pc "
      ++ Hex.word pc
  | unknownOperation opcode funct3 funct7 imm pc =>
    "no operation for " ++ codes opcode funct3 funct7 imm ++ " at pc " ++ Hex.word pc
  | noMnemonic opcode funct3 funct7 imm => "no mnemonic for " ++ codes opcode funct3 funct7 imm

/-- Decode a word that was fetched at `pc` as number `uuid`. -/
def decode (word pc : Word) (uuid : Nat) : Except DecodeError Instruction :=
  let opcode : Word := (Field.opcode word).setWidth 32
  let funct3 : Word := (Field.funct3 word).setWidth 32
  let funct7 : Word := (Field.funct7 word).setWidth 32
  match Format.ofOpcode? (Field.opcode word).toNat with
  | none => .error (.unknownOpcode word opcode pc)
  | some format =>
    match format.control? word with
    | none => .error (.unknownOperation opcode funct3 funct7 (format.imm word) pc)
    | some control =>
      let instruction : Instruction := ⟨uuid, pc, word, format, control⟩
      match instruction.mnemonic? with
      | none => .error (.noMnemonic opcode funct3 funct7 (format.imm word))
      | some _ => .ok instruction

end OutOfOrder
