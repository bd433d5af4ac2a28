import OutOfOrder.Instruction.Encoding
import OutOfOrder.Proofs.Decoding
import OutOfOrder.Semantics.LoadStore
import OutOfOrder.Semantics.SystemAccess

/-!
# The instruction set

Which words are instructions is decided in two places. The decoder selects a control word by opcode
and function codes, and the printer, from the same codes but through a table of its own, a mnemonic;
a word is an instruction if both succeed. The language is written down here a third time, as the
manual would list it, by the numbers in the bit fields. The decoder accepts exactly this language.
The printer never turns down what the decoder has built, and the name that it gives is the name of
what the units will do.

The two tables do not test the same bits. Where the decoder asks for the major function code as a
whole, the printer looks at the one bit that marks the alternate form; and in immediate arithmetic
other than shifts that bit belongs to the immediate. The names agree because the decoder turns down
every other major function code, and because the printer looks only where there is one.

## Main definitions

* `Word.bits` — some bits of a word, as a number
* `Word.IsInstruction` — the language
* `Instruction.NamedAfter` — a name is that of the operation which the units perform
* `Control.Classified`, `Word.unitKind` — what the opcode alone says about an instruction
* `Instruction.DecodedFrom`, `DecodeError.Refuses` — what decoding answers

## Main results

* `Word.isInstruction_iff` — the language, in terms of formats and control words
* `Format.control?_named` — the printer names everything that the decoder selects
* `decode_exactly` — what decoding answers to every word
-/

namespace OutOfOrder

/-! ### The language -/

namespace Word

/-- Bits `high` to `low` of a word, as a number. -/
def bits (w : Word) (high low : Nat) : Nat := (w.extractLsb high low).toNat

/-- The opcodes of the instruction set. -/
def opcodes : List Nat :=
  [0x33, 0x13, 0x03, 0x23, 0x63, 0x37, 0x17, 0x6F, 0x0F, 0x67, 0x73]

/-- The words that are instructions, by opcode, function codes and, for environment calls, breaks
and trap returns, the twelve upper bits. -/
def IsInstruction (w : Word) : Prop :=
  match w.bits 6 0 with
  | 0x33 => w.bits 31 25 = 0 ∨ w.bits 31 25 = 0x20 ∧ w.bits 14 12 ∈ [0, 5]
  | 0x13 =>
    w.bits 14 12 ∉ [1, 5] ∨ w.bits 14 12 = 1 ∧ w.bits 31 25 = 0 ∨
      w.bits 14 12 = 5 ∧ w.bits 31 25 ∈ [0, 0x20]
  | 0x03 => w.bits 14 12 ∈ [0, 1, 2, 4, 5]
  | 0x23 => w.bits 14 12 ∈ [0, 1, 2]
  | 0x63 => w.bits 14 12 ∈ [0, 1, 4, 5, 6, 7]
  | 0x37 | 0x17 | 0x6F | 0x0F => True
  | 0x67 => w.bits 14 12 = 0
  | 0x73 =>
    w.bits 14 12 = 0 ∧ w.bits 31 20 ∈ [0, 1, 2, 0x102, 0x302] ∨
      w.bits 14 12 ∈ [1, 2, 3, 5, 6, 7]
  | _ => False

theorem bits_opcode (w : Word) : w.bits 6 0 = (Field.opcode w).toNat := rfl

theorem bits_rd (w : Word) : w.bits 11 7 = (Field.rd w).toNat := rfl

theorem bits_rs1 (w : Word) : w.bits 19 15 = (Field.rs1 w).toNat := rfl

theorem bits_rs2 (w : Word) : w.bits 24 20 = (Field.rs2 w).toNat := rfl

theorem bits_funct3 (w : Word) : w.bits 14 12 = (Field.funct3 w).toNat := rfl

theorem bits_funct7 (w : Word) : w.bits 31 25 = (Field.funct7 w).toNat := rfl

theorem bits_csr (w : Word) : w.bits 31 20 = (Field.csr w).toNat := rfl

end Word

/-! ### Formats -/

namespace Format

theorem ofOpcode?_eq_some_iff {n : Nat} {f : Format} :
    ofOpcode? n = some f ↔ n = f.opcode.toNat := by
  constructor
  · intro h
    have hf := List.find?_some h
    exact (beq_iff_eq.mp hf).symm
  · rintro rfl
    cases f <;> rfl

theorem ofOpcode?_eq_none_iff {n : Nat} : ofOpcode? n = none ↔ n ∉ Word.opcodes := by
  constructor
  · intro h hmem
    have hall : ∀ k ∈ Word.opcodes, ofOpcode? k ≠ none := by decide
    exact hall n hmem h
  · intro h
    cases hf : ofOpcode? n with
    | none => rfl
    | some f =>
      rw [ofOpcode?_eq_some_iff] at hf
      subst hf
      exact absurd (by cases f <;> decide) h

end Format

/-! ### Which function codes select an operation -/

theorem funct3_cases (funct3 : BitVec 3) :
    funct3 = 0 ∨ funct3 = 1 ∨ funct3 = 2 ∨ funct3 = 3 ∨ funct3 = 4 ∨ funct3 = 5 ∨ funct3 = 6 ∨
      funct3 = 7 := by
  revert funct3
  decide

theorem Format.isShift_iff (funct3 : BitVec 3) :
    isShift funct3 = true ↔ funct3.toNat ∈ [1, 5] := by
  revert funct3
  decide

theorem AluOp.isSome_ofRegister? (funct3 : BitVec 3) (funct7 : BitVec 7) :
    (ofRegister? funct3 funct7).isSome = true ↔
      funct7.toNat = 0 ∨ funct7.toNat = 0x20 ∧ funct3.toNat ∈ [0, 5] := by
  by_cases hplain : funct7 = 0#7
  · subst hplain
    simp [ofRegister?]
  by_cases halternate : funct7 = 32#7
  · subst halternate
    revert funct3
    decide
  have h0 : funct7.toNat ≠ 0 := fun h => hplain (BitVec.eq_of_toNat_eq h)
  have h1 : funct7.toNat ≠ 0x20 := fun h => halternate (BitVec.eq_of_toNat_eq h)
  simp [ofRegister?, hplain, halternate, h0, h1]

theorem AluOp.isSome_ofImmediate? (funct3 : BitVec 3) (funct7 : BitVec 7) :
    (ofImmediate? funct3 funct7).isSome = true ↔
      funct3.toNat ∉ [1, 5] ∨ funct3.toNat = 1 ∧ funct7.toNat = 0 ∨
        funct3.toNat = 5 ∧ funct7.toNat ∈ [0, 0x20] := by
  by_cases hplain : funct7 = 0#7
  · subst hplain
    revert funct3
    decide
  by_cases halternate : funct7 = 32#7
  · subst halternate
    revert funct3
    decide
  have h0 : funct7.toNat ≠ 0 := fun h => hplain (BitVec.eq_of_toNat_eq h)
  have h1 : funct7.toNat ≠ 0x20 := fun h => halternate (BitVec.eq_of_toNat_eq h)
  by_cases hshift : Format.isShift funct3 = true
  · have hcode := (Format.isShift_iff funct3).mp hshift
    simp [ofImmediate?, hplain, halternate, h0, h1, hshift, hcode]
  · have hcode : funct3.toNat ∉ [1, 5] := fun h => hshift ((Format.isShift_iff funct3).mpr h)
    have hsome : ofImmediate? funct3 funct7 = some (ofFunct3 funct3) := by
      simp [ofImmediate?, hshift]
    exact iff_of_true (by rw [hsome]; rfl) (.inl hcode)

theorem BranchOp.isSome_ofFunct3? (funct3 : BitVec 3) :
    (ofFunct3? funct3).isSome = true ↔ funct3.toNat ∈ [0, 1, 4, 5, 6, 7] := by
  revert funct3
  decide

theorem isLoadCode_iff (funct3 : BitVec 3) :
    isLoadCode funct3 = true ↔ funct3.toNat ∈ [0, 1, 2, 4, 5] := by
  revert funct3
  decide

theorem isStoreCode_iff (funct3 : BitVec 3) :
    isStoreCode funct3 = true ↔ funct3.toNat ∈ [0, 1, 2] := by
  revert funct3
  decide

/-- A system instruction has the twelve upper bits of its word as its immediate. -/
theorem Format.imm_system (w : Word) : (Format.system.imm w).toNat = w.bits 31 20 := by
  rw [Word.bits_csr]
  show ((Field.csr w).setWidth 32).toNat = (Field.csr w).toNat
  rw [BitVec.toNat_setWidth]
  have := (Field.csr w).isLt
  omega

theorem isExitCode_iff (imm : Word) : isExitCode imm = true ↔ imm.toNat ∈ [0, 1] := by
  simp [isExitCode, ← BitVec.toNat_inj]

theorem isTrapReturnCode_iff (imm : Word) :
    isTrapReturnCode imm = true ↔ imm.toNat ∈ [2, 0x102, 0x302] := by
  simp [isTrapReturnCode, ← BitVec.toNat_inj, or_assoc]

theorem isSystemCode_iff (imm : Word) :
    imm.toNat ∈ [0, 1, 2, 0x102, 0x302] ↔
      isExitCode imm = true ∨ isTrapReturnCode imm = true := by
  rw [isExitCode_iff, isTrapReturnCode_iff]
  simp [or_assoc]

theorem isSome_systemControl? (w : Word) :
    (systemControl? w).isSome = true ↔
      w.bits 14 12 = 0 ∧ w.bits 31 20 ∈ [0, 1, 2, 0x102, 0x302] ∨
        w.bits 14 12 ∈ [1, 2, 3, 5, 6, 7] := by
  rw [systemControl?, Word.bits_funct3, ← Format.imm_system, isSystemCode_iff]
  rcases funct3_cases (Field.funct3 w) with h | h | h | h | h | h | h | h
  · rw [h]
    cases isExitCode (Format.system.imm w) <;>
      cases isTrapReturnCode (Format.system.imm w) <;> simp
  all_goals
    rw [h]
    simp

/-- The function codes of a word select a control word exactly when its format has an operation for
them. -/
theorem Format.isSome_control?_iff (f : Format) (w : Word) : (f.control? w).isSome = true ↔
    f.HasOperation (Field.funct3 w) (Field.funct7 w) (f.imm w) := by
  cases f with
  | register => rw [control?, Option.isSome_map, AluOp.isSome_ofRegister?, HasOperation]
  | immediate => rw [control?, Option.isSome_map, AluOp.isSome_ofImmediate?, HasOperation]
  | load => rw [control?, Option.isSome_ite, isLoadCode_iff, HasOperation]
  | store => rw [control?, Option.isSome_ite, isStoreCode_iff, HasOperation]
  | branch => rw [control?, Option.isSome_map, BranchOp.isSome_ofFunct3?, HasOperation]
  | jalr =>
    rw [control?, Option.isSome_ite, ← BitVec.toNat_inj]
    exact Iff.rfl
  | system =>
    rw [HasOperation, imm_system]
    exact isSome_systemControl? w
  | lui | auipc | jal | fence => exact iff_of_true rfl trivial

/-- A word is an instruction if its opcode selects a format and its function codes a control word
within the format. -/
theorem Word.isInstruction_iff (w : Word) :
    w.IsInstruction ↔
      ∃ f, Format.ofOpcode? (Field.opcode w).toNat = some f ∧ (f.control? w).isSome = true := by
  cases hf : Format.ofOpcode? (Field.opcode w).toNat with
  | none =>
    have hno : ¬ w.IsInstruction := by
      rw [Format.ofOpcode?_eq_none_iff, ← bits_opcode] at hf
      intro h
      rw [IsInstruction] at h
      split at h
      all_goals simp_all [opcodes]
    simp [hno]
  | some f =>
    have hopcode : w.bits 6 0 = f.opcode.toNat := Format.ofOpcode?_eq_some_iff.mp hf
    simp only [Option.some.injEq, exists_eq_left']
    rw [IsInstruction, hopcode, Format.isSome_control?_iff]
    cases f with
    | system =>
      rw [Format.HasOperation, Format.imm_system]
      exact Iff.rfl
    | _ => exact Iff.rfl

/-! ### Names -/

/-- The name of an operation of the arithmetic unit. -/
def AluOp.name : AluOp → String
  | none => ""
  | add => "ADD"
  | sub => "SUB"
  | sll => "SLL"
  | slt => "SLT"
  | sltu => "SLTU"
  | xor => "XOR"
  | srl => "SRL"
  | sra => "SRA"
  | or => "OR"
  | and => "AND"

/-- The name of an operation with an immediate: an `I` goes to the end, but before the `U` that
marks an unsigned comparison. -/
def AluOp.immediateName : AluOp → String
  | sltu => "SLTIU"
  | op => op.name ++ "I"

/-- The name of a branch or jump. -/
def BranchOp.name : BranchOp → String
  | none => ""
  | beq => "BEQ"
  | bne => "BNE"
  | blt => "BLT"
  | bge => "BGE"
  | bltu => "BLTU"
  | bgeu => "BGEU"
  | jal => "JAL"
  | jalr => "JALR"

/-- The letter that stands for a width. -/
def Width.letter : Width → String
  | byte => "B"
  | half => "H"
  | word => "W"

/-- The name of a load: its width, and a `U` if it does not extend the sign. -/
def loadName (width : Width) (signed : Bool) : String :=
  "L" ++ width.letter ++ if signed then "" else "U"

/-- The name of a store: its width. -/
def storeName (width : Width) : String := "S" ++ width.letter

/-- A number that has been read from memory, whose upper bytes are zero, with its sign extended or
as it is. -/
def Width.extend (width : Width) (signed : Bool) (answer : Word) : Word :=
  if signed then (answer.setWidth (8 * width.bytes)).signExtend 32 else answer

/-- What becomes of a control and status register that an instruction accesses. -/
inductive CsrFunction where
  /-- The source replaces it. -/
  | swap
  /-- The bits of the source are set in it. -/
  | set
  /-- The bits of the source are cleared in it. -/
  | clear
deriving DecidableEq, Repr

namespace CsrFunction

/-- The new value, from the old one and the source. -/
def apply (f : CsrFunction) (old source : Word) : Word :=
  match f with
  | swap => source
  | set => old ||| source
  | clear => old &&& ~~~source

/-- The name of an access, with an `I` at the end if its source is the number in the register
field. -/
def name (f : CsrFunction) (field : Bool) : String :=
  (match f with
    | swap => "CSRRW"
    | set => "CSRRS"
    | clear => "CSRRC") ++ if field then "I" else ""

end CsrFunction

/-- The names of the instructions that return from a trap or end the program, and the immediates
that tell them apart. -/
def privilegedNames : List (String × Word) :=
  [("ECALL", 0x000), ("EBREAK", 0x001), ("URET", 0x002), ("SRET", 0x102), ("MRET", 0x302)]

namespace Instruction

/-- The function of an instruction that accesses a control and status register. Setting and
clearing no bits leaves the register alone. -/
def Accesses (i : Instruction) (f : CsrFunction) : Prop :=
  ∀ a file, i.accessCsr a file =
    (file.read i.csr,
      if f ≠ .swap ∧ i.csrSource a = 0 then file
      else file.write i.csr (f.apply (file.read i.csr) (i.csrSource a)))

/-- A name is that of the operation which the units perform: the operation of the arithmetic unit,
the condition of a branch, the width of an access and what a load does with the sign, the function
of an access to a control and status register. -/
def NamedAfter (i : Instruction) (name : String) : Prop :=
  match i.format with
  | .register => name = i.control.alu.name
  | .immediate => name = i.control.alu.immediateName
  | .lui => name = "LUI"
  | .auipc => name = "AUIPC"
  | .fence => name = "FENCE"
  | .branch | .jal | .jalr => name = i.control.branch.name
  | .load =>
    (∀ a b, i.access a b = .read (a + i.imm) i.width) ∧
      ∃ signed, name = loadName i.width signed ∧
        ∀ answer, i.loaded answer = i.width.extend signed answer
  | .store =>
    (∀ a b, i.access a b = .write (a + i.imm) i.width b) ∧ name = storeName i.width
  | .system =>
    if i.control.isCsr then
      ∃ f, i.Accesses f ∧ name = f.name i.control.aluField
    else (name, i.imm) ∈ privilegedNames

end Instruction

/-- The names of the alternate forms of an addition and of a right shift. -/
def alternateNames : List String := ["SUB", "SRA", "SRAI"]

theorem AluOp.name_ofRegister? {funct3 : BitVec 3} {funct7 : BitVec 7} {op : AluOp} (imm : Word)
    (h : ofRegister? funct3 funct7 = some op) :
    Format.register.mnemonic? funct3 funct7 imm = some op.name := by
  by_cases hplain : funct7 = 0#7
  · subst hplain
    rcases funct3_cases funct3 with rfl | rfl | rfl | rfl | rfl | rfl | rfl | rfl
    all_goals
      cases h
      rfl
  by_cases halternate : funct7 = 32#7
  · subst halternate
    rcases funct3_cases funct3 with rfl | rfl | rfl | rfl | rfl | rfl | rfl | rfl
    all_goals cases h <;> rfl
  · simp [ofRegister?, hplain, halternate] at h

theorem AluOp.name_ofImmediate? {funct3 : BitVec 3} {funct7 : BitVec 7} {op : AluOp} (imm : Word)
    (h : ofImmediate? funct3 funct7 = some op) :
    Format.immediate.mnemonic? funct3 funct7 imm = some op.immediateName := by
  by_cases hshift : Format.isShift funct3 = true
  · by_cases hplain : funct7 = 0#7
    · subst hplain
      rcases funct3_cases funct3 with rfl | rfl | rfl | rfl | rfl | rfl | rfl | rfl
      all_goals
        cases h
        rfl
    by_cases halternate : funct7 = 32#7
    · subst halternate
      rcases funct3_cases funct3 with rfl | rfl | rfl | rfl | rfl | rfl | rfl | rfl
      all_goals cases h <;> rfl
    · simp [ofImmediate?, hshift, hplain, halternate] at h
  -- without a shift the major function code is part of the immediate, and the printer ignores it
  · rw [ofImmediate?, if_neg hshift] at h
    rcases funct3_cases funct3 with rfl | rfl | rfl | rfl | rfl | rfl | rfl | rfl
    all_goals first
      | exact absurd rfl hshift
      | cases h
        rfl

theorem BranchOp.name_ofFunct3? {funct3 : BitVec 3} {op : BranchOp} (funct7 : BitVec 7) (imm : Word)
    (h : ofFunct3? funct3 = some op) :
    Format.branch.mnemonic? funct3 funct7 imm = some op.name := by
  rcases funct3_cases funct3 with rfl | rfl | rfl | rfl | rfl | rfl | rfl | rfl
  all_goals cases h <;> rfl

/-- What reading gives for a load code, by width. -/
theorem extendLoaded_eq {funct3 : BitVec 3} (h : isLoadCode funct3 = true) :
    ∃ signed, (∀ funct7 imm, Format.load.mnemonic? funct3 funct7 imm =
        some (loadName (Width.ofFunct3 funct3) signed)) ∧
      ∀ answer, extendLoaded funct3 answer = (Width.ofFunct3 funct3).extend signed answer := by
  rcases funct3_cases funct3 with rfl | rfl | rfl | rfl | rfl | rfl | rfl | rfl
  · exact ⟨true, fun _ _ => rfl, fun _ => rfl⟩
  · exact ⟨true, fun _ _ => rfl, fun _ => rfl⟩
  · refine ⟨true, fun _ _ => rfl, fun answer => ?_⟩
    show answer = (answer.setWidth 32).signExtend 32
    simp
  · cases h
  · exact ⟨false, fun _ _ => rfl, fun _ => rfl⟩
  · exact ⟨false, fun _ _ => rfl, fun _ => rfl⟩
  · cases h
  · cases h

theorem mnemonic_store {funct3 : BitVec 3} (funct7 : BitVec 7) (imm : Word)
    (h : isStoreCode funct3 = true) :
    Format.store.mnemonic? funct3 funct7 imm = some (storeName (Width.ofFunct3 funct3)) := by
  rcases funct3_cases funct3 with rfl | rfl | rfl | rfl | rfl | rfl | rfl | rfl
  all_goals first
    | rfl
    | cases h

namespace Instruction

variable {i : Instruction}

theorem accesses_swap (hswap : i.isSwap = true) (hinvert : i.control.aluInvert = false) :
    i.Accesses .swap := by
  intro a file
  simp [accessCsr, hswap, csrOperand, hinvert, CsrFunction.apply]

theorem accesses_set (hswap : i.isSwap = false) (hinvert : i.control.aluInvert = false)
    (halu : i.control.alu = .or) : i.Accesses .set := by
  intro a file
  rw [accessCsr, hswap]
  simp only [Bool.false_eq_true, if_false, csrOperand, hinvert, halu, CsrFunction.apply,
    AluOp.eval, AluOp.logic, BitVec.or_comm (i.csrSource a)]
  split <;> simp_all

theorem accesses_clear (hswap : i.isSwap = false) (hinvert : i.control.aluInvert = true)
    (halu : i.control.alu = .and) : i.Accesses .clear := by
  intro a file
  rw [accessCsr, hswap]
  simp only [Bool.false_eq_true, if_false, csrOperand, hinvert, if_true, halu, CsrFunction.apply,
    AluOp.eval, AluOp.logic, BitVec.and_comm (~~~i.csrSource a)]
  split <;> simp_all

end Instruction

theorem privileged_named {imm : Word} (funct7 : BitVec 7)
    (h : isExitCode imm = true ∨ isTrapReturnCode imm = true) :
    ∃ name, Format.system.mnemonic? 0 funct7 imm = some name ∧ (name, imm) ∈ privilegedNames ∧
      name ∉ alternateNames := by
  simp only [isExitCode, isTrapReturnCode, Bool.or_eq_true, beq_iff_eq] at h
  rcases h with (rfl | rfl) | (rfl | rfl) | rfl
  all_goals exact ⟨_, rfl, by decide, by decide⟩

/-- The printer names a system instruction after what it does. -/
theorem systemControl?_named {w : Word} {c : Control} (pc : Word) (uuid : Nat)
    (h : systemControl? w = some c) :
    ∃ name, (Instruction.mk uuid pc w .system c).mnemonic? = some name ∧
      (Instruction.mk uuid pc w .system c).NamedAfter name ∧
      (name ∈ alternateNames ↔ c.alu = .sub ∨ c.alu = .sra) := by
  have hname : ∀ {name}, Format.system.mnemonic? (Field.funct3 w) (Field.funct7 w)
      (Format.system.imm w) = some name →
      (Instruction.mk uuid pc w .system c).mnemonic? = some name := id
  have hswap : (Instruction.mk uuid pc w .system c).isSwap =
      (Field.funct3 w == 0b001 || Field.funct3 w == 0b101) := rfl
  rw [systemControl?] at h
  rcases funct3_cases (Field.funct3 w) with hf | hf | hf | hf | hf | hf | hf | hf
  all_goals rw [hf] at h hname hswap
  · change (if isExitCode (Format.system.imm w) = true then _ else ite _ _ _) = _ at h
    split at h
    · next hexit =>
      obtain rfl := Option.some.inj h
      obtain ⟨name, hn, hmem, halternate⟩ := privileged_named (Field.funct7 w) (.inl hexit)
      exact ⟨name, hname hn, hmem, iff_of_false halternate (by simp)⟩
    · split at h
      · next hreturn =>
        obtain rfl := Option.some.inj h
        obtain ⟨name, hn, hmem, halternate⟩ := privileged_named (Field.funct7 w) (.inr hreturn)
        exact ⟨name, hname hn, hmem, iff_of_false halternate (by simp)⟩
      · cases h
  · obtain rfl := Option.some.inj h
    exact ⟨"CSRRW", hname rfl, ⟨.swap, Instruction.accesses_swap hswap rfl, rfl⟩,
      iff_of_false (by decide) (by simp)⟩
  · obtain rfl := Option.some.inj h
    exact ⟨"CSRRS", hname rfl, ⟨.set, Instruction.accesses_set hswap rfl rfl, rfl⟩,
      iff_of_false (by decide) (by simp)⟩
  · obtain rfl := Option.some.inj h
    exact ⟨"CSRRC", hname rfl, ⟨.clear, Instruction.accesses_clear hswap rfl rfl, rfl⟩,
      iff_of_false (by decide) (by simp)⟩
  · cases h
  · obtain rfl := Option.some.inj h
    exact ⟨"CSRRWI", hname rfl, ⟨.swap, Instruction.accesses_swap hswap rfl, rfl⟩,
      iff_of_false (by decide) (by simp)⟩
  · obtain rfl := Option.some.inj h
    exact ⟨"CSRRSI", hname rfl, ⟨.set, Instruction.accesses_set hswap rfl rfl, rfl⟩,
      iff_of_false (by decide) (by simp)⟩
  · obtain rfl := Option.some.inj h
    exact ⟨"CSRRCI", hname rfl, ⟨.clear, Instruction.accesses_clear hswap rfl rfl, rfl⟩,
      iff_of_false (by decide) (by simp)⟩

theorem AluOp.name_mem_alternateNames (op : AluOp) :
    op.name ∈ alternateNames ↔ op = .sub ∨ op = .sra := by
  cases op <;> decide

theorem AluOp.immediateName_mem_alternateNames {op : AluOp} (h : op ≠ .sub) :
    op.immediateName ∈ alternateNames ↔ op = .sub ∨ op = .sra := by
  cases op <;> first
    | decide
    | exact absurd rfl h

theorem AluOp.ofImmediate?_ne_sub {funct3 : BitVec 3} {funct7 : BitVec 7} {op : AluOp}
    (h : ofImmediate? funct3 funct7 = some op) : op ≠ .sub := by
  have hplain : ofFunct3 funct3 ≠ .sub := by
    rcases funct3_cases funct3 with rfl | rfl | rfl | rfl | rfl | rfl | rfl | rfl
    all_goals decide
  rw [ofImmediate?] at h
  split at h
  · split at h
    · exact Option.some.inj h ▸ hplain
    · split at h
      · exact Option.some.inj h ▸ nofun
      · cases h
  · exact Option.some.inj h ▸ hplain

theorem BranchOp.name_notMem_alternateNames (op : BranchOp) : op.name ∉ alternateNames := by
  cases op <;> decide

theorem loadName_notMem_alternateNames (width : Width) (signed : Bool) :
    loadName width signed ∉ alternateNames := by
  cases width <;> cases signed <;> decide

theorem storeName_notMem_alternateNames (width : Width) :
    storeName width ∉ alternateNames := by
  cases width <;> decide

/-- **The printer's table covers the decoder's**, and agrees with it: an operation that a control
word has been selected for has a name, and the name is that of what the units will do. It is the
name of an alternate form exactly if the arithmetic unit performs an alternate operation. -/
theorem Format.control?_named {f : Format} {w : Word} {c : Control} (pc : Word) (uuid : Nat)
    (h : f.control? w = some c) :
    ∃ name, (Instruction.mk uuid pc w f c).mnemonic? = some name ∧
      (Instruction.mk uuid pc w f c).NamedAfter name ∧
      (name ∈ alternateNames ↔ c.alu = .sub ∨ c.alu = .sra) := by
  cases f with
  | register =>
    obtain ⟨op, hop, rfl⟩ := Option.map_eq_some_iff.mp h
    exact ⟨op.name, AluOp.name_ofRegister? _ hop, rfl, op.name_mem_alternateNames⟩
  | immediate =>
    obtain ⟨op, hop, rfl⟩ := Option.map_eq_some_iff.mp h
    exact ⟨op.immediateName, AluOp.name_ofImmediate? _ hop, rfl,
      AluOp.immediateName_mem_alternateNames (AluOp.ofImmediate?_ne_sub hop)⟩
  | load =>
    obtain ⟨hcode, hc⟩ := Option.ite_none_right_eq_some.mp h
    obtain rfl := Option.some.inj hc
    obtain ⟨signed, hname, hextend⟩ := extendLoaded_eq hcode
    exact ⟨loadName (Width.ofFunct3 (Field.funct3 w)) signed, hname _ _,
      ⟨fun _ _ => rfl, signed, rfl, hextend⟩,
      iff_of_false (loadName_notMem_alternateNames _ _) nofun⟩
  | store =>
    obtain ⟨hcode, hc⟩ := Option.ite_none_right_eq_some.mp h
    obtain rfl := Option.some.inj hc
    exact ⟨storeName (Width.ofFunct3 (Field.funct3 w)), mnemonic_store _ _ hcode,
      ⟨fun _ _ => rfl, rfl⟩, iff_of_false (storeName_notMem_alternateNames _) nofun⟩
  | branch =>
    obtain ⟨op, hop, rfl⟩ := Option.map_eq_some_iff.mp h
    exact ⟨op.name, BranchOp.name_ofFunct3? _ _ hop, rfl,
      iff_of_false op.name_notMem_alternateNames nofun⟩
  | lui =>
    obtain rfl := Option.some.inj h
    exact ⟨"LUI", rfl, rfl, iff_of_false (by decide) nofun⟩
  | auipc =>
    obtain rfl := Option.some.inj h
    exact ⟨"AUIPC", rfl, rfl, iff_of_false (by decide) nofun⟩
  | jal =>
    obtain rfl := Option.some.inj h
    exact ⟨"JAL", rfl, rfl, iff_of_false (by decide) nofun⟩
  | jalr =>
    obtain ⟨hcode, hc⟩ := Option.ite_none_right_eq_some.mp h
    obtain rfl := Option.some.inj hc
    exact ⟨"JALR", rfl, rfl, iff_of_false (by decide) nofun⟩
  | system => exact systemControl?_named pc uuid h
  | fence =>
    obtain rfl := Option.some.inj h
    exact ⟨"FENCE", rfl, rfl, iff_of_false (by decide) nofun⟩

/-! ### Units -/

/-- What an opcode says about the control word of its instructions. -/
structure Control.Classified (w : Word) (c : Control) : Prop where
  isLoad_iff : c.isLoad = true ↔ w.bits 6 0 = 0x03
  isStore_iff : c.isStore = true ↔ w.bits 6 0 = 0x23
  isCsr_iff : c.isCsr = true ↔ w.bits 6 0 = 0x73 ∧ w.bits 14 12 ≠ 0
  isControlFlow_iff : c.branch.isControlFlow = true ↔ w.bits 6 0 ∈ [0x63, 0x6F, 0x67]
  isExit_iff : c.isExit = true ↔ w.bits 6 0 = 0x73 ∧ w.bits 14 12 = 0 ∧ w.bits 31 20 ∈ [0, 1]

theorem BranchOp.isControlFlow_ofFunct3? {funct3 : BitVec 3} {op : BranchOp}
    (h : ofFunct3? funct3 = some op) : op.isControlFlow = true := by
  rcases funct3_cases funct3 with rfl | rfl | rfl | rfl | rfl | rfl | rfl | rfl
  all_goals cases h <;> rfl

theorem systemControl?_classified {w : Word} {c : Control} (hopcode : w.bits 6 0 = 0x73)
    (h : systemControl? w = some c) : c.Classified w := by
  have hcode : w.bits 14 12 = (Field.funct3 w).toNat := w.bits_funct3
  rw [systemControl?] at h
  rcases funct3_cases (Field.funct3 w) with hf | hf | hf | hf | hf | hf | hf | hf
  all_goals rw [hf] at h hcode
  · change (if isExitCode (Format.system.imm w) = true then _ else ite _ _ _) = _ at h
    split at h
    · next hexit =>
      rw [isExitCode_iff, Format.imm_system] at hexit
      obtain rfl := Option.some.inj h
      constructor <;> simp [hopcode, hcode, BranchOp.isControlFlow]
      simpa using hexit
    · next hexit =>
      rw [isExitCode_iff, Format.imm_system] at hexit
      obtain ⟨-, hc⟩ := Option.ite_none_right_eq_some.mp h
      obtain rfl := Option.some.inj hc
      constructor <;> simp [hopcode, hcode, BranchOp.isControlFlow]
      simpa using hexit
  · obtain rfl := Option.some.inj h
    constructor <;> simp [hopcode, hcode, BranchOp.isControlFlow]
  · obtain rfl := Option.some.inj h
    constructor <;> simp [hopcode, hcode, BranchOp.isControlFlow]
  · obtain rfl := Option.some.inj h
    constructor <;> simp [hopcode, hcode, BranchOp.isControlFlow]
  · cases h
  · obtain rfl := Option.some.inj h
    constructor <;> simp [hopcode, hcode, BranchOp.isControlFlow]
  · obtain rfl := Option.some.inj h
    constructor <;> simp [hopcode, hcode, BranchOp.isControlFlow]
  · obtain rfl := Option.some.inj h
    constructor <;> simp [hopcode, hcode, BranchOp.isControlFlow]

theorem Format.control?_classified {f : Format} {w : Word} {c : Control}
    (hopcode : w.bits 6 0 = f.opcode.toNat) (h : f.control? w = some c) : c.Classified w := by
  cases f with
  | register =>
    obtain ⟨op, hop, rfl⟩ := Option.map_eq_some_iff.mp h
    constructor <;> simp [hopcode, opcode, BranchOp.isControlFlow]
  | immediate =>
    obtain ⟨op, hop, rfl⟩ := Option.map_eq_some_iff.mp h
    constructor <;> simp [hopcode, opcode, BranchOp.isControlFlow]
  | load =>
    obtain ⟨hcode, hc⟩ := Option.ite_none_right_eq_some.mp h
    obtain rfl := Option.some.inj hc
    constructor <;> simp [hopcode, opcode, BranchOp.isControlFlow]
  | store =>
    obtain ⟨hcode, hc⟩ := Option.ite_none_right_eq_some.mp h
    obtain rfl := Option.some.inj hc
    constructor <;> simp [hopcode, opcode, BranchOp.isControlFlow]
  | branch =>
    obtain ⟨op, hop, rfl⟩ := Option.map_eq_some_iff.mp h
    constructor <;> simp [hopcode, opcode, BranchOp.isControlFlow_ofFunct3? hop]
  | lui =>
    obtain rfl := Option.some.inj h
    constructor <;> simp [hopcode, opcode, BranchOp.isControlFlow]
  | auipc =>
    obtain rfl := Option.some.inj h
    constructor <;> simp [hopcode, opcode, BranchOp.isControlFlow]
  | jal =>
    obtain rfl := Option.some.inj h
    constructor <;> simp [hopcode, opcode, BranchOp.isControlFlow]
  | jalr =>
    obtain ⟨hcode, hc⟩ := Option.ite_none_right_eq_some.mp h
    obtain rfl := Option.some.inj hc
    constructor <;> simp [hopcode, opcode, BranchOp.isControlFlow]
  | system => exact systemControl?_classified hopcode h
  | fence =>
    obtain rfl := Option.some.inj h
    constructor <;> simp [hopcode, opcode, BranchOp.isControlFlow]

/-- The unit that an opcode sends its instructions to. -/
def Word.unitKind (w : Word) : UnitKind :=
  if w.bits 6 0 ∈ [0x03, 0x23] then .memory
  else if w.bits 6 0 = 0x73 ∧ w.bits 14 12 ≠ 0 then .system
  else if w.bits 6 0 ∈ [0x63, 0x6F, 0x67] then .branch
  else .alu

theorem Control.Classified.unit_eq {w : Word} {c : Control} (h : c.Classified w) :
    c.unit = w.unitKind := by
  simp only [Control.unit, Word.unitKind, Bool.or_eq_true, h.isLoad_iff, h.isStore_iff,
    h.isCsr_iff, h.isControlFlow_iff, List.mem_cons, List.not_mem_nil, or_false]

/-! ### Decoding -/

/-- Decoding without the last check, which always succeeds. -/
theorem decode_eq (w pc : Word) (uuid : Nat) :
    decode w pc uuid =
      match Format.ofOpcode? (w.bits 6 0) with
      | none => .error (.unknownOpcode w (BitVec.ofNat 32 (w.bits 6 0)) pc)
      | some f =>
        match f.control? w with
        | none =>
          .error (.unknownOperation (BitVec.ofNat 32 (w.bits 6 0)) (BitVec.ofNat 32 (w.bits 14 12))
            (BitVec.ofNat 32 (w.bits 31 25)) (f.imm w) pc)
        | some c => .ok ⟨uuid, pc, w, f, c⟩ := by
  simp only [decode, Word.bits_opcode, Word.bits_funct3, Word.bits_funct7, BitVec.ofNat_toNat]
  cases Format.ofOpcode? (Field.opcode w).toNat with
  | none => rfl
  | some f =>
    cases hc : f.control? w with
    | none => simp only [hc]
    | some c =>
      obtain ⟨name, hname, -⟩ := Format.control?_named pc uuid hc
      simp only [hc, hname]

/-- An instruction is what is noted down, the format of the opcode, and the control word. -/
theorem decode_eq_ok_iff {w pc : Word} {uuid : Nat} {i : Instruction} :
    decode w pc uuid = .ok i ↔
      ∃ f c, w.bits 6 0 = f.opcode.toNat ∧ f.control? w = some c ∧ i = ⟨uuid, pc, w, f, c⟩ := by
  rw [decode_eq]
  constructor
  · intro h
    split at h
    · cases h
    · next f hf =>
      split at h
      · cases h
      · next c hc => exact ⟨f, c, Format.ofOpcode?_eq_some_iff.mp hf, hc, (Except.ok.inj h).symm⟩
  · rintro ⟨f, c, hopcode, hc, rfl⟩
    rw [Format.ofOpcode?_eq_some_iff.mpr hopcode]
    dsimp only
    rw [hc]

/-- What an instruction looks like that has been decoded from a word. -/
structure Instruction.DecodedFrom (w pc : Word) (uuid : Nat) (i : Instruction) : Prop where
  word_eq : i.word = w
  pc_eq : i.pc = pc
  uuid_eq : i.uuid = uuid
  opcode_eq : i.format.opcode.toNat = w.bits 6 0
  classified : i.control.Classified w
  unit_eq : i.unit = w.unitKind
  named : ∃ name, i.mnemonic? = some name ∧ i.NamedAfter name ∧
    (name ∈ alternateNames ↔ i.control.alu = .sub ∨ i.control.alu = .sra)

/-- Why a word is refused. An opcode that is none of the instruction set's is reported as such, and
otherwise the function codes are; a missing name is never the reason. -/
inductive DecodeError.Refuses (w pc : Word) : DecodeError → Prop where
  | opcode (h : w.bits 6 0 ∉ Word.opcodes) :
    Refuses w pc (.unknownOpcode w (BitVec.ofNat 32 (w.bits 6 0)) pc)
  | operation (h : w.bits 6 0 ∈ Word.opcodes) (f : Format) (hf : f.opcode.toNat = w.bits 6 0) :
    Refuses w pc (.unknownOperation (BitVec.ofNat 32 (w.bits 6 0)) (BitVec.ofNat 32 (w.bits 14 12))
      (BitVec.ofNat 32 (w.bits 31 25)) (f.imm w) pc)

theorem Format.opcode_mem_opcodes (f : Format) : f.opcode.toNat ∈ Word.opcodes := by
  cases f <;> decide

/-- **The decoder accepts exactly the instruction set.** It says truthfully why it refuses a word,
and a word that it accepts goes to the unit that its opcode prescribes and has the name of what it
does there. -/
theorem decode_exactly (w pc : Word) (uuid : Nat) :
    ((∃ i, decode w pc uuid = .ok i) ↔ w.IsInstruction) ∧
      match decode w pc uuid with
      | .ok i => i.DecodedFrom w pc uuid
      | .error e => e.Refuses w pc := by
  rw [Word.isInstruction_iff, decode_eq, ← Word.bits_opcode]
  cases hf : Format.ofOpcode? (w.bits 6 0) with
  | none =>
    refine ⟨by simp, ?_⟩
    show (DecodeError.unknownOpcode ..).Refuses w pc
    exact .opcode (Format.ofOpcode?_eq_none_iff.mp hf)
  | some f =>
    have hopcode : w.bits 6 0 = f.opcode.toNat := Format.ofOpcode?_eq_some_iff.mp hf
    dsimp only
    cases hc : f.control? w with
    | none =>
      refine ⟨by simp [hc], ?_⟩
      show (DecodeError.unknownOperation ..).Refuses w pc
      exact .operation (hopcode ▸ f.opcode_mem_opcodes) f hopcode.symm
    | some c =>
      refine ⟨by simp [hc], ?_⟩
      have hclassified := Format.control?_classified hopcode hc
      exact ⟨rfl, rfl, rfl, hopcode.symm, hclassified, hclassified.unit_eq,
        Format.control?_named pc uuid hc⟩

/-- An addition of an immediate keeps its name when the immediate has the bit set that marks the
alternate form elsewhere. -/
example : (decode 0x40000013 0 0).toOption.bind Instruction.mnemonic? = some "ADDI" := by decide

end OutOfOrder
