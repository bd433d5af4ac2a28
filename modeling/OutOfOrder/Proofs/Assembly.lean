import OutOfOrder.Instruction.Encoding
import OutOfOrder.Proofs.InstructionSet

/-!
# Putting words together and taking them apart

Assembling scatters an immediate over a word and decoding gathers it again. Each is a list of bit
fields written one after the other, so nothing has to be said about single bits: a field of a word
that was written down in pieces is one of the pieces, and neighbouring fields of one word are a
field. What is left is whether the immediate survives being cut off above its highest field, and
that is what it means that a format has room for it.

## Main definitions

* `Format.keeps` — what a format keeps of an immediate

## Main results

* `Format.encode_fields` — a word is put together again from its own fields
* `Format.fields_encode`, `Format.imm_encode` — a word that was put together has the fields it was
  put together from, and what the format keeps of the immediate
* `Format.hasRoomFor_imm`, `Format.keeps_of_hasRoomFor` — what is gathered from a word fits into its
  format, and what fits is kept
* `decode_inverts_encode` — decoding and encoding are inverse to each other
-/

namespace OutOfOrder

/-! ### Widening and cutting off -/

section Widths

variable {imm : Word} {n s l b : Nat}

/-- The fields of a number stay where they are when it is sign-extended. -/
theorem extractLsb'_signExtend (x : BitVec n) (h : s + l ≤ n) (hn : n ≤ 32) :
    (x.signExtend 32).extractLsb' s l = x.extractLsb' s l := by
  refine BitVec.eq_of_getLsbD_eq fun i hi => ?_
  have hbound : s + i < n := by omega
  rw [BitVec.getLsbD_extractLsb', BitVec.getLsbD_extractLsb', BitVec.getLsbD_signExtend]
  simp [hi, hbound, Nat.lt_of_lt_of_le hbound hn]

/-- And when it is filled up with zeros. -/
theorem extractLsb'_setWidth (x : BitVec n) (h : s + l ≤ n) (hn : n ≤ 32) :
    (x.setWidth 32).extractLsb' s l = x.extractLsb' s l := by
  refine BitVec.eq_of_getLsbD_eq fun i hi => ?_
  have hbound : s + i < n := by omega
  rw [BitVec.getLsbD_extractLsb', BitVec.getLsbD_extractLsb', BitVec.getLsbD_setWidth]
  simp [hi, hbound, Nat.lt_of_lt_of_le hbound hn]

/-- A signed number of `n` bits survives being cut off to them. -/
theorem signExtend_extractLsb' (hn : n ≤ 32) (h : Nat.pow 2 n = 2 * b)
    (hlow : -(b : Int) ≤ imm.toInt) (hhigh : imm.toInt < b) :
    (imm.extractLsb' 0 n).signExtend 32 = imm := by
  have hcut : imm.toInt = (imm.toNat : Int).bmod (2 ^ n) := by
    rw [← Int.bmod_bmod_of_dvd (Nat.pow_dvd_pow 2 hn), ← BitVec.toInt_eq_toNat_bmod]
    refine (Int.bmod_eq_of_le ?_ ?_).symm
    · change -((Nat.pow 2 n : Nat) / 2 : Int) ≤ _
      omega
    · change _ < ((Nat.pow 2 n : Nat) + 1 : Int) / 2
      omega
  apply BitVec.eq_of_toInt_eq
  rw [BitVec.toInt_signExtend_of_le hn, ← BitVec.setWidth_eq_extractLsb' hn, BitVec.toInt_setWidth,
    hcut]

/-- What is sign-extended from `n` bits is a signed number of `n` bits. -/
theorem toInt_signExtend_bounds (x : BitVec n) (hn : n ≤ 32) (h : Nat.pow 2 n = 2 * b)
    (hb : 0 < b) :
    -(b : Int) ≤ (x.signExtend 32).toInt ∧ (x.signExtend 32).toInt < b := by
  rw [BitVec.toInt_signExtend_of_le hn, BitVec.toInt_eq_toNat_bmod]
  have hpower : 2 ^ n = 2 * b := h
  have hpos : 0 < 2 ^ n := by omega
  have hlow := Int.le_bmod (x := x.toNat) hpos
  have hhigh := Int.bmod_lt (x := x.toNat) hpos
  rw [hpower] at hlow hhigh ⊢
  omega

/-- An unsigned number of `n` bits survives being cut off to them. -/
theorem setWidth_extractLsb' (hn : n ≤ 32) (h : imm.toNat < Nat.pow 2 n) :
    (imm.extractLsb' 0 n).setWidth 32 = imm := by
  have h : imm.toNat < 2 ^ n := h
  apply BitVec.eq_of_toNat_eq
  rw [← BitVec.setWidth_eq_extractLsb' hn, BitVec.toNat_setWidth, BitVec.toNat_setWidth,
    Nat.mod_eq_of_lt h, Nat.mod_eq_of_lt imm.isLt]

/-- The low bits of a number are zero if it is a multiple of a power of two. -/
theorem extractLsb'_eq_zero_iff (hn : n ≤ 32) :
    imm.extractLsb' 0 n = 0#n ↔ imm.toNat % Nat.pow 2 n = 0 := by
  rw [← BitVec.setWidth_eq_extractLsb' hn, ← BitVec.toNat_inj, BitVec.toNat_setWidth]
  exact Iff.rfl

/-- They need not be written down then. -/
theorem extractLsb'_append_zero (k : Nat) (hn : n ≤ 32) (h : imm.toNat % Nat.pow 2 n = 0) :
    imm.extractLsb' n k ++ 0#n = imm.extractLsb' 0 (k + n) := by
  rw [← (extractLsb'_eq_zero_iff hn).mpr h]
  exact BitVec.extractLsb'_append_extractLsb'_eq_extractLsb' (Nat.zero_add n).symm

end Widths

namespace Format

/-! ### From a word and back -/

/-- A word of any format but that of fences is put together again from its own fields. -/
theorem encode_fields {f : Format} (w : Word) (hf : f ≠ .fence) :
    f.encode (Field.rd w) (Field.rs1 w) (Field.rs2 w) (Field.funct3 w) (Field.funct7 w) (f.imm w) =
      w.extractLsb' 7 25 ++ f.opcode := by
  cases f with
  | fence => exact absurd rfl hf
  | immediate =>
    simp only [encode, imm]
    split
    all_goals
      simp (disch := decide) only [Field.rd, Field.rs1, Field.rs2, Field.funct3, Field.funct7,
        BitVec.extractLsb'_append_extractLsb'_eq_extractLsb', extractLsb'_signExtend,
        extractLsb'_setWidth, BitVec.extractLsb'_eq_self]
  | _ =>
    simp (disch := decide) only [encode, imm, Field.rd, Field.rs1, Field.rs2, Field.funct3,
      Field.funct7, BitVec.extractLsb'_append_extractLsb'_eq_extractLsb', extractLsb'_signExtend,
      extractLsb'_setWidth, BitVec.extractLsb'_append_eq_of_add_le,
      BitVec.extractLsb'_append_eq_of_le, BitVec.extractLsb'_eq_self, Nat.reduceSub]

/-- What is gathered from a word fits into its format. -/
theorem hasRoomFor_imm (f : Format) (w : Word) : f.HasRoomFor (Field.funct3 w) (f.imm w) := by
  cases f with
  | register | fence => exact rfl
  | immediate =>
    rw [HasRoomFor, imm]
    split
    · rw [BitVec.toNat_setWidth]
      have := (Field.rs2 w).isLt
      omega
    · exact toInt_signExtend_bounds (b := 2048) _ (by decide) rfl (by decide)
  | load | jalr | store =>
    exact toInt_signExtend_bounds (b := 2048) _ (by decide) rfl (by decide)
  | branch =>
    obtain ⟨hlow, hhigh⟩ := toInt_signExtend_bounds (n := 13) (b := 4096) _ (by decide)
      rfl (by decide)
    refine ⟨hlow, hhigh, (extractLsb'_eq_zero_iff (n := 1) (by decide)).mp ?_⟩
    exact (extractLsb'_signExtend _ (by decide) (by decide)).trans
      BitVec.extractLsb'_append_eq_right
  | jal =>
    obtain ⟨hlow, hhigh⟩ := toInt_signExtend_bounds (n := 21) (b := 1048576) _
      (by decide) rfl (by decide)
    refine ⟨hlow, hhigh, (extractLsb'_eq_zero_iff (n := 1) (by decide)).mp ?_⟩
    exact (extractLsb'_signExtend _ (by decide) (by decide)).trans
      BitVec.extractLsb'_append_eq_right
  | lui | auipc =>
    exact (extractLsb'_eq_zero_iff (by decide)).mp BitVec.extractLsb'_append_eq_right
  | system =>
    rw [HasRoomFor, imm_system]
    exact (w.extractLsb 31 20).isLt

/-! ### From parts to a word -/

variable (rd rs1 rs2 : Reg) (funct3 : BitVec 3) (funct7 : BitVec 7) (imm : Word)

/-- A word that was put together has the fields it was put together from. -/
theorem fields_encode (f : Format) :
    let w := f.encode rd rs1 rs2 funct3 funct7 imm
    Field.opcode w = f.opcode ∧
      (f ∉ [.store, .branch] → Field.rd w = rd) ∧
      (f ∉ [.lui, .auipc, .jal] → Field.rs1 w = rs1 ∧ Field.funct3 w = funct3) ∧
      (f ∈ [.register, .store, .branch] → Field.rs2 w = rs2) ∧
      (f = .register ∨ f = .immediate ∧ isShift funct3 = true → Field.funct7 w = funct7) := by
  cases f with
  | immediate =>
    by_cases hshift : isShift funct3 = true
    all_goals
      simp (disch := decide) only [encode, hshift, if_true, Bool.false_eq_true, if_false,
        Field.opcode, Field.rd, Field.rs1, Field.funct3, Field.funct7,
        BitVec.extractLsb'_append_eq_of_add_le, BitVec.extractLsb'_append_eq_of_le,
        BitVec.extractLsb'_eq_self, Nat.reduceSub]
      simp
  | _ =>
    simp (disch := decide) only [encode, Field.opcode, Field.rd, Field.rs1, Field.rs2, Field.funct3,
      Field.funct7, BitVec.extractLsb'_append_eq_of_add_le, BitVec.extractLsb'_append_eq_of_le,
      BitVec.extractLsb'_eq_self, Nat.reduceSub]
    simp

/-- What is left of an immediate when everything is cut off that the format has no field for. -/
def keeps (f : Format) (funct3 : BitVec 3) (imm : Word) : Word :=
  match f with
  | .immediate =>
    if isShift funct3 then (imm.extractLsb' 0 5).setWidth 32
    else (imm.extractLsb' 0 12).signExtend 32
  | .load | .jalr | .store => (imm.extractLsb' 0 12).signExtend 32
  | .branch => (imm.extractLsb' 1 12 ++ 0#1).signExtend 32
  | .jal => (imm.extractLsb' 1 20 ++ 0#1).signExtend 32
  | .lui | .auipc => imm.extractLsb' 12 20 ++ 0#12
  | .system => (imm.extractLsb' 0 12).setWidth 32
  | .register | .fence => 0

/-- What was scattered is gathered again, in the same order. -/
theorem imm_encode (f : Format) :
    f.imm (f.encode rd rs1 rs2 funct3 funct7 imm) = f.keeps funct3 imm := by
  cases f with
  | register | fence => rfl
  | immediate =>
    obtain ⟨-, -, hsource, -⟩ := Format.immediate.fields_encode rd rs1 rs2 funct3 funct7 imm
    rw [Format.imm, (hsource (by decide)).2, keeps]
    by_cases hshift : isShift funct3 = true
    all_goals
      simp (disch := decide) only [encode, hshift, if_true, Bool.false_eq_true, if_false, Field.rs2,
        BitVec.extractLsb'_append_eq_of_le, BitVec.extractLsb'_append_eq_of_add_le,
        BitVec.extractLsb'_eq_self, Nat.reduceSub]
  | _ =>
    simp (disch := decide) only [encode, Format.imm, keeps, BitVec.extractLsb'_append_eq_of_add_le,
      BitVec.extractLsb'_append_eq_of_le, BitVec.extractLsb'_append_extractLsb'_eq_extractLsb',
      BitVec.extractLsb'_eq_self, Nat.reduceSub]

/-- Nothing is cut off of an immediate for which the format has room. -/
theorem keeps_of_hasRoomFor {f : Format} {funct3 : BitVec 3} {imm : Word}
    (h : f.HasRoomFor funct3 imm) : f.keeps funct3 imm = imm := by
  cases f with
  | register | fence => exact h.symm
  | immediate =>
    rw [HasRoomFor] at h
    rw [keeps]
    split
    · next hshift =>
      rw [if_pos hshift] at h
      exact setWidth_extractLsb' (by decide) h
    · next hshift =>
      rw [if_neg hshift] at h
      exact signExtend_extractLsb' (b := 2048) (by decide) rfl h.1 h.2
  | load | jalr | store => exact signExtend_extractLsb' (b := 2048) (by decide) rfl h.1 h.2
  | branch =>
    rw [keeps, extractLsb'_append_zero _ (by decide) h.2.2]
    exact signExtend_extractLsb' (b := 4096) (by decide) rfl h.1 h.2.1
  | jal =>
    rw [keeps, extractLsb'_append_zero _ (by decide) h.2.2]
    exact signExtend_extractLsb' (b := 1048576) (by decide) rfl h.1 h.2.1
  | lui | auipc =>
    rw [keeps, extractLsb'_append_zero (n := 12) _ (by decide) h]
    exact BitVec.extractLsb'_eq_self
  | system => exact setWidth_extractLsb' (by decide) h

/-- A format has operations for function codes regardless of those that it has no field for. -/
theorem hasOperation_encode {f : Format} {funct3 : BitVec 3} {funct7 : BitVec 7} {imm : Word}
    (hroom : f.HasRoomFor funct3 imm) (h : f.HasOperation funct3 funct7 imm) :
    let w := f.encode rd rs1 rs2 funct3 funct7 imm
    f.HasOperation (Field.funct3 w) (Field.funct7 w) (f.imm w) := by
  intro w
  obtain ⟨-, -, hsource, -, hfunct7⟩ := f.fields_encode rd rs1 rs2 funct3 funct7 imm
  rw [imm_encode, keeps_of_hasRoomFor hroom]
  cases f with
  | register =>
    rw [(hsource (by decide)).2, hfunct7 (.inl rfl)]
    exact h
  | immediate =>
    rw [(hsource (by decide)).2]
    by_cases hshift : isShift funct3 = true
    · rw [hfunct7 (.inr ⟨rfl, hshift⟩)]
      exact h
    · exact .inl fun hmem => hshift ((isShift_iff funct3).mpr hmem)
  | lui | auipc | jal => trivial
  | _ =>
    rw [(hsource (by decide)).2]
    exact h

end Format

/-! ### Both ways -/

/-- **Decoding and encoding are inverse to each other.** The fields and the immediate of an
instruction that is no fence spell out the word that it was decoded from; they are within the range
of its format, and the format has an operation for them. The other way round, for all registers, all
immediates within the range of a format and all function codes that it has an operation for, the
word with these parts decodes to an instruction that is made of them. -/
theorem decode_inverts_encode :
    (∀ {w pc : Word} {uuid : Nat} {i : Instruction}, decode w pc uuid = .ok i → w.bits 6 0 ≠ 0x0F →
      i.encoded = w ∧ i.format.HasRoomFor i.funct3 i.imm ∧
        i.format.HasOperation i.funct3 i.funct7 i.imm) ∧
    ∀ (f : Format) (rd rs1 rs2 : Reg) (funct3 : BitVec 3) (funct7 : BitVec 7) (imm pc : Word)
      (uuid : Nat), f.HasRoomFor funct3 imm → f.HasOperation funct3 funct7 imm →
        ∃ i, decode (f.encode rd rs1 rs2 funct3 funct7 imm) pc uuid = .ok i ∧
          i.MadeOf f rd rs1 rs2 funct3 funct7 imm := by
  refine ⟨fun {w pc uuid i} h hfence => ?_,
    fun f rd rs1 rs2 funct3 funct7 imm pc uuid hroom hoperation => ?_⟩
  · obtain ⟨f, c, hopcode, hc, rfl⟩ := decode_eq_ok_iff.mp h
    refine ⟨?_, f.hasRoomFor_imm w, (f.isSome_control?_iff w).mp (by rw [hc]; rfl)⟩
    have hopcode' : Field.opcode w = f.opcode := BitVec.eq_of_toNat_eq hopcode
    have hf : f ≠ .fence := by
      rintro rfl
      exact hfence hopcode
    calc
      _ = w.extractLsb' 7 25 ++ f.opcode := Format.encode_fields w hf
      _ = w.extractLsb' 7 25 ++ w.extractLsb' 0 7 := by rw [← hopcode']; rfl
      _ = w := BitVec.extractLsb'_append_extractLsb'
  · obtain ⟨hopcode, hrd, hsource, hrs2, hfunct7⟩ :=
      f.fields_encode rd rs1 rs2 funct3 funct7 imm
    have hsome := (f.isSome_control?_iff _).mpr
      (Format.hasOperation_encode rd rs1 rs2 hroom hoperation)
    obtain ⟨c, hc⟩ := Option.isSome_iff_exists.mp hsome
    exact ⟨⟨uuid, pc, _, f, c⟩,
      decode_eq_ok_iff.mpr ⟨f, c, congrArg BitVec.toNat hopcode, hc, rfl⟩, rfl,
      (f.imm_encode rd rs1 rs2 funct3 funct7 imm).trans (Format.keeps_of_hasRoomFor hroom), hrd,
      fun hf => (hsource hf).1, hrs2, fun hf => (hsource hf).2, hfunct7⟩

/-- A conditional branch four bytes back, taken apart and put together. -/
theorem decode_inverts_encode_branch :
    (∃ i, decode 0xFE208EE3 0 0 = .ok i ∧ i.encoded = 0xFE208EE3) ∧
      ∃ i, decode (Format.branch.encode 0 1 2 0 0 (-4)) 0 0 = .ok i ∧ i.imm = -4 := by
  obtain ⟨i, hi⟩ : ∃ i, decode 0xFE208EE3 0 0 = .ok i := ⟨_, rfl⟩
  obtain ⟨j, hj, hmade⟩ :=
    decode_inverts_encode.2 .branch 0 1 2 0 0 (-4) 0 0 (by decide) (by decide)
  exact ⟨⟨i, hi, (decode_inverts_encode.1 hi (by decide)).1⟩, j, hj, hmade.imm_eq⟩

end OutOfOrder
