import OutOfOrder.Instruction.Decode

/-!
# What comes out of the decoder

Everything that decoding says about a word follows from the word; the address and the serial number
are only noted down. And not every control word comes out: an instruction never writes `x0`, never
both ends the program and is one of control flow, and if it is one of control flow it goes to the
branch unit; likewise, access to a control and status register goes to the system unit, and a load
or store takes its address and what it stores from registers. Renaming, waiting for targets and
stopping rely on this.

## Main definitions

* `Control.Sound` — what the control word of an instruction word always satisfies
* `Instruction.Decoded` — an instruction is what its own word decodes to

## Main results

* `decode_renumber` — the serial number is only noted down
* `Instruction.Decoded.dest_ne_zero`, `not_isControlFlow`, `unit_of_isControlFlow`, `unit_of_isCsr`,
  `usesRs1_of_unit`, `usesRs2_of_isStore`
-/

namespace OutOfOrder

/-- What the control word of `w` always satisfies. -/
structure Control.Sound (w : Word) (c : Control) : Prop where
  /-- Register `x0` is never written. -/
  rd_ne_zero : c.usesRd = true → Field.rd w ≠ 0
  /-- An instruction that ends the program is not one of control flow. -/
  branch_of_isExit : c.isExit = true → c.branch = .none
  /-- Control flow is a matter of the branch unit. -/
  unit_of_branch : c.branch ≠ .none → c.unit = .branch
  /-- Control and status registers are a matter of the system unit. -/
  unit_of_isCsr : c.isCsr = true → c.unit = .system
  /-- A load or store takes its address from a register. -/
  usesRs1_of_unit : c.unit = .memory → c.usesRs1 = true
  /-- A store takes from a register what it stores. -/
  usesRs2_of_isStore : c.isStore = true → c.usesRs2 = true

/-- Either the destination register is written unless it is `x0`, or nothing is written. -/
theorem rd_ne_zero_of_usesRd {w : Word} {c : Control}
    (hrd : c.usesRd = (Field.rd w != 0) ∨ c.usesRd = false) (h : c.usesRd = true) :
    Field.rd w ≠ 0 := by
  rcases hrd with hrd | hrd
  · rw [hrd] at h
    exact bne_iff_ne.mp h
  · rw [hrd] at h
    simp at h

/-- A control word without control flow. -/
theorem Control.Sound.of_sequential {w : Word} {c : Control} (hbranch : c.branch = .none)
    (hcsr : c.isCsr = true → c.unit = .system)
    (hrd : c.usesRd = (Field.rd w != 0) ∨ c.usesRd = false)
    (hrs1 : c.unit = .memory → c.usesRs1 = true) (hrs2 : c.isStore = true → c.usesRs2 = true) :
    c.Sound w :=
  ⟨rd_ne_zero_of_usesRd hrd, fun _ => hbranch, fun h => absurd hbranch h, hcsr, hrs1, hrs2⟩

/-- A control word with control flow. -/
theorem Control.Sound.of_branch {w : Word} {c : Control} (hexit : c.isExit = false)
    (hcsr : c.isCsr = false) (hunit : c.unit = .branch) (hstore : c.isStore = false)
    (hrd : c.usesRd = (Field.rd w != 0) ∨ c.usesRd = false) : c.Sound w := by
  refine ⟨rd_ne_zero_of_usesRd hrd, ?_, fun _ => hunit, ?_, ?_, ?_⟩
  · intro h
    rw [hexit] at h
    simp at h
  · intro h
    rw [hcsr] at h
    simp at h
  · intro h
    rw [hunit] at h
    cases h
  · intro h
    rw [hstore] at h
    simp at h

theorem systemControl?_sound {w : Word} {c : Control} (h : systemControl? w = some c) :
    c.Sound w := by
  rw [systemControl?] at h
  dsimp only at h
  split at h
  · split at h
    · obtain rfl := Option.some.inj h
      exact .of_sequential rfl nofun (.inr rfl) nofun nofun
    · split at h
      · obtain rfl := Option.some.inj h
        exact .of_sequential rfl nofun (.inr rfl) nofun nofun
      · simp at h
  -- the six accesses to control and status registers, and the code that is not used
  iterate 6
    · obtain rfl := Option.some.inj h
      exact .of_sequential rfl (fun _ => rfl) (.inl rfl) nofun nofun
  · simp at h

theorem Format.control?_sound {f : Format} {w : Word} {c : Control} (h : f.control? w = some c) :
    c.Sound w := by
  cases f with
  | register =>
    obtain ⟨op, -, rfl⟩ := Option.map_eq_some_iff.mp h
    exact .of_sequential rfl nofun (.inl rfl) (fun _ => rfl) nofun
  | immediate =>
    obtain ⟨op, -, rfl⟩ := Option.map_eq_some_iff.mp h
    exact .of_sequential rfl nofun (.inl rfl) (fun _ => rfl) nofun
  | load =>
    rw [Format.control?] at h
    split at h
    · obtain rfl := Option.some.inj h
      exact .of_sequential rfl nofun (.inl rfl) (fun _ => rfl) nofun
    · simp at h
  | store =>
    rw [Format.control?] at h
    split at h
    · obtain rfl := Option.some.inj h
      exact .of_sequential rfl nofun (.inr rfl) (fun _ => rfl) (fun _ => rfl)
    · simp at h
  | branch =>
    obtain ⟨op, hop, rfl⟩ := Option.map_eq_some_iff.mp h
    have hflow : op.isControlFlow = true := by
      rw [BranchOp.ofFunct3?.eq_def] at hop
      split at hop
      all_goals cases hop
      all_goals rfl
    exact .of_branch rfl rfl (by simp [Control.unit, hflow]) rfl (.inr rfl)
  | lui =>
    obtain rfl := Option.some.inj h
    exact .of_sequential rfl nofun (.inl rfl) nofun nofun
  | auipc =>
    obtain rfl := Option.some.inj h
    exact .of_sequential rfl nofun (.inl rfl) nofun nofun
  | jal =>
    obtain rfl := Option.some.inj h
    exact .of_branch rfl rfl rfl rfl (.inl rfl)
  | jalr =>
    rw [Format.control?] at h
    split at h
    · obtain rfl := Option.some.inj h
      exact .of_branch rfl rfl rfl rfl (.inl rfl)
    · simp at h
  | system => exact systemControl?_sound h
  | fence =>
    obtain rfl := Option.some.inj h
    exact .of_sequential rfl nofun (.inr rfl) nofun nofun

/-! ### Instructions -/

/-- What decoding a word gives, up to what is only noted down. -/
theorem of_decode {word pc : Word} {uuid : Nat} {i : Instruction}
    (h : decode word pc uuid = .ok i) :
    i.word = word ∧ i.pc = pc ∧ i.uuid = uuid ∧ i.control.Sound word := by
  rw [decode] at h
  dsimp only at h
  split at h
  · simp at h
  · split at h
    · simp at h
    · next hcontrol =>
      split at h
      · simp at h
      · obtain rfl := Except.ok.inj h
        exact ⟨rfl, rfl, rfl, Format.control?_sound hcontrol⟩

/-- The serial number is only noted down. -/
theorem decode_renumber (word pc : Word) (m n : Nat) :
    decode word pc n = (decode word pc m).map fun i => { i with uuid := n } := by
  rw [decode, decode]
  dsimp only
  cases Format.ofOpcode? (Field.opcode word).toNat with
  | none => rfl
  | some format =>
    dsimp only
    cases format.control? word with
    | none => rfl
    | some control =>
      have hname : (Instruction.mk n pc word format control).mnemonic? =
          (Instruction.mk m pc word format control).mnemonic? := rfl
      dsimp only
      rw [hname]
      cases (Instruction.mk m pc word format control).mnemonic? <;> rfl

/-- The instruction is what its own word decodes to. -/
def Instruction.Decoded (i : Instruction) : Prop := decode i.word i.pc i.uuid = .ok i

theorem decoded_of_decode {word pc : Word} {uuid : Nat} {i : Instruction}
    (h : decode word pc uuid = .ok i) : i.Decoded := by
  obtain ⟨rfl, rfl, rfl, -⟩ := of_decode h
  exact h

namespace Instruction.Decoded

variable {i : Instruction}

theorem dest_ne_zero (h : i.Decoded) : i.dest ≠ some 0 := by
  intro hdest
  rw [dest] at hdest
  split at hdest
  · next hrd => exact (of_decode h).2.2.2.rd_ne_zero hrd (Option.some.inj hdest)
  · simp at hdest

theorem not_isControlFlow (h : i.Decoded) (hexit : i.isExit = true) : i.isControlFlow = false := by
  rw [isControlFlow, (of_decode h).2.2.2.branch_of_isExit hexit]
  rfl

theorem unit_of_isControlFlow (h : i.Decoded) (hflow : i.isControlFlow = true) :
    i.unit = .branch :=
  (of_decode h).2.2.2.unit_of_branch (bne_iff_ne.mp hflow)

theorem unit_of_isCsr (h : i.Decoded) (hcsr : i.control.isCsr = true) : i.unit = .system :=
  (of_decode h).2.2.2.unit_of_isCsr hcsr

theorem usesRs1_of_unit (h : i.Decoded) (hunit : i.unit = .memory) : i.control.usesRs1 = true :=
  (of_decode h).2.2.2.usesRs1_of_unit hunit

theorem usesRs2_of_isStore (h : i.Decoded) (hstore : i.control.isStore = true) :
    i.control.usesRs2 = true :=
  (of_decode h).2.2.2.usesRs2_of_isStore hstore

end Instruction.Decoded

end OutOfOrder
