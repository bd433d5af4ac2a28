import OutOfOrder.Proofs.Operations
import OutOfOrder.Sequential.Basic

/-!
# Every instruction does what the manual says

The decoder turns a word into a control word, and the units work with what the control word selects:
a few operations, each of them used by many instructions, on inputs that may be registers,
immediates, the program counter or nothing at all. A load of an upper immediate, for instance, is an
addition to a register that is not used, and relies on it to count as zero. Here all of this is
compared with the manual, format by format.

## Main definitions

* `Sequential.observed` — a state of the sequential machine as the manual sees it
* `Effect.Conforms` — an effect is what the manual prescribes
* `Instruction.Obeys` — so is everything that computing can answer, including failures

## Main results

* `Format.dest_eq` — which instructions have a destination register
* `Format.obeys` — what an instruction of each format does
* `compute_conforms` — everything that the decoder accepts does what the manual says
-/

namespace OutOfOrder

/-- A state of the sequential machine as the manual sees it. -/
def Sequential.observed (s : Sequential) : Manual.State where
  pc := s.pc
  registers := s.registers.read
  memory := s.memory.byte?
  csrs := s.csrs.read

/-- The effect of the instruction `w` at the address `pc` is what the manual prescribes. -/
structure Effect.Conforms (w pc : Word) (x : Effect) (o : Manual.Outcome) : Prop where
  /-- The result is the value for the destination register. -/
  result : ∀ v, o.value = some v → x.result = v
  /-- Control goes where it should, in order unless it is redirected. -/
  next : x.redirect.getD (pc + instructionSize) = o.next
  /-- Branches and jumps redirect it, and nothing else does. -/
  redirect : x.redirect.isSome = true ↔ w.bits 6 0 ∈ [0x63, 0x6F, 0x67]
  memory : x.memory.byte? = o.memory
  csrs : x.csrs.read = o.csrs

/-- In a state, computing an instruction answers what the manual prescribes for the word `w`, be it
an effect or an error. -/
def Instruction.Obeys (i : Instruction) (w : Word) (s : Sequential) : Prop :=
  match s.effect i, Manual.execute w s.observed with
  | .ok x, .ok o => x.Conforms w s.pc o
  | .error e, .error e' => e = e'
  | _, _ => False

/-! ### What most instructions leave alone -/

namespace Manual

variable {w : Word} {s : State}

theorem fault?_eq_none (hload : w.bits 6 0 ≠ 0x03) (hstore : w.bits 6 0 ≠ 0x23) :
    fault? w s = none := by
  have haddress : address? w s = none := by
    rw [address?]
    split
    · next h => exact absurd h hload
    · next h => exact absurd h hstore
    · rfl
  rw [fault?, haddress]

theorem next_eq (s : State) (h : w.bits 6 0 ∉ [0x63, 0x6F, 0x67]) :
    next w s = word (s.pc.toInt + 4) := by
  rw [next]
  split
  · next hcode => exact absurd (by rw [hcode]; decide) h
  · next hcode => exact absurd (by rw [hcode]; decide) h
  · next hcode => exact absurd (by rw [hcode]; decide) h
  · rfl

theorem memory_eq (s : State) (h : w.bits 6 0 ≠ 0x23) : memory w s = s.memory := by
  rw [memory]
  split
  · next hcode => exact absurd hcode h
  · rfl

theorem csrs_eq (s : State) (h : ¬ isAccess w) : csrs w s = s.csrs := by
  funext r
  rw [csrs, if_neg (fun hr => h hr.1)]

/-- An instruction with a destination register has a value for it. -/
theorem isSome_value? (hopcode : w.bits 6 0 ∈ Word.opcodes)
    (hd : (destination? w).isSome = true) : (value? w s).isSome = true := by
  rw [destination?] at hd
  split at hd
  · cases hd
  · next h =>
    rw [value?]
    split
    · rfl
    · rfl
    · rfl
    · rfl
    · rfl
    · rfl
    · rfl
    · next hsystem =>
      rw [if_pos ⟨hsystem, fun hcode => h (.inr (.inr ⟨hsystem, hcode⟩))⟩]
      rfl
    · simp_all [Word.opcodes]

end Manual

/-! ### Destinations -/

theorem systemControl?_usesRd {w : Word} {c : Control} (h : systemControl? w = some c) :
    c.usesRd = true ↔ Field.rd w ≠ 0 ∧ w.bits 14 12 ≠ 0 := by
  have hcode : w.bits 14 12 = (Field.funct3 w).toNat := w.bits_funct3
  rw [systemControl?] at h
  rcases funct3_cases (Field.funct3 w) with hf | hf | hf | hf | hf | hf | hf | hf
  all_goals rw [hf] at h hcode
  · change (if isExitCode (Format.system.imm w) = true then _ else ite _ _ _) = _ at h
    split at h
    · obtain rfl := Option.some.inj h
      simp [hcode]
    · obtain ⟨-, hc⟩ := Option.ite_none_right_eq_some.mp h
      obtain rfl := Option.some.inj hc
      simp [hcode]
  all_goals cases h <;> simp [hcode]

/-- A register is written unless it is `x0`, or the operation has no result. -/
theorem Format.usesRd_iff {f : Format} {w : Word} {c : Control}
    (hopcode : w.bits 6 0 = f.opcode.toNat) (h : f.control? w = some c) :
    c.usesRd = true ↔ Field.rd w ≠ 0 ∧ ¬(w.bits 6 0 ∈ [0x23, 0x63, 0x0F] ∨
      w.bits 6 0 = 0x73 ∧ w.bits 14 12 = 0) := by
  cases f with
  | register =>
    obtain ⟨op, -, rfl⟩ := Option.map_eq_some_iff.mp h
    simp [hopcode, opcode]
  | immediate =>
    obtain ⟨op, -, rfl⟩ := Option.map_eq_some_iff.mp h
    simp [hopcode, opcode]
  | load =>
    obtain ⟨-, hc⟩ := Option.ite_none_right_eq_some.mp h
    obtain rfl := Option.some.inj hc
    simp [hopcode, opcode]
  | store =>
    obtain ⟨-, hc⟩ := Option.ite_none_right_eq_some.mp h
    obtain rfl := Option.some.inj hc
    simp [hopcode, opcode]
  | branch =>
    obtain ⟨op, -, rfl⟩ := Option.map_eq_some_iff.mp h
    simp [hopcode, opcode]
  | lui =>
    obtain rfl := Option.some.inj h
    simp [hopcode, opcode]
  | auipc =>
    obtain rfl := Option.some.inj h
    simp [hopcode, opcode]
  | jal =>
    obtain rfl := Option.some.inj h
    simp [hopcode, opcode]
  | jalr =>
    obtain ⟨-, hc⟩ := Option.ite_none_right_eq_some.mp h
    obtain rfl := Option.some.inj hc
    simp [hopcode, opcode]
  | system =>
    rw [systemControl?_usesRd h]
    simp [hopcode, opcode]
  | fence =>
    obtain rfl := Option.some.inj h
    simp [hopcode, opcode]

theorem Format.dest_eq {f : Format} {w : Word} {c : Control} (pc : Word) (uuid : Nat)
    (hopcode : w.bits 6 0 = f.opcode.toNat) (h : f.control? w = some c) :
    (Instruction.mk uuid pc w f c).dest = Manual.destination? w := by
  have hrd : Field.rd w ≠ 0 ↔ w.bits 11 7 ≠ 0 := by
    rw [Word.bits_rd, ne_eq, ne_eq, ← BitVec.toNat_inj]
    rfl
  have huses := f.usesRd_iff hopcode h
  rw [hrd, ← not_or] at huses
  rw [Instruction.dest, Manual.destination?, Word.bits_rd, BitVec.ofNat_toNat, BitVec.setWidth_eq]
  by_cases hnone : w.bits 11 7 = 0 ∨ w.bits 6 0 ∈ [0x23, 0x63, 0x0F] ∨
      w.bits 6 0 = 0x73 ∧ w.bits 14 12 = 0
  · rw [if_neg (fun h => huses.mp h hnone)]
    exact (if_pos hnone).symm
  · rw [if_pos (huses.mpr hnone)]
    exact (if_neg hnone).symm

/-! ### Computing, by unit -/

namespace Sequential

theorem rs1_observed (s : Sequential) (w : Word) :
    s.observed.rs1 w = s.registers.read (Field.rs1 w) := by
  rw [Manual.State.rs1, Word.bits_rs1, BitVec.ofNat_toNat, BitVec.setWidth_eq]
  rfl

theorem rs2_observed (s : Sequential) (w : Word) :
    s.observed.rs2 w = s.registers.read (Field.rs2 w) := by
  rw [Manual.State.rs2, Word.bits_rs2, BitVec.ofNat_toNat, BitVec.setWidth_eq]
  rfl

/-- The address of the next instruction in order. -/
theorem word_observed (s : Sequential) :
    Manual.word (s.observed.pc.toInt + 4) = s.pc + instructionSize := by
  rw [Manual.word_add, Manual.word_toInt]
  rfl

end Sequential

/-- What the opcode says about an instruction that does nothing but arithmetic. -/
theorem Word.unitKind_eq_alu {w : Word} (h : w.unitKind = .alu) :
    w.bits 6 0 ∉ [0x03, 0x23] ∧ ¬ Manual.isAccess w ∧ w.bits 6 0 ∉ [0x63, 0x6F, 0x67] := by
  rw [unitKind] at h
  split at h
  · cases h
  · next hmemory =>
    split at h
    · cases h
    · next haccess =>
      split at h
      · cases h
      · next hflow => exact ⟨hmemory, haccess, hflow⟩

/-- An effect that stays in order conforms if its result and what it leaves behind are right. -/
theorem Effect.Conforms.inOrder {w : Word} {s : Sequential} {x : Effect}
    (hflow : w.bits 6 0 ∉ [0x63, 0x6F, 0x67]) (hredirect : x.redirect = none)
    (hresult : ∀ v, Manual.value? w s.observed = some v → x.result = v)
    (hmemory : x.memory.byte? = Manual.memory w s.observed)
    (hcsrs : x.csrs.read = Manual.csrs w s.observed) :
    x.Conforms w s.pc (Manual.outcome w s.observed) where
  result := hresult
  next := by
    rw [hredirect]
    exact ((Manual.next_eq s.observed hflow).trans s.word_observed).symm
  redirect := by
    rw [hredirect]
    exact iff_of_false nofun hflow
  memory := hmemory
  csrs := hcsrs

namespace Instruction

variable {i : Instruction} {s : Sequential} {x : Effect}

theorem obeys_of_effect (hx : s.effect i = .ok x) (hload : i.word.bits 6 0 ≠ 0x03)
    (hstore : i.word.bits 6 0 ≠ 0x23)
    (hconforms : x.Conforms i.word s.pc (Manual.outcome i.word s.observed)) : i.Obeys i.word s := by
  rw [Obeys, hx, Manual.execute, Manual.fault?_eq_none hload hstore]
  exact hconforms

/-- An instruction of the arithmetic unit obeys if its result is right. -/
theorem obeys_of_alu (hclass : i.control.Classified i.word) (hunit : i.unit = .alu)
    (hresult : ∀ v, Manual.value? i.word s.observed = some v →
      i.arithmetic (s.operand i.control.usesRs1 i.rs1) (s.operand i.control.usesRs2 i.rs2) = v) :
    i.Obeys i.word s := by
  obtain ⟨hmemory, haccess, hflow⟩ := Word.unitKind_eq_alu (hclass.unit_eq.symm.trans hunit)
  simp only [List.mem_cons, List.not_mem_nil, or_false, not_or] at hmemory
  have hx : s.effect i = .ok ⟨i.arithmetic (s.operand i.control.usesRs1 i.rs1)
      (s.operand i.control.usesRs2 i.rs2), none, s.memory, s.csrs⟩ := by
    rw [Sequential.effect, compute, hunit]
  exact obeys_of_effect hx hmemory.1 hmemory.2 (.inOrder hflow rfl hresult
    (Manual.memory_eq s.observed hmemory.2).symm (Manual.csrs_eq s.observed haccess).symm)

/-- An instruction of the branch unit obeys if what it links and where it goes are right. -/
theorem obeys_of_branch (hclass : i.control.Classified i.word) (hunit : i.unit = .branch)
    (hlink : ∀ v, Manual.value? i.word s.observed = some v → i.link = v)
    (htarget : i.target (s.operand i.control.usesRs1 i.rs1) (s.operand i.control.usesRs2 i.rs2) =
      Manual.next i.word s.observed) : i.Obeys i.word s := by
  have hflow : i.word.bits 6 0 ∈ [0x63, 0x6F, 0x67] :=
    hclass.isControlFlow_iff.mp (isControlFlow_of_unit hunit)
  have hother : ∀ n ∈ [0x63, 0x6F, 0x67], n ≠ 0x03 ∧ n ≠ 0x23 ∧ n ≠ 0x73 := by decide
  obtain ⟨hload, hstore, hsystem⟩ := hother _ hflow
  have hx : s.effect i = .ok ⟨i.link, some (i.target (s.operand i.control.usesRs1 i.rs1)
      (s.operand i.control.usesRs2 i.rs2)), s.memory, s.csrs⟩ := by
    rw [Sequential.effect, compute, hunit]
  refine obeys_of_effect hx hload hstore ⟨hlink, htarget, ?_, ?_, ?_⟩
  · exact iff_of_true rfl hflow
  · exact (Manual.memory_eq s.observed hstore).symm
  · exact (Manual.csrs_eq s.observed fun haccess => hsystem haccess.1).symm

/-- A load makes something of what it reads. -/
theorem compute_load (hunit : i.unit = .memory) (hstore : i.control.isStore = false) (a b : Word)
    (m : Memory) (f : CsrFile) :
    i.compute a b m f = (m.read (a + i.imm) i.width).map fun answer =>
      ⟨extendLoaded i.funct3 answer, none, m, f⟩ := by
  rw [compute_of_unit_memory hunit, access, hstore, if_neg Bool.false_ne_true, Memory.perform]
  cases m.read (a + i.imm) i.width with
  | error e => rfl
  | ok answer =>
    simp only [Except.map, loaded, hstore]
    rfl

/-- A store writes its second operand. -/
theorem compute_store (hunit : i.unit = .memory) (hstore : i.control.isStore = true) (a b : Word)
    (m : Memory) (f : CsrFile) :
    i.compute a b m f = (m.write (a + i.imm) i.width b).map fun after =>
      ⟨0, none, after, f⟩ := by
  rw [compute_of_unit_memory hunit, access, if_pos hstore, Memory.perform]
  cases m.write (a + i.imm) i.width b with
  | error e => rfl
  | ok after =>
    simp only [Except.map, loaded, hstore]
    rfl

/-- A load obeys if it has the right immediate and adds it to a register. -/
theorem obeys_of_load (hclass : i.control.Classified i.word) (hopcode : i.word.bits 6 0 = 0x03)
    (huses : i.control.usesRs1 = true)
    (himm : i.imm = Manual.word (Manual.immediateI i.word)) : i.Obeys i.word s := by
  have hunit : i.unit = .memory := by
    rw [unit, hclass.unit_eq, Word.unitKind, hopcode]
    rfl
  have hstore : i.control.isStore = false := by
    rw [← Bool.not_eq_true, hclass.isStore_iff, hopcode]
    decide
  have hflow : i.word.bits 6 0 ∉ [0x63, 0x6F, 0x67] := by
    rw [hopcode]
    decide
  have haddress : s.operand i.control.usesRs1 i.rs1 + i.imm =
      Manual.word ((s.observed.rs1 i.word).toInt + Manual.immediateI i.word) := by
    rw [huses, himm, Manual.word_add, Manual.word_toInt, s.rs1_observed]
    rfl
  have hvalue : Manual.value? i.word s.observed = some (Manual.loaded (i.word.bits 14 12)
      s.observed.memory (s.operand i.control.usesRs1 i.rs1 + i.imm).toNat) := by
    rw [Manual.value?, hopcode, haddress]
    rfl
  have hfault : Manual.fault? i.word s.observed = Manual.accessFault? s.memory.byte?
      (s.operand i.control.usesRs1 i.rs1 + i.imm) i.width.bytes := by
    rw [Manual.fault?, Manual.address?, hopcode, haddress, Manual.width_eq]
    rfl
  rw [Obeys, Sequential.effect, compute_load hunit hstore, Memory.read_eq, Manual.execute, hfault]
  cases Manual.accessFault? s.memory.byte? (s.operand i.control.usesRs1 i.rs1 + i.imm)
      i.width.bytes with
  | some e => rfl
  | none =>
    refine Effect.Conforms.inOrder hflow rfl (fun v hv => ?_) ?_ ?_
    · obtain rfl := Option.some.inj (hvalue.symm.trans hv)
      exact Manual.extendLoaded_number i.funct3 s.memory.byte? _
    · exact (Manual.memory_eq s.observed (by rw [hopcode]; decide)).symm
    · exact (Manual.csrs_eq s.observed fun h => absurd (hopcode.symm.trans h.1) (by decide)).symm

/-- A store obeys if it has the right immediate, adds it to a register and reads another one. -/
theorem obeys_of_store (hclass : i.control.Classified i.word) (hopcode : i.word.bits 6 0 = 0x23)
    (huses1 : i.control.usesRs1 = true) (huses2 : i.control.usesRs2 = true)
    (himm : i.imm = Manual.word (Manual.immediateS i.word)) : i.Obeys i.word s := by
  have hunit : i.unit = .memory := by
    rw [unit, hclass.unit_eq, Word.unitKind, hopcode]
    rfl
  have hflow : i.word.bits 6 0 ∉ [0x63, 0x6F, 0x67] := by
    rw [hopcode]
    decide
  have haddress : s.operand i.control.usesRs1 i.rs1 + i.imm =
      Manual.word ((s.observed.rs1 i.word).toInt + Manual.immediateS i.word) := by
    rw [huses1, himm, Manual.word_add, Manual.word_toInt, s.rs1_observed]
    rfl
  have hstored : s.operand i.control.usesRs2 i.rs2 = s.observed.rs2 i.word := by
    rw [huses2, s.rs2_observed]
    rfl
  have hmemory : Manual.memory i.word s.observed = Manual.stored s.memory.byte?
      (s.operand i.control.usesRs1 i.rs1 + i.imm).toNat i.width.bytes
      (s.operand i.control.usesRs2 i.rs2) := by
    rw [Manual.memory, hopcode, haddress, hstored, Manual.width_eq]
    rfl
  have hfault : Manual.fault? i.word s.observed = Manual.accessFault? s.memory.byte?
      (s.operand i.control.usesRs1 i.rs1 + i.imm) i.width.bytes := by
    rw [Manual.fault?, Manual.address?, hopcode, haddress, Manual.width_eq]
    rfl
  rw [Obeys, Sequential.effect, compute_store hunit (hclass.isStore_iff.mpr hopcode),
    Memory.write_eq, Manual.execute, hfault]
  cases hnone : Manual.accessFault? s.memory.byte? (s.operand i.control.usesRs1 i.rs1 + i.imm)
      i.width.bytes with
  | some e => rfl
  | none =>
    refine Effect.Conforms.inOrder hflow rfl (fun v hv => ?_) ?_ ?_
    · rw [Manual.value?, hopcode] at hv
      cases hv
    · exact (Memory.byte?_poke _ (Memory.isSome_byte?_of_accessFault? hnone)).trans hmemory.symm
    · exact (Manual.csrs_eq s.observed fun h => absurd (hopcode.symm.trans h.1) (by decide)).symm

/-- An access to a control and status register obeys if it replaces the register by the right
value. -/
theorem obeys_of_system (hclass : i.control.Classified i.word) (haccess : Manual.isAccess i.word)
    {fn : CsrFunction} (hfn : i.Accesses fn)
    (hreplacement : Manual.replacement i.word s.observed =
      fn.apply (s.csrs.read i.csr) (i.csrSource (s.operand i.control.usesRs1 i.rs1))) :
    i.Obeys i.word s := by
  have hopcode := haccess.1
  have hunit : i.unit = .system := by
    rw [unit, hclass.unit_eq, Word.unitKind, hopcode, if_neg (by decide), if_pos ⟨rfl, haccess.2⟩]
  have hflow : i.word.bits 6 0 ∉ [0x63, 0x6F, 0x67] := by
    rw [hopcode]
    decide
  have hcsr : Manual.csr i.word = i.csr := Manual.csr_eq i.word
  have hx : s.effect i = .ok ⟨(i.accessCsr (s.operand i.control.usesRs1 i.rs1) s.csrs).1, none,
      s.memory, (i.accessCsr (s.operand i.control.usesRs1 i.rs1) s.csrs).2⟩ := by
    rw [Sequential.effect, compute, hunit]
  refine obeys_of_effect hx (by rw [hopcode]; decide) (by rw [hopcode]; decide)
    (.inOrder hflow rfl (fun v hv => ?_) ?_ ?_)
  · rw [Manual.value?, hopcode] at hv
    have hread := Option.some.inj ((if_pos haccess).symm.trans hv)
    rw [hcsr] at hread
    rw [hfn]
    exact hread
  · exact (Manual.memory_eq s.observed (by rw [hopcode]; decide)).symm
  · funext r
    change (i.accessCsr _ s.csrs).2.read r = Manual.csrs i.word s.observed r
    rw [hfn.read, Manual.csrs, hreplacement, hcsr]
    by_cases hr : r = i.csr ∧ r ∉ Manual.fixed
    · rw [if_pos hr, if_pos ⟨haccess, hr⟩]
    · rw [if_neg hr, if_neg (fun h => hr h.2)]
      rfl

end Instruction

/-! ### Computing, by format -/

section Formats

variable {w : Word} {c : Control} {s : Sequential} {uuid : Nat}

theorem obeys_register (hclass : c.Classified w) (hopcode : w.bits 6 0 = 0x33)
    (h : Format.register.control? w = some c) :
    (Instruction.mk uuid s.pc w .register c).Obeys w s := by
  obtain ⟨op, hop, rfl⟩ := Option.map_eq_some_iff.mp h
  refine Instruction.obeys_of_alu hclass rfl fun v hv => ?_
  rw [Manual.value?, hopcode, s.rs1_observed, s.rs2_observed] at hv
  obtain rfl := Option.some.inj hv
  exact Manual.eval_ofRegister? _ _ hop

theorem obeys_immediate (hclass : c.Classified w) (hopcode : w.bits 6 0 = 0x13)
    (h : Format.immediate.control? w = some c) :
    (Instruction.mk uuid s.pc w .immediate c).Obeys w s := by
  obtain ⟨op, hop, rfl⟩ := Option.map_eq_some_iff.mp h
  refine Instruction.obeys_of_alu hclass rfl fun v hv => ?_
  rw [Manual.value?, hopcode, s.rs1_observed, ← Manual.imm_immediate] at hv
  obtain rfl := Option.some.inj hv
  exact Manual.eval_ofImmediate? _ _ hop

theorem obeys_lui (hclass : c.Classified w) (hopcode : w.bits 6 0 = 0x37)
    (h : Format.lui.control? w = some c) : (Instruction.mk uuid s.pc w .lui c).Obeys w s := by
  obtain rfl := Option.some.inj h
  refine Instruction.obeys_of_alu hclass rfl fun v hv => ?_
  rw [Manual.value?, hopcode, ← Manual.imm_lui] at hv
  obtain rfl := Option.some.inj hv
  -- the immediate is added to a source that is not used
  exact BitVec.zero_add _

theorem obeys_auipc (hclass : c.Classified w) (hopcode : w.bits 6 0 = 0x17)
    (h : Format.auipc.control? w = some c) : (Instruction.mk uuid s.pc w .auipc c).Obeys w s := by
  obtain rfl := Option.some.inj h
  refine Instruction.obeys_of_alu hclass rfl fun v hv => ?_
  rw [Manual.value?, hopcode, Manual.word_add, Manual.word_toInt, ← Manual.imm_lui] at hv
  obtain rfl := Option.some.inj hv
  rfl

theorem obeys_fence (hclass : c.Classified w) (hopcode : w.bits 6 0 = 0x0F)
    (h : Format.fence.control? w = some c) : (Instruction.mk uuid s.pc w .fence c).Obeys w s := by
  obtain rfl := Option.some.inj h
  refine Instruction.obeys_of_alu hclass rfl fun v hv => ?_
  rw [Manual.value?, hopcode] at hv
  cases hv

theorem obeys_branch (hclass : c.Classified w) (hopcode : w.bits 6 0 = 0x63)
    (h : Format.branch.control? w = some c) :
    (Instruction.mk uuid s.pc w .branch c).Obeys w s := by
  have hunit : c.unit = .branch := by
    rw [hclass.unit_eq, Word.unitKind, hopcode]
    rfl
  obtain ⟨op, hop, rfl⟩ := Option.map_eq_some_iff.mp h
  have hjump : op ≠ .jalr := by
    rintro rfl
    rcases funct3_cases (Field.funct3 w) with hf | hf | hf | hf | hf | hf | hf | hf
    all_goals
      rw [hf] at hop
      cases hop
  have hnext : Manual.next w s.observed =
      if op.taken (s.registers.read (Field.rs1 w)) (s.registers.read (Field.rs2 w)) = true then
        s.pc + Format.branch.imm w
      else s.pc + instructionSize := by
    rw [Manual.next, hopcode, s.rs1_observed, s.rs2_observed, Word.bits_funct3,
      ← Manual.taken_eq hop, Manual.imm_branch]
    simp only [Manual.word_add, Manual.word_toInt]
    rfl
  refine Instruction.obeys_of_branch hclass hunit ?_ ((if_neg hjump).trans hnext.symm)
  intro v hv
  rw [Manual.value?, hopcode] at hv
  cases hv

theorem obeys_jal (hclass : c.Classified w) (hopcode : w.bits 6 0 = 0x6F)
    (h : Format.jal.control? w = some c) : (Instruction.mk uuid s.pc w .jal c).Obeys w s := by
  obtain rfl := Option.some.inj h
  have hnext : Manual.next w s.observed = s.pc + Format.jal.imm w := by
    rw [Manual.next, hopcode, Manual.imm_jal]
    simp only [Manual.word_add, Manual.word_toInt]
    rfl
  refine Instruction.obeys_of_branch hclass rfl ?_ hnext.symm
  intro v hv
  rw [Manual.value?, hopcode] at hv
  exact s.word_observed.symm.trans (Option.some.inj hv)

theorem obeys_jalr (hclass : c.Classified w) (hopcode : w.bits 6 0 = 0x67)
    (h : Format.jalr.control? w = some c) : (Instruction.mk uuid s.pc w .jalr c).Obeys w s := by
  obtain ⟨-, hc⟩ := Option.ite_none_right_eq_some.mp h
  obtain rfl := Option.some.inj hc
  have hnext : Manual.next w s.observed =
      (s.registers.read (Field.rs1 w) + Format.jalr.imm w) &&& ~~~1 := by
    rw [Manual.next, hopcode, s.rs1_observed, show Format.jalr.imm w = _ from Manual.imm_load w]
    simp only [← Manual.clearLowest_word, Manual.word_add, Manual.word_toInt]
  refine Instruction.obeys_of_branch hclass rfl ?_ hnext.symm
  intro v hv
  rw [Manual.value?, hopcode] at hv
  exact s.word_observed.symm.trans (Option.some.inj hv)

theorem obeys_load (hclass : c.Classified w) (hopcode : w.bits 6 0 = 0x03)
    (h : Format.load.control? w = some c) : (Instruction.mk uuid s.pc w .load c).Obeys w s := by
  obtain ⟨-, hc⟩ := Option.ite_none_right_eq_some.mp h
  obtain rfl := Option.some.inj hc
  exact Instruction.obeys_of_load hclass hopcode rfl (Manual.imm_load w)

theorem obeys_store (hclass : c.Classified w) (hopcode : w.bits 6 0 = 0x23)
    (h : Format.store.control? w = some c) : (Instruction.mk uuid s.pc w .store c).Obeys w s := by
  obtain ⟨-, hc⟩ := Option.ite_none_right_eq_some.mp h
  obtain rfl := Option.some.inj hc
  exact Instruction.obeys_of_store hclass hopcode rfl rfl (Manual.imm_store w)

theorem source_register (h : w.bits 14 12 < 4) :
    Manual.source w s.observed = s.registers.read (Field.rs1 w) := by
  rw [Manual.source, if_pos h, s.rs1_observed]

theorem source_field (h : ¬ w.bits 14 12 < 4) :
    Manual.source w s.observed = (Field.rs1 w).setWidth 32 := by
  rw [Manual.source, if_neg h, Manual.word_bits]
  rfl

/-- The functions of system instructions, and what they make of the register that is accessed. -/
theorem systemControl?_accesses (s : Sequential) (uuid : Nat) (h : systemControl? w = some c)
    (hcode : w.bits 14 12 ≠ 0) :
    ∃ fn : CsrFunction, (Instruction.mk uuid s.pc w .system c).Accesses fn ∧
      Manual.replacement w s.observed = fn.apply (s.csrs.read (Field.csr w))
        ((Instruction.mk uuid s.pc w .system c).csrSource (s.operand c.usesRs1 (Field.rs1 w))) := by
  have hbits : w.bits 14 12 = (Field.funct3 w).toNat := w.bits_funct3
  have hswap : (Instruction.mk uuid s.pc w .system c).isSwap =
      (Field.funct3 w == 0b001 || Field.funct3 w == 0b101) := rfl
  have hregister : w.bits 14 12 < 4 → _ := source_register (s := s)
  have hfield : ¬ w.bits 14 12 < 4 → _ := source_field (s := s)
  rw [systemControl?] at h
  rw [Manual.replacement, Manual.csr_eq]
  rcases funct3_cases (Field.funct3 w) with hf | hf | hf | hf | hf | hf | hf | hf
  all_goals rw [hf] at h hswap hbits
  · exact absurd hbits hcode
  · obtain rfl := Option.some.inj h
    refine ⟨.swap, Instruction.accesses_swap hswap rfl, ?_⟩
    rw [hbits, hregister (by rw [hbits]; decide)]
    rfl
  · obtain rfl := Option.some.inj h
    refine ⟨.set, Instruction.accesses_set hswap rfl rfl, ?_⟩
    rw [hbits, hregister (by rw [hbits]; decide)]
    rfl
  · obtain rfl := Option.some.inj h
    refine ⟨.clear, Instruction.accesses_clear hswap rfl rfl, ?_⟩
    rw [hbits, hregister (by rw [hbits]; decide)]
    rfl
  · cases h
  · obtain rfl := Option.some.inj h
    refine ⟨.swap, Instruction.accesses_swap hswap rfl, ?_⟩
    rw [hbits, hfield (by rw [hbits]; decide)]
    rfl
  · obtain rfl := Option.some.inj h
    refine ⟨.set, Instruction.accesses_set hswap rfl rfl, ?_⟩
    rw [hbits, hfield (by rw [hbits]; decide)]
    rfl
  · obtain rfl := Option.some.inj h
    refine ⟨.clear, Instruction.accesses_clear hswap rfl rfl, ?_⟩
    rw [hbits, hfield (by rw [hbits]; decide)]
    rfl

theorem obeys_system (hclass : c.Classified w) (hopcode : w.bits 6 0 = 0x73)
    (h : Format.system.control? w = some c) :
    (Instruction.mk uuid s.pc w .system c).Obeys w s := by
  by_cases hcode : w.bits 14 12 = 0
  · have haccess : ¬ Manual.isAccess w := fun haccess => haccess.2 hcode
    have hunit : c.unit = .alu := by
      rw [hclass.unit_eq, Word.unitKind, hopcode, hcode]
      rfl
    refine Instruction.obeys_of_alu hclass hunit fun v hv => ?_
    rw [Manual.value?, hopcode] at hv
    cases (if_neg haccess).symm.trans hv
  · obtain ⟨fn, hfn, hreplacement⟩ := systemControl?_accesses s uuid h hcode
    exact Instruction.obeys_of_system hclass ⟨hopcode, hcode⟩ hfn hreplacement

/-- An instruction of any format obeys. -/
theorem Format.obeys {f : Format} (hopcode : w.bits 6 0 = f.opcode.toNat)
    (h : f.control? w = some c) : (Instruction.mk uuid s.pc w f c).Obeys w s := by
  have hclass := Format.control?_classified hopcode h
  cases f with
  | register => exact obeys_register hclass hopcode h
  | load => exact obeys_load hclass hopcode h
  | immediate => exact obeys_immediate hclass hopcode h
  | store => exact obeys_store hclass hopcode h
  | branch => exact obeys_branch hclass hopcode h
  | lui => exact obeys_lui hclass hopcode h
  | auipc => exact obeys_auipc hclass hopcode h
  | jal => exact obeys_jal hclass hopcode h
  | jalr => exact obeys_jalr hclass hopcode h
  | system => exact obeys_system hclass hopcode h
  | fence => exact obeys_fence hclass hopcode h

end Formats

/-- **Everything that the decoder accepts does what the manual says.** An instruction has the
destination register that the manual gives it, and if it has one, then also a value for it.
Computing it in any state, with the values of the registers that it reads and zero in the place of
others, answers with what the manual prescribes: the value, the address of the next instruction, the
memory and the control and status registers, or the reason why it fails. -/
theorem compute_conforms {w : Word} {uuid : Nat} {i : Instruction} (s : Sequential)
    (h : decode w s.pc uuid = .ok i) :
    i.dest = Manual.destination? w ∧
      (i.dest.isSome = true → (Manual.value? w s.observed).isSome = true) ∧ i.Obeys w s := by
  rw [decode_eq] at h
  cases hf : Format.ofOpcode? (w.bits 6 0) with
  | none =>
    rw [hf] at h
    cases h
  | some f =>
    have hopcode : w.bits 6 0 = f.opcode.toNat := Format.ofOpcode?_eq_some_iff.mp hf
    rw [hf] at h
    dsimp only at h
    cases hc : f.control? w with
    | none =>
      rw [hc] at h
      cases h
    | some c =>
      rw [hc] at h
      obtain rfl := Except.ok.inj h
      have hdest := f.dest_eq s.pc uuid hopcode hc
      refine ⟨hdest, fun hd => ?_, f.obeys hopcode hc⟩
      exact Manual.isSome_value? (hopcode ▸ f.opcode_mem_opcodes) (hdest ▸ hd)

/-- A machine that is about to jump, to an odd address. -/
def jumpingToOdd : Sequential := { memory := .empty 0 0, pc := 8 }

theorem compute_conforms_jalr : ∃ i, decode 0x005000E7 8 0 = .ok i ∧ i.dest = some 1 ∧
    Manual.value? 0x005000E7 jumpingToOdd.observed = some 12 ∧
    Manual.next 0x005000E7 jumpingToOdd.observed = 4 ∧ i.Obeys 0x005000E7 jumpingToOdd := by
  have hi : decode 0x005000E7 jumpingToOdd.pc 0 = .ok _ := rfl
  obtain ⟨hdest, -, hobeys⟩ := compute_conforms jumpingToOdd hi
  exact ⟨_, hi, hdest.trans (by decide), by decide, by decide, hobeys⟩

end OutOfOrder
