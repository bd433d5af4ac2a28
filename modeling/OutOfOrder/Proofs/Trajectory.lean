import OutOfOrder.Proofs.Decoding
import OutOfOrder.Proofs.Pool
import OutOfOrder.Sequential.Basic

/-!
# The states of the sequential machine

A list of instructions takes the sequential machine through a sequence of states, one before each
instruction. What the core does out of order is compared with these states, and for that it is
enough to know which instructions a part of a state depends on: a register on those that write it,
memory on those of the memory unit, and the control and status registers on those of the system
unit. Whether an instruction can be moved past another one is never asked.

An instruction that fails is skipped. The machine itself would stop there; but instructions after it
may already have started, and their operands still have to mean something.

## Main definitions

* `Sequential.after` — the state after the first instructions of a list
* `Sequential.Agrees` — the state agrees with a memory and registers on what a unit works with
* `Instruction.touchesCounter` — the result depends on the cycle

## Main results

* `Instruction.compute_cases`, `exists_compute`, `compute_eq_error_iff`, `compute_frame`,
  `compute_congr`, `compute_redirect` — what the units can do, and what they read and write
* `Sequential.read_after`, `Sequential.agrees_after_iff` — what does not change on the way
* `Sequential.effect_of_compute` — computing with what the state says gives what the state says
* `Sequential.executeAll_take` — without failures, this is execution
-/

namespace OutOfOrder

/-! ### What an instruction depends on -/

theorem CsrFile.read_of_not_isCounter (f : CsrFile) {a : Csr} (h : a.isCounter = false) :
    f.read a = f.cells.get a.toNat := by
  simp only [Csr.isCounter, Bool.or_eq_false_iff, beq_eq_false_iff_ne] at h
  simp [read, h]

theorem CsrFile.cells_write {f g : CsrFile} (h : f.cells = g.cells) (a : Csr) (v : Word) :
    (f.write a v).cells = (g.write a v).cells := by
  rw [write, write]
  split
  · exact h
  · rw [h]

theorem CsrFile.counters_write (f : CsrFile) (a : Csr) (v : Word) :
    (f.write a v).cycle = f.cycle ∧ (f.write a v).instret = f.instret := by
  rw [write]
  split <;> exact ⟨rfl, rfl⟩

namespace Instruction

variable {i : Instruction} {a b : Word} {m n : Memory} {f g : CsrFile} {x : Effect}

/-- Does the instruction access a performance counter? Its result then depends on the cycle in which
it starts. -/
def touchesCounter (i : Instruction) : Bool := i.control.isCsr && i.csr.isCounter

theorem isCsr_of_unit (h : i.unit = .system) : i.control.isCsr = true := by
  rw [unit, Control.unit] at h
  split at h
  · simp at h
  · split at h
    · next hcsr => exact hcsr
    · split at h <;> cases h

theorem isControlFlow_of_unit (h : i.unit = .branch) : i.isControlFlow = true := by
  rw [unit, Control.unit] at h
  split at h
  · simp at h
  · split at h
    · simp at h
    · split at h
      · next hflow => exact hflow
      · simp at h

/-- What an instruction does, by the unit that executes it. -/
theorem compute_cases (h : i.compute a b m f = .ok x) :
    (i.unit = .alu ∧ x = ⟨i.arithmetic a b, none, m, f⟩) ∨
      (i.unit = .branch ∧ x = ⟨i.link, some (i.target a b), m, f⟩) ∨
      (i.unit = .memory ∧ ∃ value after, i.loadStore a b m = .ok (value, after) ∧
        x = ⟨value, none, after, f⟩) ∨
      (i.unit = .system ∧ x = ⟨(i.accessCsr a f).1, none, m, (i.accessCsr a f).2⟩) := by
  rw [compute] at h
  cases hunit : i.unit with
  | alu =>
    rw [hunit] at h
    exact .inl ⟨rfl, (Except.ok.inj h).symm⟩
  | branch =>
    rw [hunit] at h
    exact .inr (.inl ⟨rfl, (Except.ok.inj h).symm⟩)
  | memory =>
    rw [hunit] at h
    dsimp only at h
    cases hls : i.loadStore a b m with
    | error e => rw [hls] at h; cases h
    | ok r =>
      rw [hls] at h
      exact .inr (.inr (.inl ⟨rfl, r.1, r.2, rfl, (Except.ok.inj h).symm⟩))
  | system =>
    rw [hunit] at h
    exact .inr (.inr (.inr ⟨rfl, (Except.ok.inj h).symm⟩))

/-- Only loads and stores can fail. -/
theorem exists_compute (h : i.unit ≠ .memory) : ∃ x, i.compute a b m f = .ok x := by
  rw [compute]
  cases hunit : i.unit with
  | memory => exact absurd hunit h
  | _ => exact ⟨_, rfl⟩

/-- Only the system unit accesses the counters. -/
theorem Decoded.touchesCounter_of_unit (hi : i.Decoded) (h : i.unit ≠ .system) :
    i.touchesCounter = false := by
  cases hcsr : i.control.isCsr with
  | false => rw [touchesCounter, hcsr, Bool.false_and]
  | true => exact absurd (hi.unit_of_isCsr hcsr) h

/-- What a load or store does is what memory does with its request. -/
theorem compute_of_unit_memory (h : i.unit = .memory) :
    i.compute a b m f = (m.perform (i.access a b)).map fun (answer, after) =>
      { result := i.loaded answer, redirect := none, memory := after, csrs := f } := by
  rw [compute, h]
  dsimp only
  rw [loadStore]
  cases m.perform (i.access a b) <;> rfl

/-- What fails is a load or store whose request is refused. -/
theorem compute_eq_error_iff {fault : MemoryError} :
    i.compute a b m f = .error fault ↔
      i.unit = .memory ∧ m.perform (i.access a b) = .error fault := by
  constructor
  · intro h
    have hunit : i.unit = .memory := by
      by_contra hne
      obtain ⟨x, hx⟩ := exists_compute (a := a) (b := b) (m := m) (f := f) hne
      rw [hx] at h
      cases h
    rw [compute_of_unit_memory hunit] at h
    cases hperform : m.perform (i.access a b) with
    | error e =>
      rw [hperform] at h
      exact ⟨hunit, congrArg _ (Except.error.inj h)⟩
    | ok r =>
      rw [hperform] at h
      cases h
  · rintro ⟨hunit, hperform⟩
    rw [compute_of_unit_memory hunit, hperform]
    rfl

/-- Only the memory unit writes memory, and only the system unit writes control and status
registers. -/
theorem compute_frame (h : i.compute a b m f = .ok x) :
    (i.unit ≠ .memory → x.memory = m) ∧ (i.unit ≠ .system → x.csrs = f) := by
  rcases compute_cases h with ⟨-, rfl⟩ | ⟨-, rfl⟩ | ⟨hunit, _, _, -, rfl⟩ | ⟨hunit, rfl⟩
  · exact ⟨fun _ => rfl, fun _ => rfl⟩
  · exact ⟨fun _ => rfl, fun _ => rfl⟩
  · exact ⟨fun hne => absurd hunit hne, fun _ => rfl⟩
  · exact ⟨fun _ => rfl, fun hne => absurd hunit hne⟩

/-- No instruction moves the counters. -/
theorem compute_counters (h : i.compute a b m f = .ok x) :
    x.csrs.cycle = f.cycle ∧ x.csrs.instret = f.instret := by
  rcases compute_cases h with ⟨-, rfl⟩ | ⟨-, rfl⟩ | ⟨-, _, _, -, rfl⟩ | ⟨-, rfl⟩
  · exact ⟨rfl, rfl⟩
  · exact ⟨rfl, rfl⟩
  · exact ⟨rfl, rfl⟩
  · rw [accessCsr]
    dsimp only
    split
    · exact f.counters_write _ _
    · split
      · exact ⟨rfl, rfl⟩
      · exact f.counters_write _ _

/-- Instructions of control flow say where control goes, and no others. -/
theorem compute_redirect (hi : i.Decoded) (h : i.compute a b m f = .ok x) :
    x.redirect.isSome = i.isControlFlow := by
  have hflow : i.unit ≠ .branch → false = i.isControlFlow := by
    intro hunit
    cases hflow : i.isControlFlow with
    | false => rfl
    | true => exact absurd (hi.unit_of_isControlFlow hflow) hunit
  rcases compute_cases h with ⟨hunit, rfl⟩ | ⟨hunit, rfl⟩ | ⟨hunit, _, _, -, rfl⟩ | ⟨hunit, rfl⟩
  · exact hflow (by rw [hunit]; nofun)
  · exact (isControlFlow_of_unit hunit).symm
  · exact hflow (by rw [hunit]; nofun)
  · exact hflow (by rw [hunit]; nofun)

/-- Apart from the counters, only the cells of the control and status registers count. -/
theorem accessCsr_congr (hcells : g.cells = f.cells) (hcounter : i.csr.isCounter = false) :
    (i.accessCsr a g).1 = (i.accessCsr a f).1 ∧
      (i.accessCsr a g).2.cells = (i.accessCsr a f).2.cells := by
  have hread : g.read i.csr = f.read i.csr := by
    rw [g.read_of_not_isCounter hcounter, f.read_of_not_isCounter hcounter, hcells]
  rw [accessCsr, accessCsr, hread]
  split
  · exact ⟨rfl, CsrFile.cells_write hcells _ _⟩
  · split
    · exact ⟨rfl, hcells⟩
    · exact ⟨rfl, CsrFile.cells_write hcells _ _⟩

/-- Only the memory unit reads memory, and only the system unit reads control and status
registers. -/
theorem compute_congr (h : i.compute a b m f = .ok x) (hm : i.unit = .memory → n = m)
    (hf : i.unit = .system → g.cells = f.cells ∧ i.touchesCounter = false) :
    ∃ y, i.compute a b n g = .ok y ∧ y.result = x.result ∧ y.redirect = x.redirect ∧
      (i.unit = .memory → y.memory = x.memory) ∧
      (i.unit = .system → y.csrs.cells = x.csrs.cells) := by
  rcases compute_cases h with ⟨hunit, rfl⟩ | ⟨hunit, rfl⟩ | ⟨hunit, value, after, hls, rfl⟩ |
    ⟨hunit, rfl⟩
  · refine ⟨⟨i.arithmetic a b, none, n, g⟩, by rw [compute, hunit], rfl, rfl, ?_⟩
    rw [hunit]
    exact ⟨nofun, nofun⟩
  · refine ⟨⟨i.link, some (i.target a b), n, g⟩, by rw [compute, hunit], rfl, rfl, ?_⟩
    rw [hunit]
    exact ⟨nofun, nofun⟩
  · have hy : i.compute a b n g = .ok ⟨value, none, after, g⟩ := by
      rw [compute, hunit, hm hunit]
      dsimp only
      rw [hls]
      rfl
    refine ⟨_, hy, rfl, rfl, ?_⟩
    rw [hunit]
    exact ⟨fun _ => rfl, nofun⟩
  · obtain ⟨hcells, hcounter⟩ := hf hunit
    rw [touchesCounter, isCsr_of_unit hunit, Bool.true_and] at hcounter
    obtain ⟨hold, hafter⟩ := accessCsr_congr (a := a) hcells hcounter
    refine ⟨⟨(i.accessCsr a g).1, none, n, (i.accessCsr a g).2⟩, by rw [compute, hunit], hold,
      rfl, ?_⟩
    rw [hunit]
    exact ⟨nofun, fun _ => hafter⟩

end Instruction

namespace Sequential

variable {s : Sequential} {i : Instruction} {is : List Instruction} {k m n : Nat} {r : Reg}
  {u : UnitKind} {mem : Memory} {f : CsrFile} {x : Effect}

/-! ### The states -/

/-- The state after an instruction, which has no effect if it fails. -/
def advance (s : Sequential) (i : Instruction) : Sequential :=
  match s.effect i with
  | .ok e => s.apply i e
  | .error _ => { s with pc := i.fallThrough }

/-- The state after the first `n` instructions of a list. -/
def after (s : Sequential) (is : List Instruction) (n : Nat) : Sequential :=
  (is.take n).foldl advance s

theorem advance_of_ok (h : s.effect i = .ok x) : s.advance i = s.apply i x := by
  rw [advance, h]

theorem after_succ (h : is[n]? = some i) : s.after is (n + 1) = (s.after is n).advance i := by
  rw [after, List.take_add_one, h, List.foldl_append]
  rfl

theorem after_succ_of_none (h : is[n]? = none) : s.after is (n + 1) = s.after is n := by
  rw [after, List.take_add_one, h]
  exact congrArg _ (List.append_nil _)

/-- What every instruction from number `m` on keeps is still there after number `n`. -/
theorem after_keeps {P : Sequential → Prop} (hmn : m ≤ n)
    (hstep : ∀ l i t, m ≤ l → l < n → is[l]? = some i → P t → P (t.advance i))
    (h : P (s.after is m)) : P (s.after is n) := by
  induction hmn with
  | refl => exact h
  | @step n hmn ih =>
    have hn := ih fun l i t hml hln => hstep l i t hml (Nat.lt_succ_of_lt hln)
    cases hi : is[n]? with
    | none => rwa [after_succ_of_none hi]
    | some i =>
      rw [after_succ hi]
      exact hstep n i _ hmn (Nat.lt_succ_self n) hi hn

/-- If none of the first `n` instructions fails, executing them leads to the state after them. -/
theorem executeAll_take
    (h : ∀ l i, l < n → is[l]? = some i → ∃ x, (s.after is l).effect i = .ok x) :
    s.executeAll (is.take n) = .ok (s.after is n) := by
  induction n with
  | zero => rfl
  | succ n ih =>
    have hn := ih fun l i hl => h l i (Nat.lt_succ_of_lt hl)
    cases hi : is[n]? with
    | none =>
      rw [List.take_add_one, hi, after_succ_of_none hi]
      simpa using hn
    | some i =>
      obtain ⟨x, hx⟩ := h n i (Nat.lt_succ_self n) hi
      have hexec : (s.after is n).execute i = .ok ((s.after is n).apply i x) := by
        rw [execute, hx]
        rfl
      rw [executeAll] at hn ⊢
      rw [List.take_add_one, hi, List.foldlM_append, hn, after_succ hi, advance_of_ok hx]
      simp [pure, Except.pure, bind, Except.bind, hexec]

/-! ### The program counter -/

/-- Control goes on to the next instruction, unless this is one of control flow. -/
theorem pc_advance (hi : i.Decoded) (h : i.isControlFlow = false) :
    (s.advance i).pc = i.fallThrough := by
  rw [advance]
  split
  · next x hx =>
    have hredirect := Instruction.compute_redirect hi hx
    rw [h, Option.isSome_eq_false_iff, Option.isNone_iff_eq_none] at hredirect
    rw [apply, hredirect]
    rfl
  · rfl

theorem pc_after_succ (hi : is[n]? = some i) (hx : (s.after is n).effect i = .ok x) {pc : Word}
    (hpc : x.redirect = some pc) : (s.after is (n + 1)).pc = pc := by
  rw [after_succ hi, advance_of_ok hx, apply, hpc]
  rfl

/-! ### Registers -/

theorem read_advance_of_ne (h : i.dest ≠ some r) :
    (s.advance i).registers.read r = s.registers.read r := by
  rw [advance]
  split
  · rw [apply]
    dsimp only
    split
    · next r' hdest =>
      rw [Registers.read_write, if_neg]
      rintro ⟨rfl, -⟩
      exact h hdest
    · rfl
  · rfl

/-- A register keeps its value while nobody writes it. -/
theorem read_after (hmn : m ≤ n)
    (h : ∀ l i, m ≤ l → l < n → is[l]? = some i → i.dest ≠ some r) :
    (s.after is n).registers.read r = (s.after is m).registers.read r :=
  after_keeps (P := fun t => t.registers.read r = (s.after is m).registers.read r) hmn
    (fun l i _ hml hln hi ht => (read_advance_of_ne (h l i hml hln hi)).trans ht) rfl

/-- The writer of a register leaves its result there. -/
theorem read_after_succ (hi : is[n]? = some i) (hx : (s.after is n).effect i = .ok x)
    (hdest : i.dest = some r) (hr : r ≠ 0) :
    (s.after is (n + 1)).registers.read r = x.result := by
  rw [after_succ hi, advance_of_ok hx, apply, hdest]
  dsimp only
  rw [Registers.read_write, if_pos ⟨rfl, hr⟩]

/-! ### What the units work with -/

/-- The state agrees with a memory and with control and status registers on what a unit works
with. -/
def Agrees (s : Sequential) (u : UnitKind) (m : Memory) (f : CsrFile) : Prop :=
  match u with
  | .memory => m = s.memory
  | .system => f.cells = s.csrs.cells
  | .alu | .branch => True

/-- An instruction for another unit makes no difference. -/
theorem agrees_advance_iff (hu : i.unit ≠ u) :
    (s.advance i).Agrees u mem f ↔ s.Agrees u mem f := by
  rw [advance]
  split
  · next e he =>
    obtain ⟨hmem, hcsrs⟩ := Instruction.compute_frame he
    cases u with
    | memory =>
      change mem = e.memory ↔ mem = s.memory
      rw [hmem hu]
    | system =>
      change f.cells = e.csrs.cells ↔ f.cells = s.csrs.cells
      rw [hcsrs hu]
    | _ => exact Iff.rfl
  · cases u <;> exact Iff.rfl

/-- As long as no instruction goes to a unit, the states agree with the same on what it works
with. -/
theorem agrees_after_iff (hmn : m ≤ n)
    (hu : ∀ l i, m ≤ l → l < n → is[l]? = some i → i.unit ≠ u) :
    (s.after is n).Agrees u mem f ↔ (s.after is m).Agrees u mem f :=
  after_keeps (P := fun t => t.Agrees u mem f ↔ (s.after is m).Agrees u mem f) hmn
    (fun l i _ hml hln hi ht => (agrees_advance_iff (hu l i hml hln hi)).trans ht) Iff.rfl

/-- What a unit leaves alone still agrees. -/
theorem Agrees.of_compute {a b : Word} (h : s.Agrees u mem f) (hx : i.compute a b mem f = .ok x)
    (hu : i.unit ≠ u) : s.Agrees u x.memory x.csrs := by
  obtain ⟨hmem, hcsrs⟩ := Instruction.compute_frame hx
  cases u with
  | memory => exact (hmem hu).trans h
  | system => exact (congrArg CsrFile.cells (hcsrs hu)).trans h
  | _ => trivial

/-- Computing an instruction with the operands of a state, and with a memory and registers that
agree with it on what the unit works with, gives the result that the instruction has in the state;
and afterwards they agree again. -/
theorem effect_of_compute {a b : Word} (ha : a = s.operand i.control.usesRs1 i.rs1)
    (hb : b = s.operand i.control.usesRs2 i.rs2) (hx : i.compute a b mem f = .ok x)
    (hagree : s.Agrees i.unit mem f) (hcounter : i.touchesCounter = false) :
    ∃ y, s.effect i = .ok y ∧ y.result = x.result ∧ y.redirect = x.redirect ∧
      (s.apply i y).Agrees i.unit x.memory x.csrs := by
  subst ha hb
  have hmemory : i.unit = .memory → s.memory = mem := by
    intro hu
    rw [hu] at hagree
    exact hagree.symm
  have hsystem : i.unit = .system → s.csrs.cells = f.cells ∧ i.touchesCounter = false := by
    intro hu
    rw [hu] at hagree
    exact ⟨hagree.symm, hcounter⟩
  obtain ⟨y, hy, hresult, hredirect, hmem, hcells⟩ := Instruction.compute_congr hx hmemory hsystem
  refine ⟨y, hy, hresult, hredirect, ?_⟩
  cases hu : i.unit with
  | memory => exact (hmem hu).symm
  | system => exact (hcells hu).symm
  | _ => trivial

end Sequential

end OutOfOrder
