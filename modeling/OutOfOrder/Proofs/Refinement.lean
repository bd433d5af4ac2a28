import OutOfOrder.Proofs.Fetching

/-!
# The simulator does what the sequential machine does

Put together, a run of the simulator that ends well is a run of the sequential machine to the same
end. Two things can spoil this, and a program has to avoid both: a performance counter tells the two
machines apart, and an instruction may be fetched before a store to the place it comes from.

The proof goes along the instructions that the simulator has fetched. If the sequential machine has
executed the first `n` of them, it is about to fetch number `n`: from the same address, because the
simulator is in step, and the same word, because no store has been there since.

## Main definitions

* `Sequential.Visits` — the states in which the machine executes another instruction
* `Sequential.Stores`, `Sequential.FetchesFrom` — the bytes that the next instruction writes, and
  those that it is read from

## Main results

* `Memory.fetch_write` — a store elsewhere does not change an instruction
* `Simulator.InStep.executes_or_fails` — the sequential machine executes what has been fetched, up
  to the first instruction that fails
* `Simulator.run_refines` — the simulator refines the sequential machine
-/

namespace OutOfOrder

/-! ### Memory along a run -/

namespace Memory

variable {m n : Memory} {addr pc value : Word} {width : Width}

/-- Positions are counted from the base. -/
theorem check_eq_ok {i : Nat} (h : m.check addr width = .ok i) :
    m.base.toNat ≤ addr.toNat ∧ i = addr.toNat - m.base.toNat := by
  rw [check] at h
  split at h
  · rw [locate, offset?] at h
    split at h
    · next j hj =>
      split at hj
      · next hbounds =>
        obtain rfl := Option.some.inj hj
        exact ⟨hbounds.1, (Except.ok.inj h).symm⟩
      · simp at hj
    · simp at h
  · simp at h

/-- Bytes that are written elsewhere do not show. -/
theorem peek_poke {i j k : Nat} {bs : List Byte} (h : j + k ≤ i ∨ i + bs.length ≤ j) :
    (m.poke i bs).peek j k = m.peek j k := by
  rw [peek, peek, poke, Sparse.slice, Sparse.slice]
  refine List.map_congr_left fun l hl => ?_
  have hl := List.mem_range.mp hl
  dsimp only
  rw [Sparse.get_setAll]
  split
  · rw [List.getD_eq_getElem?_getD, List.getElem?_eq_none (by omega)]
    rfl
  · rfl

/-- A write leaves alone where memory lies. -/
theorem check_of_write (h : m.write addr width value = .ok n) (pc : Word) (w : Width) :
    n.check pc w = m.check pc w := by
  rw [write] at h
  cases hcheck : m.check addr width with
  | error e => rw [hcheck] at h; cases h
  | ok i =>
    rw [hcheck] at h
    obtain rfl := Except.ok.inj h
    rfl

/-- A store that hits no byte of an instruction leaves it as it is. -/
theorem fetch_write (h : m.write addr width value = .ok n)
    (hd : ∀ a, addr.toNat ≤ a → a < addr.toNat + width.bytes →
      ¬(pc.toNat ≤ a ∧ a < pc.toNat + Width.word.bytes)) :
    n.fetch pc = m.fetch pc := by
  have hcheck := check_of_write h pc .word
  rw [write] at h
  rw [fetch, fetch, read, read, hcheck]
  cases haddr : m.check addr width with
  | error e => rw [haddr] at h; cases h
  | ok i =>
    rw [haddr] at h
    obtain rfl := Except.ok.inj h
    cases hpc : m.check pc .word with
    | error e => rfl
    | ok j =>
      obtain ⟨hle, rfl⟩ := check_eq_ok haddr
      obtain ⟨hle', rfl⟩ := check_eq_ok hpc
      have hpos : 0 < width.bytes := by cases width <;> decide
      have hfour : Width.word.bytes = 4 := rfl
      have hfirst := hd addr.toNat (Nat.le_refl _) (by omega)
      have hlast := hd (max addr.toNat pc.toNat) (Nat.le_max_left _ _)
      rw [Except.map, Except.map, peek_poke]
      rw [Word.length_bytes]
      omega

end Memory

/-- Memory changes only by the write that an instruction requests. -/
theorem Instruction.memory_of_compute {i : Instruction} {a b : Word} {m : Memory} {f : CsrFile}
    {x : Effect} (h : i.compute a b m f = .ok x) :
    x.memory = m ∨ ∃ addr width value, i.access? a b = some (.write addr width value) ∧
      m.write addr width value = .ok x.memory := by
  rcases compute_cases h with ⟨-, rfl⟩ | ⟨-, rfl⟩ | ⟨hunit, value, after, hls, rfl⟩ | ⟨-, rfl⟩
  · exact .inl rfl
  · exact .inl rfl
  · rw [access?, if_pos hunit]
    rw [loadStore] at hls
    cases haccess : i.access a b with
    | read addr width =>
      rw [haccess, Memory.perform] at hls
      cases hread : m.read addr width with
      | error e => rw [hread] at hls; cases hls
      | ok v =>
        rw [hread] at hls
        exact .inl (Prod.mk.inj (Except.ok.inj hls)).2.symm
    | write addr width value =>
      rw [haccess, Memory.perform] at hls
      cases hwrite : m.write addr width value with
      | error e => rw [hwrite] at hls; cases hls
      | ok written =>
        rw [hwrite] at hls
        obtain rfl := (Prod.mk.inj (Except.ok.inj hls)).2
        exact .inr ⟨addr, width, value, rfl, hwrite⟩
  · exact .inl rfl

/-! ### The sequential machine -/

/-- The instruction without its serial number. -/
def Instruction.unnumbered (i : Instruction) : Instruction := { i with uuid := 0 }

namespace Sequential

variable {s t u init : Sequential} {i : Instruction} {is : List Instruction} {k m n : Nat}
  {x : Effect} {pc : Word}

/-- From `s` the machine comes to `t` and has not ended the program before. -/
def Visits (s t : Sequential) : Prop := ∃ is, s.Runs is t ∧ ∀ i ∈ is, i.isExit = false

/-- The next instruction stores to the byte at address `a`. -/
def Stores (s : Sequential) (a : Nat) : Prop :=
  ∃ i after addr width value, s.step = .ok (i, after) ∧
    i.access? (s.operand i.control.usesRs1 i.rs1) (s.operand i.control.usesRs2 i.rs2) =
      some (.write addr width value) ∧
    addr.toNat ≤ a ∧ a < addr.toNat + width.bytes

/-- The byte at address `a` is part of the next instruction. -/
def FetchesFrom (s : Sequential) (a : Nat) : Prop :=
  (∃ w, s.memory.fetch s.pc = .ok w) ∧ s.pc.toNat ≤ a ∧ a < s.pc.toNat + Width.word.bytes

/-- A run that has not ended the program can go on. -/
theorem Runs.snoc (h : s.Runs is t) (hgoes : ∀ i ∈ is, i.isExit = false)
    (hstep : t.step = .ok (i, u)) : s.Runs (is ++ [i]) u := by
  induction h with
  | nil s =>
    cases hexit : i.isExit with
    | true => exact .exit hstep hexit
    | false => exact .cons hstep hexit (.nil u)
  | exit _ hexit =>
    rw [hgoes _ (List.mem_singleton_self _)] at hexit
    simp at hexit
  | cons h hexit _ ih =>
    exact .cons h hexit (ih (fun j hj => hgoes j (List.mem_cons_of_mem _ hj)) hstep)

/-- What holds of an instruction and of all that may come after it, holds along every run. -/
theorem Runs.forall_mem {P : Instruction → Prop} (hstep : s.step = .ok (i, u)) (hi : P i)
    (hrest : i.isExit = false → ∀ is t, u.Runs is t → ∀ j ∈ is, P j) :
    ∀ is t, s.Runs is t → ∀ j ∈ is, P j := by
  intro is t h j hj
  cases h with
  | nil => cases hj
  | exit h hexit =>
    obtain ⟨rfl, rfl⟩ := Prod.mk.inj (Except.ok.inj (hstep.symm.trans h))
    obtain rfl := List.mem_singleton.mp hj
    exact hi
  | cons h hgoes h' =>
    obtain ⟨rfl, rfl⟩ := Prod.mk.inj (Except.ok.inj (hstep.symm.trans h))
    rcases List.mem_cons.mp hj with rfl | hj
    · exact hi
    · exact hrest hgoes _ _ h' j hj

/-- The machine comes by its first state, and then by what comes after it. -/
theorem Visits.cases (hstep : s.step = .ok (i, u)) (h : s.Visits t) :
    t = s ∨ i.isExit = false ∧ u.Visits t := by
  obtain ⟨is, h, hall⟩ := h
  cases h with
  | nil => exact .inl rfl
  | exit h hexit =>
    rw [hall _ (List.mem_singleton_self _)] at hexit
    simp at hexit
  | cons h hgoes h' =>
    obtain ⟨rfl, rfl⟩ := Prod.mk.inj (Except.ok.inj (hstep.symm.trans h))
    exact .inr ⟨hgoes, _, h', fun j hj => hall j (List.mem_cons_of_mem _ hj)⟩

/-! ### The instruction at the program counter -/

theorem fetch_of_decode {w : Word} (hw : s.memory.fetch s.pc = .ok w)
    (hi : decode w s.pc n = .ok i) : s.fetch = .ok i.unnumbered := by
  have hzero : decode w s.pc 0 = .ok i.unnumbered := by
    rw [decode_renumber w s.pc n 0, hi]
    rfl
  rw [fetch, hw]
  dsimp only
  rw [hzero]

theorem step_of_effect (hfetch : s.fetch = .ok i.unnumbered) (hx : s.effect i = .ok x) :
    s.step = .ok (i.unnumbered, s.advance i) := by
  have hexec : s.execute i.unnumbered = .ok (s.apply i x) := by
    rw [execute, show s.effect i.unnumbered = .ok x from hx]
    rfl
  rw [step, hfetch]
  dsimp only
  rw [hexec, advance_of_ok hx]

/-- Where memory lies does not change. -/
theorem check_advance (s : Sequential) (i : Instruction) (pc : Word) (w : Width) :
    (s.advance i).memory.check pc w = s.memory.check pc w := by
  rw [advance]
  split
  · next x hx =>
    rcases Instruction.memory_of_compute hx with hsame | ⟨addr, width, value, -, hwrite⟩
    · rw [apply, hsame]
    · exact Memory.check_of_write hwrite pc w
  · rfl

/-- An instruction that stores elsewhere leaves the word at an address as it is. -/
theorem fetch_advance (hstep : s.step = .ok (i.unnumbered, s.advance i))
    (hstores : ∀ a, s.Stores a → ¬(pc.toNat ≤ a ∧ a < pc.toNat + Width.word.bytes)) :
    (s.advance i).memory.fetch pc = s.memory.fetch pc := by
  rw [advance]
  split
  · next x hx =>
    rcases Instruction.memory_of_compute hx with hsame | ⟨addr, width, value, haccess, hwrite⟩
    · rw [apply, hsame]
    · exact Memory.fetch_write hwrite fun a hlo hhi =>
        hstores a ⟨_, _, addr, width, value, hstep, haccess, hlo, hhi⟩
  · rfl

/-- The first `n` instructions of a list are executed without a fault, each where it is found. -/
def Executes (init : Sequential) (is : List Instruction) (n : Nat) : Prop :=
  ∀ m i, m < n → is[m]? = some i →
    (init.after is m).step = .ok (i.unnumbered, init.after is (m + 1))

theorem isExit_of_mem_take (hgoes : ∀ m i, m < n → is[m]? = some i → i.isExit = false) :
    ∀ i ∈ (is.take n).map Instruction.unnumbered, i.isExit = false := by
  intro i hi
  obtain ⟨j, hj, rfl⟩ := List.mem_map.mp hi
  obtain ⟨m, hm⟩ := List.mem_iff_getElem?.mp hj
  rw [List.getElem?_take] at hm
  split at hm
  · next hmn => exact hgoes m j hmn hm
  · simp at hm

/-- One more instruction. -/
theorem Executes.succ (h : init.Executes is n) (hi : is[n]? = some i)
    (hfetch : (init.after is n).fetch = .ok i.unnumbered)
    (hx : (init.after is n).effect i = .ok x) : init.Executes is (n + 1) := by
  intro m j hm hj
  rcases Nat.lt_succ_iff_lt_or_eq.mp hm with hlt | rfl
  · exact h m j hlt hj
  · obtain rfl := Option.some.inj (hi.symm.trans hj)
    rw [after_succ hi]
    exact step_of_effect hfetch hx

theorem Executes.runs (h : init.Executes is n)
    (hgoes : ∀ m i, m + 1 < n → is[m]? = some i → i.isExit = false) :
    init.Runs ((is.take n).map Instruction.unnumbered) (init.after is n) := by
  induction n with
  | zero => exact .nil init
  | succ n ih =>
    have hn := ih (fun m i hm => h m i (Nat.lt_succ_of_lt hm))
      fun m i hm => hgoes m i (Nat.lt_succ_of_lt hm)
    cases hi : is[n]? with
    | none =>
      rw [List.take_add_one, hi, after_succ_of_none hi, Option.toList_none, List.append_nil]
      exact hn
    | some i =>
      rw [List.take_add_one, hi, Option.toList_some, List.map_append]
      exact hn.snoc (isExit_of_mem_take fun m j hm => hgoes m j (Nat.succ_lt_succ hm))
        (h n i (Nat.lt_succ_self n) hi)

theorem Executes.visits (h : init.Executes is n)
    (hgoes : ∀ m i, m < n → is[m]? = some i → i.isExit = false) :
    init.Visits (init.after is n) :=
  ⟨_, h.runs fun m i hm => hgoes m i (Nat.lt_of_succ_lt hm), isExit_of_mem_take hgoes⟩

/-- A word that no instruction on the way stores to is still there. -/
theorem fetch_after (hmn : m ≤ n) (hn : n ≤ is.length) (h : init.Executes is n)
    (hstores : ∀ l, m ≤ l → l < n → ∀ a, (init.after is l).Stores a →
      ¬(pc.toNat ≤ a ∧ a < pc.toNat + Width.word.bytes)) :
    (init.after is n).memory.fetch pc = (init.after is m).memory.fetch pc := by
  induction hmn with
  | refl => rfl
  | @step n hmn ih =>
    have hi := List.getElem?_eq_getElem (l := is) hn
    have hstep := h n _ (Nat.lt_succ_self n) hi
    have hrest := ih (Nat.le_of_succ_le hn) (fun m i hm => h m i (Nat.lt_succ_of_lt hm))
      fun l hml hln => hstores l hml (Nat.lt_succ_of_lt hln)
    rw [after_succ hi] at hstep ⊢
    rw [fetch_advance hstep (hstores n hmn (Nat.lt_succ_self n)), hrest]

theorem check_after (hmn : m ≤ n) (pc : Word) (w : Width) :
    (init.after is n).memory.check pc w = (init.after is m).memory.check pc w :=
  after_keeps (P := fun t => t.memory.check pc w = (init.after is m).memory.check pc w) hmn
    (fun _ i t _ _ _ ht => (check_advance t i pc w).trans ht) rfl

/-- If no code is stored to, the machine finds at its program counter what has been there since an
earlier instruction. -/
theorem fetch_eq_of_executes (hmn : m ≤ n) (hn : n ≤ is.length) (h : init.Executes is n)
    (hgoes : ∀ m i, m < n → is[m]? = some i → i.isExit = false)
    (hcode : ∀ t u a, init.Visits t → init.Visits u → t.Stores a → ¬u.FetchesFrom a) :
    (init.after is n).memory.fetch (init.after is n).pc =
      (init.after is m).memory.fetch (init.after is n).pc := by
  have hvisits : ∀ l, l ≤ n → init.Visits (init.after is l) := fun l hl =>
    Executes.visits (fun k i hk => h k i (Nat.lt_of_lt_of_le hk hl))
      fun k i hk => hgoes k i (Nat.lt_of_lt_of_le hk hl)
  cases hcheck : (init.after is n).memory.check (init.after is n).pc .word with
  | error e =>
    rw [Memory.fetch, Memory.fetch, Memory.read, Memory.read, ← check_after hmn, hcheck]
    rfl
  | ok p =>
    -- the machine can fetch here, so that nobody may store here
    have hword : ∃ w, (init.after is n).memory.fetch (init.after is n).pc = .ok w :=
      ⟨_, by rw [Memory.fetch, Memory.read, hcheck]; rfl⟩
    exact fetch_after hmn hn h fun l _ hln a ha hrange =>
      hcode _ _ a (hvisits l (Nat.le_of_lt hln)) (hvisits n (Nat.le_refl n)) ha ⟨hword, hrange⟩

end Sequential

/-! ### The simulator -/

namespace Simulator

open OutOfOrder.Sequential

variable {s : Simulator} {init : Sequential} {is : List Instruction} {n : Nat}

/-- If the sequential machine has executed everything before number `n`, then number `n` is what it
finds at its program counter. -/
theorem InStep.fetch_eq (hs : s.InStep init is is.length) (hn : n < is.length)
    (hfree : CounterFree is n) (hexec : init.Executes is n)
    (hgoes : ∀ m i, m < n → is[m]? = some i → i.isExit = false)
    (hcode : ∀ t u a, init.Visits t → init.Visits u → t.Stores a → ¬u.FetchesFrom a) :
    (init.after is n).fetch = .ok is[n].unnumbered := by
  obtain ⟨l, w, hl, hw, hdecode⟩ := hs.fetched hn (List.getElem?_eq_getElem hn) hfree
  exact fetch_of_decode
    ((fetch_eq_of_executes hl (Nat.le_of_lt hn) hexec hgoes hcode).trans hw) hdecode

/-- Only the last instruction fetched can end the program. -/
theorem InStep.isExit_eq_false {m : Nat} {i : Instruction} (hs : s.InStep init is is.length)
    (hm : m + 1 < is.length) (hi : is[m]? = some i) : i.isExit = false := by
  cases hexit : i.isExit with
  | false => rfl
  | true => exact absurd (hs.stopped (Nat.lt_of_succ_lt hm) hi hexit).1 (Nat.ne_of_lt hm)

/-- The sequential machine executes what the simulator has fetched, up to the first instruction that
fails. -/
theorem InStep.executes_or_fails (hs : s.InStep init is is.length)
    (hcounter : ∀ js t, init.Runs js t → ∀ i ∈ js, i.touchesCounter = false)
    (hcode : ∀ t u a, init.Visits t → init.Visits u → t.Stores a → ¬u.FetchesFrom a)
    (hn : n ≤ is.length) :
    (CounterFree is n ∧ init.Executes is n) ∨
      ∃ l i fault, l < n ∧ is[l]? = some i ∧ CounterFree is (l + 1) ∧ init.Executes is l ∧
        (init.after is l).effect i = .error fault := by
  induction n with
  | zero => exact .inl ⟨fun i hi => (by cases hi), fun m i hm => absurd hm (Nat.not_lt_zero m)⟩
  | succ n ih =>
    rcases ih (Nat.le_of_succ_le hn) with ⟨hfree, hexec⟩ | ⟨l, i, fault, hl, hfails⟩
    · have hi : is[n]? = some is[n] := List.getElem?_eq_getElem hn
      have hgoes : ∀ m i, m < n → is[m]? = some i → i.isExit = false :=
        fun m i hm => hs.isExit_eq_false (Nat.lt_of_le_of_lt hm hn)
      have hfetch := hs.fetch_eq hn hfree hexec hgoes hcode
      cases hx : (init.after is n).effect is[n] with
      | error fault =>
        -- a load or store is no access to a counter
        obtain ⟨_, w, -, -, hdecode⟩ := hs.fetched hn hi hfree
        have hcount : is[n].touchesCounter = false :=
          (decoded_of_decode hdecode).touchesCounter_of_unit
            (by rw [(Instruction.compute_eq_error_iff.mp hx).1]; nofun)
        exact .inr ⟨n, _, fault, Nat.lt_succ_self n, hi, hfree.succ hi hcount, hexec, hx⟩
      | ok x =>
        have hruns := (hexec.succ hi hfetch hx).runs fun m i hm =>
          hgoes m i (Nat.lt_of_succ_lt_succ hm)
        have hmem : is[n].unnumbered ∈ (is.take (n + 1)).map Instruction.unnumbered :=
          List.mem_map_of_mem (List.mem_take_iff_getElem.mpr ⟨n, by omega, rfl⟩)
        have hcount : is[n].touchesCounter = false := hcounter _ _ hruns is[n].unnumbered hmem
        exact .inl ⟨hfree.succ hi hcount, hexec.succ hi hfetch hx⟩
    · exact .inr ⟨l, i, fault, Nat.lt_succ_of_lt hl, hfails⟩

/-- Nothing that fails has retired. -/
theorem InStep.departed_le {l k : Nat} {i : Instruction} {fault : MemoryError}
    (hs : s.InStep init is k) (hi : is[l]? = some i) (hfree : CounterFree is (l + 1))
    (hfault : (init.after is l).effect i = .error fault) : s.core.window.departed ≤ l := by
  refine Nat.le_of_not_lt fun hl => ?_
  obtain ⟨x, hx⟩ := hs.onTrack.precise.done hl hi hfree
  rw [hx] at hfault
  cases hfault

/-- When the core has halted, everything fetched has retired, and the last of it ends the
program. -/
theorem InStep.retired_of_halted {k : Nat} (hs : s.InStep init is k)
    (hhalted : s.core.halted = true) :
    s.core.window.departed = k ∧ s.core.window.isEmpty = true ∧
      ∃ i, is[k - 1]? = some i ∧ i.isExit = true := by
  obtain ⟨n, i, hn, hi, hexit⟩ := hs.onTrack.follows.halted hhalted
  have hnext : s.core.window.departed + s.core.window.entries.length ≤ k :=
    hs.onTrack.follows.next_le
  have hn : n < s.core.window.departed := hn
  obtain ⟨hlast, -⟩ := hs.stopped (by omega) hi hexit
  have hempty : s.core.window.entries = [] := List.eq_nil_of_length_eq_zero (by omega)
  refine ⟨by omega, List.isEmpty_iff.mpr hempty, i, ?_, hexit⟩
  rw [← hlast, Nat.add_sub_cancel]
  exact hi

/-- **The simulator refines the sequential machine.** If a run of the simulator ends without a
fault, from any contents of memory, and on its own the sequential machine accesses no performance
counter and stores to no byte of an instruction that it fetches, then it ends the program without a
fault, after as many instructions as have retired, with the same registers, the same memory and the
same control and status registers apart from the counters. -/
theorem run_refines {c : Config} {s : Simulator} (hnew : Simulator.new c = .ok s) (m : Memory)
    (hok : ({ s with memory := m } : Simulator).run.fault = none)
    (hcounter : ∀ is t, Runs { memory := m, pc := c.run.startPc } is t →
      ∀ i ∈ is, i.touchesCounter = false)
    (hcode : ∀ t u a, Visits { memory := m, pc := c.run.startPc } t →
      Visits { memory := m, pc := c.run.startPc } u → t.Stores a → ¬u.FetchesFrom a) :
    let final := ({ s with memory := m } : Simulator).run.final
    ∃ is t, Runs { memory := m, pc := c.run.startPc } is t ∧
      (∃ i, is.getLast? = some i ∧ i.isExit = true) ∧ is.length = final.core.retired ∧
      t.registers = final.core.registers ∧ t.memory = final.memory ∧
      ∀ a : Csr, a.isCounter = false → t.csrs.read a = final.core.csrs.read a := by
  intro final
  obtain ⟨is, hfetches, hhalted⟩ := fetches_of_run hok
  have hstart := inStep_new hnew m is
  have hs : final.InStep _ is is.length :=
    hfetches.inStep (List.prefix_refl is) (hfetches.numbered hstart.nextUuid) hstart
  obtain ⟨hdeparted, hempty, i, hlast, hexit⟩ := hs.retired_of_halted hhalted
  obtain ⟨hfree, hexec⟩ : CounterFree is is.length ∧ Executes _ is is.length := by
    refine (hs.executes_or_fails hcounter hcode (Nat.le_refl _)).resolve_right ?_
    rintro ⟨l, i, fault, hl, hi, hfree, -, hfault⟩
    have hle := hs.departed_le hi hfree hfault
    omega
  have hruns := hexec.runs fun n j hn hj => hs.isExit_eq_false hn hj
  have hretired : final.core.retired = is.length := hs.onTrack.follows.retired.trans hdeparted
  rw [List.take_length] at hruns
  refine ⟨_, _, hruns, ⟨i.unnumbered, ?_, hexit⟩, ?_, ?_⟩
  · rw [List.getLast?_map, List.getLast?_eq_getElem?, hlast]
    rfl
  · rw [List.length_map, hretired]
  · obtain ⟨hregisters, hrest⟩ := hs.onTrack.after_departed (hdeparted.symm ▸ hfree)
    obtain ⟨hmemory, hcsrs⟩ := hrest hempty
    have hdeparted : final.snapshot.core.window.departed = is.length := hdeparted
    rw [hdeparted] at hregisters hmemory hcsrs
    refine ⟨hregisters, hmemory, fun a ha => ?_⟩
    rw [CsrFile.read_of_not_isCounter _ ha, CsrFile.read_of_not_isCounter _ ha, hcsrs]
    rfl

/-- A program that loads a constant, jumps over a word that is no instruction, stores the constant
and ends. -/
def jumping : Memory :=
  (Memory.empty 0 1048576).poke 0
    ([0x00500093, 0x0080006F, 0, 0x10102023, 0x00000073].flatMap (Word.bytes 4))

theorem run_refines_jumping :
    ∃ s, Simulator.new { run := { maxCycles := 30 } } = .ok s ∧
      ∃ is t, Runs { memory := jumping } is t ∧ is.length = 4 ∧
        t.memory = ({ s with memory := jumping } : Simulator).run.final.memory := by
  obtain ⟨s, hnew, hok, hretired⟩ : ∃ s, Simulator.new { run := { maxCycles := 30 } } = .ok s ∧
      ({ s with memory := jumping } : Simulator).run.fault = none ∧
      ({ s with memory := jumping } : Simulator).run.final.core.retired = 4 := ⟨_, rfl, rfl, rfl⟩
  -- the four instructions and the states after them; only the third one is a store
  obtain ⟨i₁, s₁, i₂, s₂, i₃, s₃, i₄, s₄, h₁, h₂, h₃, h₄, hexit, hc₁, hc₂, hc₃, hc₄, hpc₁, hpc₂,
      hpc₃, hu₁, hu₂, ha₃, hu₄⟩ :
      ∃ i₁ s₁ i₂ s₂ i₃ s₃ i₄ s₄, ({ memory := jumping } : Sequential).step = .ok (i₁, s₁) ∧
        s₁.step = .ok (i₂, s₂) ∧ s₂.step = .ok (i₃, s₃) ∧ s₃.step = .ok (i₄, s₄) ∧
        i₄.isExit = true ∧ i₁.touchesCounter = false ∧ i₂.touchesCounter = false ∧
        i₃.touchesCounter = false ∧ i₄.touchesCounter = false ∧
        s₁.pc = 4 ∧ s₂.pc = 12 ∧ s₃.pc = 16 ∧ i₁.unit ≠ .memory ∧ i₂.unit ≠ .memory ∧
        i₃.access? (s₂.operand i₃.control.usesRs1 i₃.rs1) (s₂.operand i₃.control.usesRs2 i₃.rs2) =
          some (.write 0x100 .word 5) ∧ i₄.unit ≠ .memory :=
    ⟨_, _, _, _, _, _, _, _, rfl, rfl, rfl, rfl, rfl, rfl, rfl, rfl, rfl, rfl, rfl, rfl,
      by decide, by decide, rfl, by decide⟩
  have hcounter : ∀ is t, Runs { memory := jumping } is t → ∀ i ∈ is, i.touchesCounter = false :=
    Runs.forall_mem (P := fun i => i.touchesCounter = false) h₁ hc₁ fun _ =>
      Runs.forall_mem h₂ hc₂ fun _ => Runs.forall_mem h₃ hc₃ fun _ =>
        Runs.forall_mem h₄ hc₄ fun hgoes => by
          rw [hexit] at hgoes
          simp at hgoes
  have hvisits : ∀ t, Visits { memory := jumping } t →
      t = { memory := jumping } ∨ t = s₁ ∨ t = s₂ ∨ t = s₃ := by
    intro t ht
    refine (ht.cases h₁).imp_right fun ⟨_, ht⟩ => (ht.cases h₂).imp_right fun ⟨_, ht⟩ =>
      (ht.cases h₃).imp_right fun ⟨_, ht⟩ => (ht.cases h₄).resolve_right fun ⟨hgoes, _⟩ => ?_
    rw [hexit] at hgoes
    simp at hgoes
  have hcode : ∀ t u a, Visits { memory := jumping } t → Visits { memory := jumping } u →
      t.Stores a → ¬u.FetchesFrom a := by
    rintro t u a ht hu ⟨i, after, addr, width, value, hstep, haccess, hlo, -⟩ ⟨-, -, hhi⟩
    have hpc : u.pc.toNat ≤ 16 := by
      rcases hvisits u hu with rfl | rfl | rfl | rfl
      · decide
      · rw [hpc₁]; decide
      · rw [hpc₂]; decide
      · rw [hpc₃]; decide
    have haddr : addr = 0x100 := by
      rcases hvisits t ht with rfl | rfl | rfl | rfl
      · obtain ⟨rfl, -⟩ := Prod.mk.inj (Except.ok.inj (h₁.symm.trans hstep))
        rw [Instruction.access?, if_neg hu₁] at haccess
        simp at haccess
      · obtain ⟨rfl, -⟩ := Prod.mk.inj (Except.ok.inj (h₂.symm.trans hstep))
        rw [Instruction.access?, if_neg hu₂] at haccess
        simp at haccess
      · obtain ⟨rfl, -⟩ := Prod.mk.inj (Except.ok.inj (h₃.symm.trans hstep))
        exact (Access.write.inj (Option.some.inj (ha₃.symm.trans haccess))).1.symm
      · obtain ⟨rfl, -⟩ := Prod.mk.inj (Except.ok.inj (h₄.symm.trans hstep))
        rw [Instruction.access?, if_neg hu₄] at haccess
        simp at haccess
    have h256 : addr.toNat = 256 := by rw [haddr]; rfl
    have hfour : Width.word.bytes = 4 := rfl
    omega
  obtain ⟨is, t, hruns, -, hlength, -, hmemory, -⟩ := run_refines hnew jumping hok hcounter hcode
  exact ⟨s, hnew, is, t, hruns, hlength.trans hretired, hmemory⟩

end Simulator

end OutOfOrder
