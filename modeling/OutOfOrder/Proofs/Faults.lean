import OutOfOrder.Proofs.Refinement
import OutOfOrder.Proofs.Traffic

/-!
# Every fault is a fault of the program

A run of the simulator fails in the core, at a load or store, or in fetching, where there is nothing
to read or no instruction. Either may happen long before the instruction would retire. But nothing
is fetched on a guess, and loads and stores start in program order; so a load or store that fails is
the one at which the sequential machine fails. Fetching may be further ahead: if it fails, then the
sequential machine fails at the same place in the same way, unless it fails before, at a load or
store that is still in flight.

## Main definitions

* `Sequential.Fails` — the machine executes some instructions, and then it fails
* `Sequential.FailsAt` — it fails at a given one of the instructions of a list, a load or store
* `Simulator.InFlight` — an instruction waits in the queue or is in the window

## Main results

* `Sequential.Fails.prefix_of_runs` — a machine that fails does nothing else
* `Snapshot.Turn.fails` — a load or store that fails in the core fails in the sequential machine
* `Simulator.InStep.failsAt_of_core`, `Simulator.InStep.fails_of_fetch` — the two kinds of faults
* `Simulator.run_fails_soundly` — a run that fails shows a fault of the program
-/

namespace OutOfOrder

/-! ### The sequential machine fails -/

namespace Sequential

variable {s t u : Sequential} {i : Instruction} {is js : List Instruction} {n : Nat}
  {e : SimError} {fault : MemoryError}

/-- The machine executes the instructions of a list, none of which ends the program, and comes to
`t`, where it fails. -/
structure Fails (s : Sequential) (is : List Instruction) (t : Sequential) (e : SimError) :
    Prop where
  runs : s.Runs is t
  goes : ∀ i ∈ is, i.isExit = false
  fails : t.step = .error e

/-- The machine executes everything in a list of numbered instructions that comes before `i`, and
finds `i`, a load or store that fails. -/
structure FailsAt (s : Sequential) (is : List Instruction) (i : Instruction) (t : Sequential)
    (fault : MemoryError) : Prop where
  before : s.Fails ((is.take i.uuid).map Instruction.unnumbered) t (.memory fault)
  listed : is[i.uuid]? = some i
  unit : i.unit = .memory
  fetch : t.fetch = .ok i.unnumbered

/-- Where the machine fails, it stays. -/
theorem Runs.eq_of_error (h : s.Runs is t) (hs : s.step = .error e) : is = [] ∧ t = s := by
  cases h with
  | nil => exact ⟨rfl, rfl⟩
  | exit h => rw [hs] at h; cases h
  | cons h => rw [hs] at h; cases h

/-- A machine that fails executes nothing but what it executes before it fails. -/
theorem Fails.prefix_of_runs (h : s.Fails is t e) (hruns : s.Runs js u) : js <+: is := by
  obtain ⟨h, hgoes, hfails⟩ := h
  induction h generalizing js with
  | nil s =>
    obtain ⟨rfl, -⟩ := hruns.eq_of_error hfails
    exact List.nil_prefix
  | exit _ hexit =>
    rw [hgoes _ (List.mem_singleton_self _)] at hexit
    cases hexit
  | cons h hgo _ ih =>
    cases hruns with
    | nil => exact List.nil_prefix
    | exit h' hexit =>
      obtain ⟨rfl, rfl⟩ := Prod.mk.inj (Except.ok.inj (h.symm.trans h'))
      rw [hgo] at hexit
      cases hexit
    | cons h' _ hrest =>
      obtain ⟨rfl, rfl⟩ := Prod.mk.inj (Except.ok.inj (h.symm.trans h'))
      refine (List.prefix_cons_inj _).mpr ?_
      exact ih hrest (fun j hj => hgoes j (List.mem_cons_of_mem _ hj)) hfails

theorem step_of_fetch_error (h : s.fetch = .error e) : s.step = .error e := by
  rw [step, h]

theorem step_of_effect_error (hfetch : s.fetch = .ok i.unnumbered)
    (hfault : s.effect i = .error fault) : s.step = .error (.memory fault) := by
  have hexec : s.execute i.unnumbered = .error fault := by
    rw [execute, show s.effect i.unnumbered = .error fault from hfault]
    rfl
  rw [step, hfetch]
  dsimp only
  rw [hexec]

/-- After the first `n` instructions of a list, the machine fails. -/
theorem Executes.fails (h : s.Executes is n)
    (hgoes : ∀ m i, m < n → is[m]? = some i → i.isExit = false)
    (hfails : (s.after is n).step = .error e) :
    s.Fails ((is.take n).map Instruction.unnumbered) (s.after is n) e :=
  ⟨h.runs fun m i hm => hgoes m i (Nat.lt_of_succ_lt hm), isExit_of_mem_take hgoes, hfails⟩

end Sequential

/-! ### A load or store fails in the core -/

section Turn

variable {s : Snapshot} {start : Sequential} {is : List Instruction} {k p n : Nat} {slot : Slot}
  {st : Station} {e : Entry} {a b : Word} {fault : MemoryError}

/-- The instruction whose turn it is fails in the sequential machine as it does in the core, and
this is what is reported. -/
theorem Snapshot.Turn.fails (hturn : s.Turn is .memory p n slot st e a b)
    (hs : s.OnTrack start is k) (hnum : Numbered is) (hfree : CounterFree is n)
    (hfault : e.instruction.compute a b s.memory s.core.csrs = .error fault) :
    (start.after is n).effect e.instruction = .error fault ∧
      s.core.sideEffects s.memory e.instruction a b =
        [.access e.instruction ((start.after is n).request e.instruction) (.error fault)] := by
  obtain ⟨hrequest, hmemory⟩ := hturn.request_eq hs hnum hfree
  have hrefused : (start.after is n).memory.perform
      ((start.after is n).request e.instruction) = .error fault := by
    rw [hrequest, hmemory]
    exact (Instruction.compute_eq_error_iff.mp hfault).2
  refine ⟨?_, ?_⟩
  · exact (Sequential.effect_eq_error_iff (hs.sound.decoded hturn.serves.entry) hturn.unit).mpr
      hrefused
  · rw [hturn.sideEffects_eq hs hnum hfree, Sequential.call, hrefused]
    rfl

end Turn

/-! ### The simulator fails -/

namespace Simulator

open OutOfOrder.Sequential

/-- The instruction has been fetched and has not retired. -/
def InFlight (s : Simulator) (i : Instruction) : Prop :=
  i ∈ s.queue.waiting ∨ ∃ e ∈ s.core.window.entries, e.instruction = i

variable {s : Simulator} {init : Sequential} {is : List Instruction} {i : Instruction} {l n : Nat}
  {e : SimError} {fault : MemoryError}

/-- Where fetching fails, so does a machine that finds the same there. -/
theorem fetch_of_fetchWord_error {t : Sequential} (hpc : t.pc = s.pc)
    (hword : t.memory.fetch s.pc = s.memory.fetch s.pc) (h : s.fetchWord = .error e) :
    t.fetch = .error e := by
  rw [Sequential.fetch, hpc, hword]
  rw [fetchWord] at h
  cases hw : s.memory.fetch s.pc with
  | error d =>
    rw [hw] at h
    exact h
  | ok w =>
    rw [hw] at h
    dsimp only at h ⊢
    -- whether a word is an instruction does not depend on the serial number
    rw [decode_renumber w s.pc 0 s.nextUuid] at h
    cases hi : decode w s.pc 0 with
    | error d =>
      rw [hi] at h
      exact h
    | ok i =>
      rw [hi] at h
      cases h

/-- What has been fetched and has not retired, is in flight. -/
theorem InStep.inFlight (hs : s.InStep init is is.length) (hl : s.core.window.departed ≤ l)
    (hi : is[l]? = some i) : s.InFlight i := by
  rcases Nat.lt_or_ge l s.core.window.next with hnext | hnext
  · obtain ⟨e, he, rfl⟩ := hs.onTrack.follows.exists_entry hl hnext hi
    exact .inr ⟨e, ReorderBuffer.mem_entries_iff.mpr ⟨l, he⟩, rfl⟩
  · have hlt := (List.getElem?_eq_some_iff.mp hi).1
    exact .inl (hs.onTrack.follows.mem_waiting_iff.mpr ⟨l, hnext, hlt, hi⟩)

section InStep

variable (hs : s.InStep init is is.length) (huuid : ∀ (n : Nat) i, is[n]? = some i → i.uuid = n)
  (hcounter : ∀ js t, init.Runs js t → ∀ i ∈ js, i.touchesCounter = false)
  (hcode : ∀ t u a, init.Visits t → init.Visits u → t.Stores a → ¬u.FetchesFrom a)

include hs huuid hcode

/-- If the sequential machine has executed everything before a fetched instruction, and this fails,
then it fails there. -/
theorem InStep.failsAt (hi : is[n]? = some i) (hfree : CounterFree is n)
    (hexec : init.Executes is n) (hfault : (init.after is n).effect i = .error fault) :
    init.FailsAt is i (init.after is n) fault := by
  obtain ⟨hn, rfl⟩ := List.getElem?_eq_some_iff.mp hi
  have hgoes : ∀ m i, m < n → is[m]? = some i → i.isExit = false :=
    fun m i hm => hs.isExit_eq_false (Nat.lt_of_le_of_lt hm hn)
  have hfetch := hs.fetch_eq hn hfree hexec hgoes hcode
  refine ⟨?_, ?_, (Instruction.compute_eq_error_iff.mp hfault).1, hfetch⟩
  · rw [huuid n _ hi]
    exact hexec.fails hgoes (step_of_effect_error hfetch hfault)
  · rw [huuid n _ hi, hi]

include hcounter

/-- A load or store that fails in the core is the one at which the sequential machine fails, with
the same request, and it is the last thing to be reported. -/
theorem InStep.failsAt_of_core (hnum : Numbered is) (hfault : s.tick.core.fault = some fault) :
    ∃ i t, init.FailsAt is i t fault ∧
      s.tick.core.events.getLast? = some (.access i (t.request i) (.error fault)) := by
  have hs' := hs.beforeFetch hnum
  rw [tick_core] at hfault ⊢
  obtain ⟨es, slot, st, e, a, b, hstart, hcompute, hevents⟩ :=
    Snapshot.exists_failed (s := s.snapshot) hfault
  have hevents : (s.core.tick s.queue s.memory).events = _ := hevents
  obtain ⟨p, hfront, -⟩ := hs'.onTrack.precise.ordered .memory rfl
  obtain ⟨n, -, hturn⟩ := hstart.turn hs'.onTrack hnum rfl hfront
  have hturn := hturn (Instruction.compute_eq_error_iff.mp hcompute).1
  have hi := hs'.onTrack.follows.entry hturn.serves.entry
  have hn := (List.getElem?_eq_some_iff.mp hi).1
  -- nothing fails before, since all loads and stores before have started
  obtain ⟨hfree, hexec⟩ : CounterFree is n ∧ init.Executes is n := by
    refine (hs'.executes_or_fails hcounter hcode (Nat.le_of_lt hn)).resolve_right ?_
    rintro ⟨l, i, fault', hl, hi, hfree, -, hfails⟩
    obtain ⟨x, hx⟩ := hs'.onTrack.precise.effect_of_frontier hs'.onTrack.sound hs'.onTrack.follows
      hfront hi (fun hu => Nat.lt_of_not_le fun hpl => hturn.skip l i hpl hl hi hu) hfree
    rw [hx] at hfails
    cases hfails
  obtain ⟨hfails, hreported⟩ := hturn.fails hs'.onTrack hnum hfree hcompute
  refine ⟨e.instruction, init.after is n, hs'.failsAt huuid hcode hi hfree hexec hfails, ?_⟩
  rw [hevents, hreported, List.getLast?_append]
  rfl

/-- If fetching fails, then the sequential machine has executed all that has been fetched and fails
at the same place in the same way, or it fails before, at a load or store in flight. -/
theorem InStep.fails_of_fetch (hrun : s.fetch = .running) (hfault : s.fetchWord = .error e) :
    (∃ t, init.Fails (is.map Instruction.unnumbered) t e ∧ t.fetch = .error e ∧ t.pc = s.pc) ∨
      ∃ i t fault, init.FailsAt is i t fault ∧ s.InFlight i := by
  rcases hs.executes_or_fails hcounter hcode (Nat.le_refl _) with
    ⟨hfree, hexec⟩ | ⟨l, i, fault, hl, hi, hfree, hexec, hfails⟩
  · -- nothing that has been fetched ends the program, as fetching would have stopped
    have hgoes : ∀ m i, m < is.length → is[m]? = some i → i.isExit = false := by
      intro m i hm hi
      cases hexit : i.isExit with
      | false => rfl
      | true =>
        obtain ⟨-, hstopped⟩ := hs.stopped hm hi hexit
        rw [hrun] at hstopped
        cases hstopped
    obtain ⟨l, hl, hmemory⟩ := hs.exists_memory_eq hfree
    have hpc := hs.pc hrun hfree
    have hword := fetch_eq_of_executes hl (Nat.le_refl _) hexec hgoes hcode
    rw [← hmemory, hpc] at hword
    have hfetch := fetch_of_fetchWord_error hpc hword hfault
    have hfails := hexec.fails hgoes (step_of_fetch_error hfetch)
    rw [List.take_length] at hfails
    exact .inl ⟨_, hfails, hfetch, hpc⟩
  · exact .inr ⟨i, _, fault, hs.failsAt huuid hcode hi (hfree.mono (Nat.le_succ l)) hexec hfails,
      hs.inFlight (hs.departed_le hi hfree hfails) hi⟩

end InStep

/-- **Every fault is a fault of the program.** If a run of the simulator fails, from any contents of
memory, and not for want of cycles, and on its own the sequential machine accesses no performance
counter and stores to no byte of an instruction that it fetches, then the sequential machine fails
as well. If the simulator fails in the core, at a load or store, then this is where the sequential
machine fails, with the same error, after it has executed everything older without a fault. If the
simulator fails in fetching, then the sequential machine executes all that has been fetched, comes
to the same address and fails there with the same error; or else it fails before, at a load or store
that is in flight in the simulator. -/
theorem run_fails_soundly {c : Config} {s : Simulator} (hnew : Simulator.new c = .ok s) (m : Memory)
    (hfault : ({ s with memory := m } : Simulator).run.fault = some e)
    (hcycles : ∀ limit, e ≠ .cycleLimit limit)
    (hcounter : ∀ is t, Runs { memory := m, pc := c.run.startPc } is t →
      ∀ i ∈ is, i.touchesCounter = false)
    (hcode : ∀ t u a, Visits { memory := m, pc := c.run.startPc } t →
      Visits { memory := m, pc := c.run.startPc } u → t.Stores a → ¬u.FetchesFrom a) :
    let start : Simulator := { s with memory := m }
    let init : Sequential := { memory := m, pc := c.run.startPc }
    let final := start.run.final
    ∃ is last, start.Fetches is last ∧ last.tick.fault = some e ∧ last.tick.next = final ∧
      (∀ fault, last.tick.core.fault = some fault → e = .memory fault ∧
        ∃ i t, init.FailsAt is i t fault ∧
          last.tick.core.events.getLast? = some (.access i (t.request i) (.error fault))) ∧
      (last.tick.core.fault = none →
        (∃ t, init.Fails (is.map Instruction.unnumbered) t e ∧ t.fetch = .error e ∧
          t.pc = final.pc) ∨
        ∃ i t fault, init.FailsAt is i t fault ∧ final.InFlight i) := by
  intro start init final
  obtain ⟨is, last, hfetches, hlast, hfinal⟩ := fetches_of_run_fault hfault hcycles
  have hstart := inStep_new hnew m is
  have hnum := hfetches.numbered hstart.nextUuid
  have huuid := (hfetches.uuid hstart.nextUuid).2
  have hs : last.InStep init is is.length := hfetches.inStep (List.prefix_refl is) hnum hstart
  have hfinal : final = last.tick.next := hfinal
  refine ⟨is, last, hfetches, hlast, hfinal.symm, ?_⟩
  rw [hfinal]
  rcases tick_of_fault hlast with ⟨fault, hcore, rfl, hnext⟩ | ⟨hcore, hrun, hword, hnext⟩
  · rw [hcore]
    refine ⟨fun fault' heq => ?_, nofun⟩
    obtain rfl := Option.some.inj heq
    exact ⟨rfl, hs.failsAt_of_core huuid hcounter hcode hnum hcore⟩
  · rw [hcore, hnext]
    refine ⟨nofun, fun _ => ?_⟩
    exact (hs.beforeFetch hnum).followRedirect.fails_of_fetch huuid hcounter hcode hrun hword

/-- A program that loads a constant, and then from an address that is not aligned. -/
def unaligned : Memory :=
  (Memory.empty 0 1048576).poke 0
    ([0x00500093, 0x00102103, 0x00000073].flatMap (Word.bytes 4))

theorem run_fails_soundly_unaligned :
    ∃ s is last, Simulator.new { run := { maxCycles := 30 } } = .ok s ∧
      ({ s with memory := unaligned } : Simulator).Fetches is last ∧
      last.tick.fault = some (.memory (.misaligned 1 4)) ∧
      ∃ js t e, Fails { memory := unaligned } js t e := by
  obtain ⟨s, hnew, hfault⟩ : ∃ s, Simulator.new { run := { maxCycles := 30 } } = .ok s ∧
      ({ s with memory := unaligned } : Simulator).run.fault =
        some (.memory (.misaligned 1 4)) := ⟨_, rfl, rfl⟩
  -- one instruction is executed, which is no store, and the next one fails
  obtain ⟨i, t, hstep, hgo, hcount, hunit, hfails⟩ :
      ∃ i t, ({ memory := unaligned } : Sequential).step = .ok (i, t) ∧ i.isExit = false ∧
        i.touchesCounter = false ∧ i.unit ≠ .memory ∧
        t.step = .error (.memory (.misaligned 1 4)) :=
    ⟨_, _, rfl, rfl, rfl, by decide, rfl⟩
  have hlast : Fails { memory := unaligned } [i] t (.memory (.misaligned 1 4)) :=
    ⟨.cons hstep hgo (.nil t), List.forall_mem_singleton.mpr hgo, hfails⟩
  have hcounter : ∀ is t, Runs { memory := unaligned } is t →
      ∀ j ∈ is, j.touchesCounter = false := by
    intro is t hruns j hj
    rwa [List.mem_singleton.mp ((hlast.prefix_of_runs hruns).subset hj)]
  have hcode : ∀ t u a, Visits { memory := unaligned } t → Visits { memory := unaligned } u →
      t.Stores a → ¬u.FetchesFrom a := by
    rintro u - a hu - ⟨j, after, addr, width, value, hstep', haccess, -⟩
    rcases hu.cases hstep with rfl | ⟨-, js, hruns, -⟩
    · obtain ⟨rfl, -⟩ := Prod.mk.inj (Except.ok.inj (hstep.symm.trans hstep'))
      rw [Instruction.access?, if_neg hunit] at haccess
      cases haccess
    · obtain ⟨-, rfl⟩ := hruns.eq_of_error hfails
      rw [hfails] at hstep'
      cases hstep'
  obtain ⟨is, last, hfetches, hfault, -, hcore, hfetch⟩ :=
    run_fails_soundly hnew unaligned hfault (fun _ he => by cases he) hcounter hcode
  refine ⟨s, is, last, hnew, hfetches, hfault, ?_⟩
  cases h : last.tick.core.fault with
  | some fault =>
    obtain ⟨-, i, t, hat, -⟩ := hcore fault h
    exact ⟨_, t, _, hat.before⟩
  | none =>
    rcases hfetch h with ⟨t, hfails, -⟩ | ⟨i, t, fault, hat, -⟩
    · exact ⟨_, t, _, hfails⟩
    · exact ⟨_, t, _, hat.before⟩

end Simulator

end OutOfOrder
