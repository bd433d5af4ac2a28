import OutOfOrder.Proofs.Faults
import OutOfOrder.Proofs.Handshake
import OutOfOrder.Proofs.Progress

/-!
# Programs that end, end in the simulator

If the sequential machine executes a program to its end, so does the simulator, given cycles enough.
A fault would be a fault of the program, and what is fetched is what the program executes, so there
is only so much to fetch. It remains that every cycle gets nearer to the end. As long as something
is in flight, the core sees to that. When nothing is, fetching has no reason to wait, and has not
stopped either, as the machine would have halted; so it runs, finds the queue empty, and fetches.

The number of cycles that suffices depends on the sizes and latencies of the core, but that there is
one does not.

## Main definitions

* `Sequential.Finishes` — the sequential machine executes a program to its end
* `Simulator.Underway` — everything that holds of a simulator between two cycles
* `Simulator.remaining` — how much is left to do

## Main results

* `Sequential.Finishes.prefix_of_runs` — there is one way to execute a program
* `Simulator.Underway.tick_ok`, `Simulator.Underway.length_le` — no cycle fails, and nothing is
  fetched that the program does not execute
* `Simulator.Underway.remaining_lt` — every cycle leaves less to do
* `Simulator.run_completes` — the simulator ends every program that ends
-/

namespace OutOfOrder

/-! ### Programs that end -/

namespace Sequential

variable {s t u : Sequential} {is js : List Instruction} {e : SimError}

/-- The machine executes the instructions of a list, and the last of them ends the program. -/
structure Finishes (s : Sequential) (is : List Instruction) (t : Sequential) : Prop where
  runs : s.Runs is t
  exits : ∃ i, is.getLast? = some i ∧ i.isExit = true

/-- A machine that ends a program executes nothing else. -/
theorem Finishes.prefix_of_runs (h : s.Finishes is t) (hruns : s.Runs js u) : js <+: is := by
  obtain ⟨h, hexits⟩ := h
  induction h generalizing js with
  | nil s =>
    obtain ⟨_, hlast, -⟩ := hexits
    cases hlast
  | exit h hexit =>
    cases hruns with
    | nil => exact List.nil_prefix
    | exit h' _ =>
      obtain ⟨rfl, rfl⟩ := Prod.mk.inj (Except.ok.inj (h.symm.trans h'))
      exact List.prefix_refl _
    | cons h' hgoes _ =>
      obtain ⟨rfl, rfl⟩ := Prod.mk.inj (Except.ok.inj (h.symm.trans h'))
      rw [hexit] at hgoes
      cases hgoes
  | @cons s next after i is h hgoes _ ih =>
    have hrest : ∃ j, is.getLast? = some j ∧ j.isExit = true := by
      obtain ⟨j, hlast, hexit⟩ := hexits
      cases is with
      | nil =>
        obtain rfl : i = j := Option.some.inj hlast
        rw [hgoes] at hexit
        cases hexit
      | cons k ks =>
        rw [List.getLast?_cons_cons] at hlast
        exact ⟨j, hlast, hexit⟩
    cases hruns with
    | nil => exact List.nil_prefix
    | exit h' hexit =>
      obtain ⟨rfl, rfl⟩ := Prod.mk.inj (Except.ok.inj (h.symm.trans h'))
      rw [hgoes] at hexit
      cases hexit
    | cons h' _ hruns =>
      obtain ⟨rfl, rfl⟩ := Prod.mk.inj (Except.ok.inj (h.symm.trans h'))
      exact (List.prefix_cons_inj _).mpr (ih hruns hrest)

/-- It does not fail. -/
theorem Finishes.not_fails (h : s.Finishes is t) : ¬s.Fails js u e := by
  intro hfails
  obtain ⟨i, hlast, hexit⟩ := h.exits
  have hmem := (hfails.prefix_of_runs h.runs).subset (List.mem_of_getLast? hlast)
  rw [hfails.goes i hmem] at hexit
  cases hexit

/-- Whatever it executes belongs to the program. -/
theorem Finishes.mem_of_visits {v : Sequential} {i : Instruction} (h : s.Finishes is t)
    (hu : s.Visits u) (hstep : u.step = .ok (i, v)) : i ∈ is := by
  obtain ⟨js, hruns, hgoes⟩ := hu
  exact (h.prefix_of_runs (hruns.snoc hgoes hstep)).subset
    (List.mem_append_right js (List.mem_singleton_self i))

end Sequential

/-- In a configuration that is not refused, no size is zero. -/
theorem Config.size_pos {c : Config} {name : String} {size : BitVec 64} (h : c.error? = none)
    (hsize : (name, size) ∈ c.sizes) : 0 < size.toNat := by
  rw [error?] at h
  split at h
  · cases h
  · next hnone =>
    have hne := List.find?_eq_none.mp hnone _ hsize
    refine Nat.pos_of_ne_zero fun hzero => hne ?_
    rw [beq_iff_eq]
    exact BitVec.eq_of_toNat_eq hzero

/-! ### Between two cycles -/

namespace Simulator

open OutOfOrder.Sequential

variable {s start : Simulator} {init final : Sequential} {is js program : List Instruction}
  {es : List Event} {n : Nat}

/-- There is room in the core, and for an instruction in the queue. -/
structure Equipped (s : Simulator) : Prop where
  consistent : s.core.Consistent
  roomy : s.snapshot.Roomy
  queue : 0 < s.queue.capacity

namespace Equipped

theorem beforeFetch (h : s.Equipped) : s.beforeFetch.Equipped := by
  obtain ⟨hc, hroomy, hqueue⟩ := Snapshot.tick_keeps (s := s.snapshot)
    (P := fun u => u.core.Consistent ∧ u.Roomy ∧ 0 < u.queue.capacity)
    (fun hstep ⟨hc, hroomy, hqueue⟩ =>
      ⟨hc.step hstep, hroomy.step hstep hc, hstep.queue_capacity ▸ hqueue⟩)
    ⟨h.consistent, h.roomy, h.queue⟩
  exact ⟨hc, hroomy, hqueue⟩

theorem followRedirect (h : s.Equipped) : s.followRedirect.Equipped := by
  obtain ⟨_, _, _, heq⟩ := s.followRedirect_eq
  rw [heq]
  exact ⟨h.consistent.congr (fun hs => hs.congr rfl rfl) id rfl (fun _ => rfl) rfl,
    ⟨h.roomy.window, h.roomy.stations⟩, h.queue⟩

theorem accept (h : s.Equipped) (i : Instruction) : (s.accept i).Equipped := by
  refine ⟨h.consistent, ⟨h.roomy.window, h.roomy.stations⟩, ?_⟩
  rw [Simulator.accept]
  dsimp only
  cases hq : s.queue.push? i with
  | none => exact h.queue
  | some q => exact Nat.lt_of_lt_of_eq h.queue (Snapshot.capacity_of_push? hq).symm

theorem tick (h : s.Equipped) : s.tick.next.Equipped := by
  rcases tick_cases s with ⟨-, hnext, -⟩ | ⟨hnext, -⟩ | ⟨i, -, -, -, hnext, -⟩
  · rw [hnext]
    exact h.beforeFetch
  · rw [hnext]
    exact h.beforeFetch.followRedirect
  · rw [hnext]
    exact h.beforeFetch.followRedirect.accept i

end Equipped

/-- Everything that holds of a simulator between two cycles, when `is` has been fetched so far. -/
structure Underway (s : Simulator) (init : Sequential) (is : List Instruction) : Prop where
  numbered : Numbered is
  uuid : ∀ (n : Nat) (i : Instruction), is[n]? = some i → i.uuid = n
  inStep : s.InStep init is is.length
  handshake : ∃ es, s.Handshake is es is.length
  mailbox : s.core.redirect = none
  equipped : s.Equipped

/-- A simulator that has not begun. -/
structure Fresh (s : Simulator) (init : Sequential) : Prop where
  inStep : ∀ is, s.InStep init is 0
  handshake : ∀ is, s.Handshake is [] 0
  mailbox : s.core.redirect = none
  equipped : s.Equipped
  cycle : s.core.cycle = 0

theorem Fresh.underway (hstart : start.Fresh init) (h : start.Cycles is es s) :
    s.Underway init is := by
  have hzero := (hstart.inStep is).nextUuid
  have hnum := h.numbered hzero
  obtain ⟨hshake, hempty⟩ := h.handshake (List.prefix_refl is) hnum (hstart.inStep is)
    (hstart.handshake is) hstart.mailbox
  refine ⟨hnum, (h.uuid hzero).2, h.inStep (List.prefix_refl is) hnum (hstart.inStep is),
    ⟨es, hshake⟩, hempty, ?_⟩
  clear hshake hempty hnum
  induction h with
  | refl => exact hstart.equipped
  | tick _ ih => exact ih.tick

theorem fresh_new {c : Config} {s : Simulator} (h : Simulator.new c = .ok s) (m : Memory)
    (limit : Nat) : ({ s with memory := m, maxCycles := limit } : Simulator).Fresh
      { memory := m, pc := c.run.startPc } := by
  refine ⟨fun is => ?_, fun is => ?_, (handshake_new h m []).2, ?_, ?_⟩
  · obtain ⟨htrack, hsteered, hnext, hpc, hstopped, hfetched⟩ := inStep_new h m is
    exact ⟨htrack, hsteered, hnext, hpc, hstopped, hfetched⟩
  · obtain ⟨hanswers, htold, hcommitted, hexits, hwait, hrun, hstop⟩ := (handshake_new h m is).1
    exact ⟨hanswers, htold, hcommitted, hexits, hwait, hrun, hstop⟩
  · obtain ⟨hok, rfl⟩ := new_eq_ok h
    refine ⟨Core.consistent_new c.core, ⟨?_, ?_⟩, ?_⟩
    · exact Config.size_pos hok List.mem_cons_self
    · exact Nat.lt_of_lt_of_eq
        (Config.size_pos hok (List.mem_cons_of_mem _ List.mem_cons_self))
        List.length_replicate.symm
    · exact Config.size_pos hok
        (List.mem_cons_of_mem _ (List.mem_cons_of_mem _ List.mem_cons_self))
  · obtain ⟨-, rfl⟩ := new_eq_ok h
    rfl

/-! ### Nothing can go wrong -/

section Finishes

variable (h : s.Underway init is) (hends : init.Finishes program final)
  (hcounter : ∀ i ∈ program, i.touchesCounter = false)
  (hcode : ∀ t u a, init.Visits t → init.Visits u → t.Stores a → ¬u.FetchesFrom a)

include h hends hcounter hcode

/-- Every fault would be one of the program. -/
theorem Underway.tick_ok : s.tick.fault = none := by
  have hcounter : ∀ js t, init.Runs js t → ∀ i ∈ js, i.touchesCounter = false :=
    fun js t hruns i hi => hcounter i ((hends.prefix_of_runs hruns).subset hi)
  cases hfault : s.tick.fault with
  | none => rfl
  | some e =>
    exfalso
    rcases tick_of_fault hfault with ⟨f, hcore, -⟩ | ⟨-, hrun, hword, -⟩
    · obtain ⟨i, t, hat, -⟩ := h.inStep.failsAt_of_core h.uuid hcounter hcode h.numbered hcore
      exact hends.not_fails hat.before
    · have hs := (h.inStep.beforeFetch h.numbered).followRedirect
      rcases hs.fails_of_fetch h.uuid hcounter hcode hrun hword with
        ⟨t, hfails, -⟩ | ⟨i, t, f, hat, -⟩
      · exact hends.not_fails hfails
      · exact hends.not_fails hat.before

/-- Everything that is fetched is executed by the program. -/
theorem Underway.length_le : is.length ≤ program.length := by
  have hcounter : ∀ js t, init.Runs js t → ∀ i ∈ js, i.touchesCounter = false :=
    fun js t hruns i hi => hcounter i ((hends.prefix_of_runs hruns).subset hi)
  rcases h.inStep.executes_or_fails hcounter hcode (Nat.le_refl _) with
    ⟨-, hexec⟩ | ⟨l, i, f, -, hi, hfree, hexec, hfails⟩
  · have hruns := hexec.runs fun m i hm hi => h.inStep.isExit_eq_false hm hi
    have hle := (hends.prefix_of_runs hruns).length_le
    rwa [List.take_length, List.length_map] at hle
  · exact absurd (h.inStep.failsAt h.uuid hcode hi (hfree.mono (Nat.le_succ l)) hexec hfails).before
      hends.not_fails

end Finishes

/-! ### Every cycle gets nearer to the end -/

/-- How much is left to do until `n` instructions have been fetched and have retired. -/
def remaining (s : Simulator) (n : Nat) : Nat := s.core.ahead n + (n - s.nextUuid)

/-- Fetching leaves alone what is ahead of the core. -/
theorem ahead_tick_next (s : Simulator) (n : Nat) :
    s.tick.next.core.ahead n = s.snapshot.tick.core.ahead n := by
  obtain ⟨_, _, _, heq⟩ := s.beforeFetch.followRedirect_eq
  have hfollowed : s.beforeFetch.followRedirect.core.ahead n = s.beforeFetch.core.ahead n := by
    rw [heq]
    rfl
  rcases tick_cases s with ⟨-, hnext, -⟩ | ⟨hnext, -⟩ | ⟨i, -, -, -, hnext, -⟩
  · rw [hnext]
    rfl
  · rw [hnext, hfollowed]
    rfl
  · rw [hnext]
    exact hfollowed

/-- With an empty queue, a cycle of the core issues nothing. -/
theorem queue_tick_of_isEmpty {c : Core} {q : IssueQueue} {m : Memory} (h : q.isEmpty = true) :
    (c.tick q m).queue = q := by
  have hissue : (c.beginCycle.issue q).queue = q := by
    rw [Core.issue, IssueQueue.pop?, List.isEmpty_iff.mp h]
  rw [Core.tick]
  split
  · rfl
  · dsimp only
    split
    · exact hissue
    · exact hissue

/-- When fetching runs and the queue has room, it fails or fetches an instruction. -/
theorem fetchNext_of_running (hrun : s.followRedirect.fetch = .running)
    (hroom : s.followRedirect.queue.isFull = false) (hok : s.fetchNext.fault = none) :
    ∃ i, s.fetchNext.instruction = some i := by
  rw [fetchNext] at hok ⊢
  rw [if_neg (by rw [hrun, hroom]; simp)] at hok ⊢
  cases hword : s.followRedirect.fetchWord with
  | error e =>
    rw [hword] at hok
    cases hok
  | ok i => exact ⟨i, rfl⟩

/-- When nothing is in flight and the machine has not halted, fetching runs. -/
theorem Underway.running_of_idle (h : s.Underway init is) (hrun : s.core.halted = false)
    (hidle : s.core.window.isEmpty = true ∧ s.queue.isEmpty = true) : s.fetch = .running := by
  obtain ⟨es, hshake⟩ := h.handshake
  have hdeparted : is.length ≤ s.core.window.departed :=
    Nat.le_of_not_lt fun hlt => h.inStep.onTrack.busy_iff.mpr hlt hidle
  cases hfetch : s.fetch with
  | running => rfl
  | awaitRedirect =>
    -- what fetching waits for is in flight
    obtain ⟨i, -, -, heq⟩ := (hshake.unresolved_eq h.inStep h.mailbox h.numbered).1 hfetch
    have hsub := s.unresolved_sublist
    rw [heq, pipeline, List.isEmpty_iff.mp hidle.1, List.isEmpty_iff.mp hidle.2] at hsub
    cases hsub
  | stopped =>
    -- the last instruction has retired, and it ends the program
    obtain ⟨j, i, hj, hi, hexit, -⟩ := hshake.stopped hfetch
    have hhalted : s.core.halted = true :=
      (hshake.exits j i (Nat.lt_of_lt_of_le (by omega) hdeparted) hi hexit).2
    rw [hrun] at hhalted
    cases hhalted

/-- So it fetches something. -/
theorem Underway.fetched_of_idle (h : s.Underway init is) (hrun : s.core.halted = false)
    (hidle : s.core.window.isEmpty = true ∧ s.queue.isEmpty = true) (hok : s.tick.fault = none) :
    ∃ i, s.tick.fetched = some i := by
  obtain ⟨-, hfault, hfetched⟩ := tick_of_ok hok
  rw [hfetched]
  have hrunning := h.running_of_idle hrun hidle
  have hbefore : s.beforeFetch.fetch = .running := hrunning
  refine fetchNext_of_running ?_ ?_ hfault
  · rw [followRedirect_fetch (by rw [hbefore]; nofun), hbefore]
  · obtain ⟨_, _, _, heq⟩ := s.beforeFetch.followRedirect_eq
    rw [heq, beforeFetch]
    dsimp only
    rw [queue_tick_of_isEmpty hidle.2, IssueQueue.isFull, IssueQueue.length,
      List.isEmpty_iff.mp hidle.2]
    exact decide_eq_false (Nat.not_le_of_lt h.equipped.queue)

/-- Every cycle leaves less to do. -/
theorem Underway.remaining_lt (h : s.Underway init is)
    (hnext : s.tick.next.Underway init (is ++ s.tick.fetched.toList))
    (hn : (is ++ s.tick.fetched.toList).length ≤ n) (hrun : s.core.halted = false)
    (hok : s.tick.fault = none) : s.tick.next.remaining n < s.remaining n := by
  rw [remaining, remaining, ahead_tick_next, h.inStep.nextUuid, hnext.inStep.nextUuid]
  rw [List.length_append] at hn ⊢
  have hle := (s.snapshot.steps_tick.ahead_le h.inStep.onTrack h.numbered
    (Nat.le_trans (Nat.le_add_right _ _) hn)).2
  have hsame : s.snapshot.core.ahead n = s.core.ahead n := rfl
  by_cases hidle : s.core.window.isEmpty = true ∧ s.queue.isEmpty = true
  · obtain ⟨i, hi⟩ := h.fetched_of_idle hrun hidle hok
    rw [hi, Option.toList_some, List.length_singleton] at hn ⊢
    omega
  · have hlt := Snapshot.tick_works h.inStep.onTrack h.numbered
      (Nat.le_trans (Nat.le_add_right _ _) hn) h.equipped.roomy hrun
      (tick_core s ▸ (tick_of_ok hok).1) hidle
    omega

/-- A run with as many cycles as there is left to do does not fail. -/
theorem runFor_ok {α : Type} {gather : α → Simulator → Tick → α} {a : α} {budget : Nat}
    (hstart : start.Fresh init) (hends : init.Finishes program final)
    (hcounter : ∀ i ∈ program, i.touchesCounter = false)
    (hcode : ∀ t u a, init.Visits t → init.Visits u → t.Stores a → ¬u.FetchesFrom a)
    (h : start.Cycles is es s) (hbudget : s.remaining program.length ≤ budget) :
    (runFor gather budget s a).fault = none := by
  have hworks : ∀ {is es s}, start.Cycles is es s → ¬s.core.halted = true →
      s.tick.fault = none ∧ s.tick.next.remaining program.length < s.remaining program.length := by
    intro is es s h hrun
    have hs := hstart.underway h
    have hs' := hstart.underway h.tick
    have hok := hs.tick_ok hends hcounter hcode
    exact ⟨hok, hs.remaining_lt hs' (hs'.length_le hends hcounter hcode)
      (Bool.of_not_eq_true hrun) hok⟩
  induction budget generalizing is es s a with
  | zero =>
    rw [runFor]
    split
    · rfl
    · next hrun =>
      -- as a cycle would leave less to do, there is something left to do
      have hlt := (hworks h hrun).2
      omega
  | succ budget ih =>
    rw [runFor]
    split
    · rfl
    · next hrun =>
      obtain ⟨hok, hlt⟩ := hworks h hrun
      dsimp only
      rw [hok]
      exact ih h.tick (by omega)

/-- **Programs that end, end in the simulator.** If the sequential machine, from any contents of
memory, executes a program to its end without a fault, and accesses no performance counter and
stores to no byte of an instruction that it fetches, then a run of the simulator that may take
enough cycles ends without a fault, whatever the sizes, the latencies and the policy of the
bus. -/
theorem run_completes {c : Config} {s : Simulator} (hnew : Simulator.new c = .ok s) (m : Memory)
    {program : List Instruction} {final : Sequential}
    (hends : Finishes { memory := m, pc := c.run.startPc } program final)
    (hcounter : ∀ i ∈ program, i.touchesCounter = false)
    (hcode : ∀ t u a, Visits { memory := m, pc := c.run.startPc } t →
      Visits { memory := m, pc := c.run.startPc } u → t.Stores a → ¬u.FetchesFrom a) :
    ∃ cycles, ∀ limit, cycles ≤ limit →
      ({ s with memory := m, maxCycles := limit } : Simulator).run.fault = none := by
  refine ⟨s.remaining program.length, fun limit hlimit => ?_⟩
  have hstart := fresh_new hnew m limit
  refine runFor_ok hstart hends hcounter hcode .refl ?_
  rw [budget, hstart.cycle]
  exact hlimit

/-- A program that loads a constant, jumps over a word that is no instruction, and ends. -/
def skipping : Memory :=
  (Memory.empty 0 1048576).poke 0
    ([0x00500093, 0x0080006F, 0, 0x00000073].flatMap (Word.bytes 4))

theorem run_completes_skipping : ∃ s cycles, Simulator.new {} = .ok s ∧ ∀ limit, cycles ≤ limit →
    ({ s with memory := skipping, maxCycles := limit } : Simulator).run.fault = none := by
  obtain ⟨s, hnew⟩ : ∃ s, Simulator.new {} = .ok s := ⟨_, rfl⟩
  obtain ⟨i₁, s₁, i₂, s₂, i₃, s₃, h₁, h₂, h₃, hgo₁, hgo₂, hexit, hcount, hunit⟩ :
      ∃ i₁ s₁ i₂ s₂ i₃ s₃, ({ memory := skipping } : Sequential).step = .ok (i₁, s₁) ∧
        s₁.step = .ok (i₂, s₂) ∧ s₂.step = .ok (i₃, s₃) ∧ i₁.isExit = false ∧ i₂.isExit = false ∧
        i₃.isExit = true ∧ [i₁, i₂, i₃].all (fun i => i.touchesCounter == false) = true ∧
        [i₁, i₂, i₃].all (fun i => i.unit ≠ .memory) = true :=
    ⟨_, _, _, _, _, _, rfl, rfl, rfl, rfl, rfl, rfl, rfl, rfl⟩
  have hends : Finishes { memory := skipping } [i₁, i₂, i₃] s₃ :=
    ⟨.cons h₁ hgo₁ (.cons h₂ hgo₂ (.exit h₃ hexit)), i₃, rfl, hexit⟩
  have hcounter : ∀ i ∈ [i₁, i₂, i₃], i.touchesCounter = false := fun i hi =>
    eq_of_beq (List.all_eq_true.mp hcount i hi)
  -- the program does not store to anything
  have hcode : ∀ t u a, Visits { memory := skipping } t → Visits { memory := skipping } u →
      t.Stores a → ¬u.FetchesFrom a := by
    rintro t u a ht - ⟨i, after, addr, width, value, hstep, haccess, -⟩
    have hmem := hends.mem_of_visits ht hstep
    have hne := of_decide_eq_true (List.all_eq_true.mp hunit i hmem)
    rw [Instruction.access?, if_neg hne] at haccess
    cases haccess
  obtain ⟨cycles, hcycles⟩ := run_completes hnew skipping hends hcounter hcode
  exact ⟨s, cycles, hnew, hcycles⟩

end Simulator

end OutOfOrder
