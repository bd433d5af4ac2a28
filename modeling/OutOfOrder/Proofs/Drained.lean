import OutOfOrder.Proofs.Conservation
import OutOfOrder.Proofs.Termination

/-!
# After the end of a program

Nothing empties the core when a program ends. That nothing is left in it has three reasons together:
instructions retire in the order in which they were fetched, fetching stops at the instruction that
ends the program, and what has retired has left no trace. So by the time this instruction retires it
is the youngest one, and with the window the stations, the units, the bus and the alias table are
empty.

The statistics count events, and the core counts for itself. In a run without fault the two counts
agree: a cycle reports its beginning once, and it reports every retirement, and the end of the
program in the cycle in which the core halts.

## Main definitions

* `Event.isMilestone`, `Statistics.progress` — the events that cycles and retirements are counted
  by, and the counts
* `Statistics.Tallies` — the statistics agree with the core
* `Simulator.Drained` — nothing is in flight, and nothing more will be fetched

## Main results

* `Statistics.Tallies.tick` — a cycle without fault keeps the counts together
* `Simulator.Drained.tick_eq` — a drained simulator does not change any more
* `Simulator.run_drains` — a run that ends without a fault leaves a drained simulator
-/

namespace OutOfOrder

/-! ### Milestones -/

/-- Does an event count towards the cycles, the retired instructions or the end of the program? -/
def Event.isMilestone : Event → Bool
  | cycle _ | commit _ _ | halt _ _ _ => true
  | _ => false

/-- Does an event say what came of an attempt to issue? -/
def Event.isAttempt : Event → Bool
  | issue .. | stall .windowFull | stall .stationsFull => true
  | _ => false

/-- Does an event come from between issue and retirement? -/
def Event.isMinor (e : Event) : Bool := !e.isMilestone && !e.isAttempt

theorem Event.isMilestone_of_isMinor {e : Event} (h : e.isMinor = true) :
    e.isMilestone = false := by
  rw [isMinor, Bool.and_eq_true, Bool.not_eq_true'] at h
  exact h.1

theorem Event.isAttempt_of_isMinor {e : Event} (h : e.isMinor = true) : e.isAttempt = false := by
  rw [isMinor, Bool.and_eq_true, Bool.not_eq_true', Bool.not_eq_true'] at h
  exact h.2

namespace Core

variable {c : Core} {q : IssueQueue} {m : Memory} {e : Event}

theorem isMilestone_issue (he : e ∈ (c.issue q).events) : e.isMilestone = false := by
  rcases cases_of_mem_issue he with ⟨_, _, _, _, _, rfl⟩ | ⟨_, rfl⟩ | ⟨_, rfl⟩ <;> rfl

theorem isMinor_publish (he : e ∈ c.publish.events) : e.isMinor = true := by
  rcases cases_of_mem_publish he with ⟨_, rfl⟩ | ⟨_, _, rfl⟩ <;> rfl

theorem isMinor_sideEffects {i : Instruction} {a b : Word} (he : e ∈ c.sideEffects m i a b) :
    e.isMinor = true := by
  rw [sideEffects] at he
  split at he
  · obtain rfl := List.mem_singleton.mp he
    rfl
  · obtain rfl := List.mem_singleton.mp he
    rfl
  · cases he

theorem isMinor_dispatchAt {slot : Slot} (he : e ∈ (c.dispatchAt m slot).events) :
    e.isMinor = true := by
  rw [dispatchAt] at he
  split at he
  · obtain rfl := List.mem_singleton.mp he
    rfl
  · split at he
    · obtain rfl := List.mem_singleton.mp he
      rfl
    · split at he
      · obtain rfl := List.mem_singleton.mp he
        rfl
      · split at he
        · rw [start] at he
          split at he
          · exact isMinor_sideEffects he
          · rcases List.mem_append.mp he with he | he
            · exact isMinor_sideEffects he
            · obtain rfl := List.mem_singleton.mp he
              rfl
        · obtain rfl := List.mem_singleton.mp he
          rfl

theorem isMinor_dispatchEach {slots : List Slot}
    (he : e ∈ (c.dispatchEach m slots).events) : e.isMinor = true := by
  induction slots generalizing c m with
  | nil => cases he
  | cons slot slots ih =>
    rw [dispatchEach] at he
    dsimp only at he
    split at he
    · exact isMinor_dispatchAt he
    · rcases List.mem_append.mp he with he | he
      · exact isMinor_dispatchAt he
      · exact ih he

theorem isMinor_wakeUp (he : e ∈ c.wakeUp.events) : e.isMinor = true := by
  rcases cases_of_mem_wakeUp he with ⟨_, rfl⟩ | ⟨_, _, rfl⟩ | ⟨_, rfl⟩ <;> rfl

/-- The events of a cycle: its beginning, an attempt to issue, what is minor, and the retirement if
the cycle gets there. -/
theorem events_tick (hrun : c.halted = false) :
    ∃ es, (∀ e ∈ es, e.isMinor = true) ∧
      (c.tick q m).events = .cycle c.cycle :: (c.beginCycle.issue q).events ++ es ++
        if (c.tick q m).fault.isSome then []
        else (c.dispatched q m).core.wakeUp.core.retire.events := by
  have hdispatch : ∀ e ∈ (c.beginCycle.issue q).core.advanceUnits.publish.events ++
      (c.dispatched q m).events, e.isMinor = true := fun e he =>
    (List.mem_append.mp he).elim isMinor_publish isMinor_dispatchEach
  cases hfault : (c.dispatched q m).fault with
  | some fault =>
    refine ⟨_, hdispatch, ?_⟩
    rw [tick_eq_of_fault hrun hfault]
    simp only [List.append_assoc, Option.isSome_some, if_true, List.append_nil]
  | none =>
    refine ⟨_ ++ (c.dispatched q m).core.wakeUp.events, fun e he =>
      (List.mem_append.mp he).elim (hdispatch e) isMinor_wakeUp, ?_⟩
    rw [tick_eq_of_ok hrun hfault]
    simp only [List.cons_append, List.append_assoc]
    rfl

/-- After the beginning of a cycle there are no milestones until something retires. -/
theorem milestones_tick (hrun : c.halted = false) : ∃ es, (∀ e ∈ es, e.isMilestone = false) ∧
    (c.tick q m).events = .cycle c.cycle :: es ++
      if (c.tick q m).fault.isSome then []
      else (c.dispatched q m).core.wakeUp.core.retire.events := by
  obtain ⟨es, hminor, hevents⟩ := c.events_tick (q := q) (m := m) hrun
  refine ⟨(c.beginCycle.issue q).events ++ es, fun e he => ?_, hevents⟩
  rcases List.mem_append.mp he with he | he
  · exact isMilestone_issue he
  · exact Event.isMilestone_of_isMinor (hminor e he)

end Core

/-! ### Counts -/

namespace Statistics

variable {s : Statistics} {es : List Event} {c : Core} {q : IssueQueue} {m : Memory}

/-- The counts of cycles and retired instructions, and the cycle in which the program ended. -/
def progress (s : Statistics) : Nat × Nat × Option Nat := (s.cycles, s.retired, s.haltCycle)

theorem progress_record {e : Event} (he : e.isMilestone = false) :
    (s.record e).progress = s.progress := by
  cases e with
  | cycle number => cases he
  | commit tag e => cases he
  | halt cycle retired pc => cases he
  | stall reason => cases reason <;> rfl
  | _ => rfl

theorem progress_recordAll (he : ∀ e ∈ es, e.isMilestone = false) :
    (s.recordAll es).progress = s.progress := by
  induction es generalizing s with
  | nil => rfl
  | cons e es ih =>
    have htail := ih (s := s.record e) fun e' he' => he e' (List.mem_cons_of_mem _ he')
    exact htail.trans (progress_record (he e List.mem_cons_self))

theorem recordAll_append (es fs : List Event) :
    s.recordAll (es ++ fs) = (s.recordAll es).recordAll fs := List.foldl_append

/-- The statistics agree with the core. -/
structure Tallies (s : Statistics) (c : Core) : Prop where
  cycles : s.cycles = c.cycle
  retired : s.retired = c.retired
  /-- The program ended in the last cycle. -/
  haltCycle : s.haltCycle = if c.halted then some (c.cycle - 1) else none
  cycle_pos : c.halted = true → 0 < c.cycle

theorem Tallies.congr {d : Core} (h : s.Tallies c) (hcycle : d.cycle = c.cycle)
    (hretired : d.retired = c.retired) (hhalted : d.halted = c.halted) : s.Tallies d := by
  refine ⟨h.cycles.trans hcycle.symm, h.retired.trans hretired.symm, ?_, ?_⟩
  · rw [hhalted, hcycle]
    exact h.haltCycle
  · rw [hhalted, hcycle]
    exact h.cycle_pos

/-- Retirement counts what it reports. -/
theorem tallies_retire (hs : s.progress = (c.cycle + 1, c.retired, none))
    (hrun : c.halted = false) :
    (s.recordAll c.retire.events).Tallies c.retire.core.endCycle := by
  obtain ⟨hcycles, hs⟩ := Prod.mk.inj hs
  obtain ⟨hretired, hhalt⟩ := Prod.mk.inj hs
  rw [Core.retire]
  split
  · refine ⟨hcycles, hretired, ?_, fun _ => Nat.succ_pos _⟩
    rw [Core.endCycle, Core.quiet, hrun]
    exact hhalt
  · next tag e window hcommit =>
    have hcore : ({ c with window }.committing tag e).cycle = c.cycle ∧
        ({ c with window }.committing tag e).retired = c.retired + 1 ∧
        ({ c with window }.committing tag e).halted = e.instruction.isExit := by
      rw [Core.committing]
      cases e.instruction.dest <;> exact ⟨rfl, rfl, by rw [hrun, Bool.false_or]⟩
    obtain ⟨hcycle, hcount, hhalted⟩ := hcore
    dsimp only
    generalize hes : Event.commit tag e :: _ = es
    have hcounts : (s.recordAll es).cycles = s.cycles ∧ (s.recordAll es).retired = s.retired + 1 ∧
        (s.recordAll es).haltCycle = if e.instruction.isExit then some c.cycle else none := by
      rw [← hes, ← hhalt]
      split <;> exact ⟨rfl, rfl, rfl⟩
    refine ⟨?_, ?_, ?_, fun _ => Nat.succ_pos _⟩
    · rw [hcounts.1, hcycles, Core.endCycle, hcycle]
    · rw [hcounts.2.1, hretired, Core.endCycle, hcount]
    · rw [hcounts.2.2, Core.endCycle, hhalted, hcycle]
      rfl

/-- A cycle without fault keeps the counts together. -/
theorem Tallies.tick (h : s.Tallies c) (hok : (c.tick q m).fault = none) :
    (s.recordAll (c.tick q m).events).Tallies (c.tick q m).core := by
  cases hrun : c.halted with
  | true =>
    rw [Core.tick, if_pos hrun]
    exact h
  | false =>
    obtain ⟨es, hquiet, hevents⟩ := c.milestones_tick (q := q) (m := m) hrun
    rw [hok, Option.isSome_none, if_neg Bool.false_ne_true] at hevents
    have hhalt := h.haltCycle
    rw [hrun, if_neg Bool.false_ne_true] at hhalt
    obtain ⟨hcycle, hretired, hhalted⟩ := c.counts_wakeUp q m
    rw [hevents, (Core.tick_of_ok hrun ((Core.fault_tick hrun).symm.trans hok)).2, recordAll_append]
    refine tallies_retire ?_ (hhalted.trans hrun)
    have hrecord : (s.recordAll (.cycle c.cycle :: es)).progress =
        (c.cycle + 1, s.retired, none) := by
      rw [← hhalt]
      exact progress_recordAll (s := s.record (.cycle c.cycle)) hquiet
    rw [hrecord, hcycle, hretired, h.retired]

end Statistics

/-! ### Runs -/

namespace Simulator

variable {s t start : Simulator} {init : Sequential} {is : List Instruction} {es : List Event}

theorem tallies_followRedirect (h : s.statistics.Tallies s.core) :
    s.followRedirect.statistics.Tallies s.followRedirect.core := by
  obtain ⟨_, _, _, heq⟩ := s.followRedirect_eq
  rw [heq]
  exact h.congr rfl rfl rfl

/-- In a run without fault the statistics agree with the core. -/
theorem Fetches.tallies (h : start.Fetches is s) (hstart : start.statistics.Tallies start.core) :
    s.statistics.Tallies s.core := by
  induction h with
  | refl => exact hstart
  | @tick is s h hok ih =>
    have hcore := (tick_of_ok hok).1
    rw [tick_core] at hcore
    have hbefore : s.beforeFetch.statistics.Tallies s.beforeFetch.core := ih.tick hcore
    rcases tick_cases s with ⟨-, hnext, -⟩ | ⟨hnext, -⟩ | ⟨i, -, -, -, hnext, -⟩
    · rw [hnext]
      exact hbefore
    · rw [hnext]
      exact tallies_followRedirect hbefore
    · rw [hnext]
      exact tallies_followRedirect hbefore

/-- Nothing is in flight, and nothing more will be fetched. -/
structure Drained (s : Simulator) : Prop where
  halted : s.core.halted = true
  idle : s.core.isIdle = true
  queue : s.queue.isEmpty = true
  aliases : s.core.aliases.pending = 0
  mailbox : s.core.redirect = none
  fetch : s.fetch = .stopped

/-- A cycle of a drained simulator changes nothing and does not fail. -/
theorem Drained.tick_eq (h : s.Drained) : s.tick =
    { next := s
      core := { core := s.core, queue := s.queue, memory := s.memory, events := [] } } := by
  have hcore : s.core.tick s.queue s.memory =
      { core := s.core, queue := s.queue, memory := s.memory, events := [] } := by
    rw [Core.tick, if_pos h.halted]
  have hfetch : s.fetchNext = { next := s } := by
    rw [fetchNext, followRedirect, Core.takeRedirect, h.mailbox]
    exact if_pos (.inl (by rw [h.fetch]; decide))
  rw [tick, hcore]
  change Tick.mk s.fetchNext.next _ s.fetchNext.instruction s.fetchNext.fault = _
  rw [hfetch]

theorem Drained.cycles_eq (h : s.Drained) (hcycles : s.Cycles is es t) :
    t = s ∧ is = [] ∧ es = [] := by
  induction hcycles with
  | refl => exact ⟨rfl, rfl, rfl⟩
  | tick _ ih =>
    obtain ⟨rfl, rfl, rfl⟩ := ih
    rw [h.tick_eq]
    exact ⟨rfl, rfl, rfl⟩

/-- When the core has halted, everything that was fetched has left, and nothing more comes. -/
theorem InStep.drained_of_halted (hs : s.InStep init is is.length)
    (hhalted : s.core.halted = true) (hmailbox : s.core.redirect = none) :
    s.Drained ∧ s.core.window.departed = is.length ∧
      ∃ i, is.getLast? = some i ∧ i.isExit = true := by
  have hsound := hs.onTrack.sound
  obtain ⟨hdeparted, hempty, i, hi, hexit⟩ := hs.retired_of_halted hhalted
  have hlt := (List.getElem?_eq_some_iff.mp hi).1
  have hpipeline := pipeline_eq hs.onTrack.follows
  rw [hdeparted, List.drop_length, pipeline, List.append_eq_nil_iff] at hpipeline
  refine ⟨⟨hhalted, hsound.consistent.isIdle hempty, List.isEmpty_iff.mpr hpipeline.2, ?_,
    hmailbox, (hs.stopped hlt hi hexit).2⟩, hdeparted, i, ?_, hexit⟩
  · refine AliasTable.pending_eq_zero_iff.mpr fun r =>
      hsound.renamed.alias_eq_none_iff.mpr fun u hu => ?_
    rw [snapshot, ReorderBuffer.toList, List.isEmpty_iff.mp hempty] at hu
    cases hu
  · rw [List.getLast?_eq_getElem?, hi]

theorem tallies_new {c : Config} (h : Simulator.new c = .ok s) : s.statistics.Tallies s.core := by
  obtain ⟨-, rfl⟩ := new_eq_ok h
  exact ⟨rfl, rfl, rfl, fun hhalted => absurd hhalted Bool.false_ne_true⟩

/-- **A simulator that has come to an end is empty, and its statistics are right.** If a run ends
without a fault, from any contents of memory, then nothing is left in the queue, in the window, in
the stations, in the units, on the bus or in the alias table, and fetching has stopped. What has
retired is everything that was ever fetched; the last of it ends the program, and nothing before it
does. The statistics show the cycles and the retired instructions that the core has counted, and the
cycle before the current one as that in which the program ended. No further cycle fails or changes
anything. -/
theorem run_drains {c : Config} (hnew : Simulator.new c = .ok s) (m : Memory)
    (hok : ({ s with memory := m } : Simulator).run.fault = none) :
    let final := ({ s with memory := m } : Simulator).run.final
    final.Drained ∧
      (∃ is es i, ({ s with memory := m } : Simulator).Cycles is es final ∧
        es.filterMap Event.committed? = is ∧ final.nextUuid = is.length ∧
        is.getLast? = some i ∧ i.isExit = true ∧ ∀ j ∈ is.dropLast, j.isExit = false) ∧
      final.core.retired = final.nextUuid ∧
      final.statistics.cycles = final.core.cycle ∧
      final.statistics.retired = final.core.retired ∧
      0 < final.core.cycle ∧ final.statistics.haltCycle = some (final.core.cycle - 1) ∧
      ∀ is es t, final.Cycles is es t → t = final ∧ is = [] ∧ es = [] ∧ t.tick.fault = none := by
  intro final
  obtain ⟨is, hfetches, hhalted⟩ := fetches_of_run hok
  obtain ⟨es, hcycles⟩ := hfetches.cycles
  have hstart := inStep_new hnew m is
  have hnum := hfetches.numbered hstart.nextUuid
  have hs : final.InStep _ is is.length := hfetches.inStep (List.prefix_refl is) hnum hstart
  obtain ⟨hshake, hmailbox⟩ := hcycles.handshake (List.prefix_refl is) hnum hstart
    (handshake_new hnew m is).1 (handshake_new hnew m is).2
  obtain ⟨hdrained, hdeparted, i, hlast, hexit⟩ := hs.drained_of_halted hhalted hmailbox
  have hnewTallies := tallies_new hnew
  have htallies : final.statistics.Tallies final.core := hfetches.tallies hnewTallies
  have hhalt := htallies.haltCycle
  rw [hhalted, if_pos rfl] at hhalt
  refine ⟨hdrained, ⟨is, es, i, hcycles, ?_, hs.nextUuid, hlast, hexit, hs.isExit_of_mem_dropLast⟩,
    ?_, htallies.cycles, htallies.retired, htallies.cycle_pos hhalted, hhalt, ?_⟩
  · rw [hshake.committed, hdeparted, List.take_length]
  · exact (hs.onTrack.follows.retired.trans hdeparted).trans hs.nextUuid.symm
  · intro js fs t ht
    obtain ⟨rfl, hjs, hfs⟩ := hdrained.cycles_eq ht
    exact ⟨rfl, hjs, hfs, by rw [hdrained.tick_eq]⟩

/-- A program of four instructions that stores and jumps. -/
theorem run_drains_jumping :
    ∃ s, Simulator.new { run := { maxCycles := 30 } } = .ok s ∧
      ({ s with memory := jumping } : Simulator).run.final.Drained ∧
      ({ s with memory := jumping } : Simulator).run.final.core.retired = 4 := by
  obtain ⟨s, hnew, hok, hretired⟩ : ∃ s, Simulator.new { run := { maxCycles := 30 } } = .ok s ∧
      ({ s with memory := jumping } : Simulator).run.fault = none ∧
      ({ s with memory := jumping } : Simulator).run.final.core.retired = 4 := ⟨_, rfl, rfl, rfl⟩
  exact ⟨s, hnew, (run_drains hnew jumping hok).1, hretired⟩

end Simulator

end OutOfOrder
