import OutOfOrder.Proofs.Drained
import OutOfOrder.Proofs.Guards

/-!
# The statistics of any number of cycles

Every count of the statistics is the number of events of some kind, so what the statistics say about
the core is what these events say about it. Retirements are reported one by one, and so are the
instructions that enter the window. The attempts to issue are reported whether they succeed or not:
there is one in every cycle of a core that has not halted, if anything waits in the queue, and then
either an instruction enters the window, or one of two stalls is counted.

Cycles that fail are the exception. Such a cycle reports its beginning, but the core does not count
it, and tries the same cycle again. So the statistics are one cycle ahead of the core as long as the
last cycle has failed in the core, and they are right again with the next one that does not.

## Main definitions

* `UnitCounts.total` — the numbers of all units together
* `Simulator.stumbled` — the last cycle of a core that had not halted has failed in the core

## Main results

* `Statistics.count_recordAll` — a count is the number of its events
* `Core.countP_isAttempt_tick` — the attempts to issue in a cycle
* `Simulator.Cycles.issued`, `Simulator.Fresh.reported` — what is reported as issued is what has
  entered the window, and what is reported as committed has retired
* `Simulator.tallies_after` — but for the number of cycles, the statistics agree with the core
* `Simulator.statistics_account` — the statistics account for every cycle
-/

namespace OutOfOrder

/-! ### Counting events -/

/-- The numbers of all units together. -/
def UnitCounts.total (n : UnitCounts) : Nat := n.alu + n.branch + n.memory + n.system

theorem UnitCounts.get_increment (n : UnitCounts) (k l : UnitKind) :
    (n.increment k).get l = n.get l + if k = l then 1 else 0 := by
  cases k <;> cases l <;> rfl

theorem UnitCounts.total_increment (n : UnitCounts) (k : UnitKind) :
    (n.increment k).total = n.total + 1 := by
  cases k with
  | system => rfl
  | _ =>
    rw [total, increment, total]
    dsimp only
    omega

namespace Statistics

variable {s : Statistics} {c : Core} {q : IssueQueue} {m : Memory}

/-- If every event of some kind adds one to a count and no other event changes it, the count is the
number of these events. -/
theorem count_recordAll {f : Statistics → Nat} {p : Event → Bool}
    (h : ∀ s e, f (s.record e) = f s + if p e then 1 else 0) (s : Statistics) (es : List Event) :
    f (s.recordAll es) = f s + es.countP p := by
  induction es generalizing s with
  | nil => rfl
  | cons e es ih =>
    have hrest : f (s.recordAll (e :: es)) = f (s.record e) + es.countP p := ih (s.record e)
    rw [hrest, h, List.countP_cons]
    omega

theorem byUnit_recordAll (s : Statistics) (es : List Event) (k : UnitKind) :
    (s.recordAll es).byUnit.get k =
      s.byUnit.get k + (es.filterMap Event.committed?).countP fun i => i.unit = k := by
  rw [List.countP_filterMap]
  refine count_recordAll (f := fun s => s.byUnit.get k) (fun s e => ?_) s es
  cases e with
  | commit tag e =>
    refine (s.byUnit.get_increment e.instruction.unit k).trans ?_
    simp [Event.committed?]
  | stall reason => cases reason <;> rfl
  | _ => rfl

theorem total_byUnit_recordAll (s : Statistics) (es : List Event) :
    (s.recordAll es).byUnit.total =
      s.byUnit.total + (es.filterMap Event.committed?).length := by
  rw [List.length_filterMap_eq_countP]
  refine count_recordAll (f := fun s => s.byUnit.total) (fun s e => ?_) s es
  cases e with
  | commit tag e => exact s.byUnit.total_increment e.instruction.unit
  | stall reason => cases reason <;> rfl
  | _ => rfl

/-- What comes of the attempts to issue: an instruction is issued, or a stall is counted. -/
theorem attempts_recordAll (s : Statistics) (es : List Event) :
    (s.recordAll es).windowFull + (s.recordAll es).stationsFull +
        (es.filterMap Event.issued?).length =
      s.windowFull + s.stationsFull + es.countP Event.isAttempt := by
  rw [List.length_filterMap_eq_countP]
  induction es generalizing s with
  | nil => rfl
  | cons e es ih =>
    have hhead : (s.record e).windowFull + (s.record e).stationsFull +
          (if e.issued?.isSome then 1 else 0) =
        s.windowFull + s.stationsFull + if e.isAttempt then 1 else 0 := by
      cases e with
      | stall reason =>
        cases reason with
        | windowFull => exact Nat.add_right_comm s.windowFull 1 s.stationsFull
        | _ => rfl
      | _ => rfl
    have hrest : (s.recordAll (e :: es)).windowFull + (s.recordAll (e :: es)).stationsFull +
        es.countP (fun e => e.issued?.isSome) = _ := ih (s.record e)
    rw [List.countP_cons, List.countP_cons]
    omega

/-! ### Cycles that fail -/

/-- A cycle begins with its number, so how many cycles were counted before does not matter. -/
theorem recordAll_tick (hrun : c.halted = false) (s : Statistics) (n : Nat) :
    ({ s with cycles := n } : Statistics).recordAll (c.tick q m).events =
      s.recordAll (c.tick q m).events := by
  obtain ⟨es, -, hevents⟩ := c.milestones_tick (q := q) (m := m) hrun
  rw [hevents]
  rfl

/-- A cycle that fails in the core is counted by the statistics alone. -/
theorem Tallies.tick_of_fault {fault : MemoryError} (h : s.Tallies c) (hrun : c.halted = false)
    (hfault : (c.tick q m).fault = some fault) :
    ({ s.recordAll (c.tick q m).events with cycles := (c.tick q m).core.cycle }).Tallies
        (c.tick q m).core ∧
      (s.recordAll (c.tick q m).events).cycles = (c.tick q m).core.cycle + 1 := by
  obtain ⟨es, hquiet, hevents⟩ := c.milestones_tick (q := q) (m := m) hrun
  rw [hfault, Option.isSome_some, if_pos rfl, List.append_nil] at hevents
  have hprogress : (s.recordAll (c.tick q m).events).progress =
      (c.cycle + 1, s.retired, s.haltCycle) := by
    rw [hevents]
    exact progress_recordAll (s := s.record (.cycle c.cycle)) hquiet
  obtain ⟨hcycles, hrest⟩ := Prod.mk.inj hprogress
  obtain ⟨hretired, hhalt⟩ := Prod.mk.inj hrest
  obtain ⟨hcycle, hcount⟩ := Core.counts_tick_of_fault hrun hfault
  have hhalted := Core.tick_halted hrun hfault
  have hnone := h.haltCycle
  rw [hrun, if_neg Bool.false_ne_true] at hnone
  refine ⟨⟨rfl, (hretired.trans h.retired).trans hcount.symm, ?_, fun hhalt => ?_⟩,
    hcycles.trans (congrArg (· + 1) hcycle.symm)⟩
  · rw [hhalted, if_neg Bool.false_ne_true]
    exact hhalt.trans hnone
  · rw [hhalted] at hhalt
    cases hhalt

end Statistics

/-! ### Attempts to issue -/

namespace Core

variable {c : Core} {q : IssueQueue} {m : Memory} {e : Event}

theorem countP_isAttempt_issue (c : Core) (q : IssueQueue) :
    (c.issue q).events.countP Event.isAttempt = if q.isEmpty then 0 else 1 := by
  rw [issue]
  cases hq : q.waiting with
  | nil =>
    have hempty : q.isEmpty = true := List.isEmpty_iff.mpr hq
    rw [IssueQueue.pop?, hq, hempty]
    rfl
  | cons i rest =>
    have hempty : q.isEmpty = false := by rw [IssueQueue.isEmpty, hq]; rfl
    rw [IssueQueue.pop?, hq, hempty]
    dsimp only
    split
    · rfl
    · split
      · rfl
      · rfl

theorem isAttempt_retire (he : e ∈ c.retire.events) : e.isAttempt = false := by
  rcases cases_of_mem_retire he with ⟨_, _, rfl⟩ | ⟨_, _, _, rfl⟩ <;> rfl

/-- In a cycle of a core that has not halted there is one attempt to issue, if anything waits, and
otherwise there is none. -/
theorem countP_isAttempt_tick (c : Core) (q : IssueQueue) (m : Memory) :
    (c.tick q m).events.countP Event.isAttempt = if !c.halted && !q.isEmpty then 1 else 0 := by
  cases hrun : c.halted with
  | true =>
    rw [tick, if_pos hrun]
    rfl
  | false =>
    obtain ⟨es, hminor, hevents⟩ := c.events_tick (q := q) (m := m) hrun
    have hes : es.countP Event.isAttempt = 0 := List.countP_eq_zero.mpr fun e he =>
      Bool.not_eq_true _ ▸ Event.isAttempt_of_isMinor (hminor e he)
    have hlast : (if (c.tick q m).fault.isSome then [] else
        (c.dispatched q m).core.wakeUp.core.retire.events).countP Event.isAttempt = 0 := by
      split
      · rfl
      · exact List.countP_eq_zero.mpr fun e he => Bool.not_eq_true _ ▸ isAttempt_retire he
    rw [hevents, List.countP_append, List.countP_append, hes, hlast, List.countP_cons,
      countP_isAttempt_issue]
    cases q.isEmpty <;> rfl

end Core

/-! ### Cycle by cycle -/

namespace Simulator

variable {s start : Simulator} {init : Sequential} {is js : List Instruction} {es : List Event}

/-- What is reported as issued is what has entered the window. -/
theorem Cycles.issued (h : start.Cycles is es s) (his : is <+: js) (hnum : Numbered js)
    (hstart : start.InStep init js 0) :
    es.filterMap Event.issued? = js.take s.core.window.next := by
  induction h with
  | refl =>
    have hnext : start.core.window.next = 0 := Nat.le_zero.mp hstart.onTrack.follows.next_le
    rw [hnext]
    rfl
  | @tick is es s h ih =>
    have his' := (List.prefix_append _ _).trans his
    obtain ⟨redirect, hcore, -⟩ := s.tick_next_eq
    have hissued := (s.snapshot.journal_tick.keeps
      (P := fun es u => u.OnTrack init js is.length ∧
        es.filterMap Event.issued? = js.take u.core.window.next)
      (fun hr ⟨hs, hissued⟩ => by
        refine ⟨hs.report hnum hr, ?_⟩
        rw [List.filterMap_append, hissued]
        exact hs.follows.issued hr hs.sound.consistent)
      ⟨(h.inStep his' hnum hstart).onTrack, ih his'⟩).2
    rw [hcore, tick_core]
    exact hissued

/-- After so many cycles, what is reported as issued are the first instructions fetched, and so is
what is reported as committed. -/
theorem Fresh.reported (hstart : start.Fresh init) (n : Nat) :
    (start.reported n).filterMap Event.issued? =
        (start.fetched n).take (start.after n).core.window.next ∧
      (start.reported n).filterMap Event.committed? =
        (start.fetched n).take (start.after n).core.retired := by
  have hcycles := start.cycles_after n
  have hunder := hstart.underway hcycles
  have hretired : (start.after n).core.retired = (start.after n).core.window.departed :=
    hunder.inStep.onTrack.follows.retired
  refine ⟨hcycles.issued (List.prefix_refl _) hunder.numbered (hstart.inStep _), ?_⟩
  rw [hretired]
  exact (hcycles.handshake (List.prefix_refl _) hunder.numbered (hstart.inStep _)
    (hstart.handshake _) hstart.mailbox).1.committed

/-- In number, these are the instructions that have retired and those in the window, and those that
have retired. -/
theorem Fresh.length_reported (hstart : start.Fresh init) (n : Nat) :
    ((start.reported n).filterMap Event.issued?).length =
        (start.after n).core.retired + (start.after n).core.window.length ∧
      ((start.reported n).filterMap Event.committed?).length = (start.after n).core.retired := by
  obtain ⟨hissued, hcommitted⟩ := hstart.reported n
  have hf := (hstart.underway (start.cycles_after n)).inStep.onTrack.follows
  have hretired : (start.after n).core.retired = (start.after n).core.window.departed := hf.retired
  have hnext : (start.after n).core.window.next ≤ (start.fetched n).length := hf.next_le
  have hwindow : (start.after n).core.window.next =
      (start.after n).core.retired + (start.after n).core.window.length := by
    rw [hretired]
    rfl
  rw [hissued, hcommitted, List.length_take_of_le hnext, List.length_take_of_le (by omega)]
  exact ⟨hwindow, rfl⟩

theorem statistics_after (s : Simulator) (n : Nat) :
    (s.after n).statistics = s.statistics.recordAll (s.reported n) := by
  induction n with
  | zero => rfl
  | succ n ih =>
    obtain ⟨-, -, -, hstatistics, -⟩ := (s.after n).tick_next_eq
    rw [reported_succ, Statistics.recordAll_append, ← ih]
    exact hstatistics

/-- The attempts to issue in so many cycles. -/
theorem countP_isAttempt_reported (s : Simulator) (n : Nat) :
    (s.reported n).countP Event.isAttempt = (List.range n).countP fun k =>
      !(s.after k).core.halted && !(s.after k).queue.isEmpty := by
  induction n with
  | zero => rfl
  | succ n ih =>
    rw [reported_succ, List.countP_append, ih, tick_core, Core.countP_isAttempt_tick,
      List.range_succ, List.countP_append, List.countP_singleton]

/-- Of the first so many cycles, did the last one that began with a core that had not halted fail in
the core? -/
def stumbled (s : Simulator) (n : Nat) : Bool :=
  ((List.range n).filter fun k => !(s.after k).core.halted).getLast?.any fun k =>
    (s.after k).tick.core.fault.isSome

theorem stumbled_succ (s : Simulator) (n : Nat) : s.stumbled (n + 1) =
    if (s.after n).core.halted then s.stumbled n else (s.after n).tick.core.fault.isSome := by
  rw [stumbled, List.range_succ, List.filter_append]
  cases hhalted : (s.after n).core.halted with
  | true =>
    rw [List.filter_cons_of_neg (by rw [hhalted]; decide), List.filter_nil, List.append_nil]
    rfl
  | false =>
    rw [List.filter_cons_of_pos (by rw [hhalted]; decide), List.filter_nil, List.getLast?_concat]
    rfl

/-- But for the number of cycles, the statistics agree with the core at any time, and they are at
most one cycle ahead. -/
theorem tallies_after (h : start.statistics.Tallies start.core) (n : Nat) :
    let t := start.after n
    ({ t.statistics with cycles := t.core.cycle } : Statistics).Tallies t.core ∧
      t.statistics.cycles = t.core.cycle + if start.stumbled n then 1 else 0 := by
  induction n with
  | zero => exact ⟨⟨rfl, h.retired, h.haltCycle, h.cycle_pos⟩, h.cycles⟩
  | succ n ih =>
    obtain ⟨htallies, hcycles⟩ := ih
    obtain ⟨redirect, hcore, -, hstatistics, -⟩ := (start.after n).tick_next_eq
    rw [stumbled_succ]
    dsimp only [after]
    rw [hcore, hstatistics, tick_core]
    cases hrun : (start.after n).core.halted with
    | true =>
      rw [Core.tick, if_pos hrun, if_pos rfl]
      exact ⟨htallies.congr rfl rfl rfl, hcycles⟩
    | false =>
      rw [if_neg Bool.false_ne_true, ← Statistics.recordAll_tick hrun _ (start.after n).core.cycle]
      cases hfault : ((start.after n).core.tick (start.after n).queue
          (start.after n).memory).fault with
      | none =>
        have hticked := htallies.tick hfault
        exact ⟨⟨rfl, hticked.retired, hticked.haltCycle, hticked.cycle_pos⟩, hticked.cycles⟩
      | some fault =>
        obtain ⟨hticked, hlate⟩ := htallies.tick_of_fault hrun hfault
        exact ⟨hticked.congr rfl rfl rfl, hlate⟩

theorem retired_le_cycle_after (h : start.core.retired ≤ start.core.cycle) (n : Nat) :
    (start.after n).core.retired ≤ (start.after n).core.cycle := by
  induction n with
  | zero => exact h
  | succ n ih =>
    obtain ⟨redirect, hcore, -⟩ := (start.after n).tick_next_eq
    have hcounts := Snapshot.counts_tick (start.after n).core (start.after n).queue
      (start.after n).memory
    rw [after, hcore, tick_core]
    dsimp only
    omega

/-- **The statistics account for every cycle.** Let a new simulator, with any contents of memory,
run for any number of cycles, of which any may fail. Then

* what was reported as committed is the first part of what was fetched, as many instructions as the
  core has retired; the statistics show this number, they show for each unit how many of these
  instructions it has executed, and the numbers for the units add up;
* they show a cycle in which the program ended exactly if the core has halted, and then it is the
  one before the current cycle;
* they show as many cycles as the core has counted, and one more if the last cycle of a core that
  had not halted has failed in the core; and there are no more instructions retired than cycles;
* in every cycle that began with a core that had not halted and with something in the queue, failing
  ones included, there was one attempt to issue, and in the others there was none; and there are as
  many such cycles as stalls of the two kinds shown, instructions retired and instructions in the
  window, together. -/
theorem statistics_account {c : Config} {s : Simulator} (hnew : Simulator.new c = .ok s)
    (m : Memory) (n : Nat) :
    let start : Simulator := { s with memory := m }
    let t := start.after n
    let committed := (start.reported n).filterMap Event.committed?
    (committed = (start.fetched n).take t.core.retired ∧ committed.length = t.core.retired ∧
      t.statistics.retired = t.core.retired ∧ t.statistics.byUnit.total = t.core.retired ∧
      ∀ k, t.statistics.byUnit.get k = committed.countP fun i => i.unit = k) ∧
    (t.statistics.haltCycle = if t.core.halted then some (t.core.cycle - 1) else none) ∧
    (t.core.halted = true → 0 < t.core.cycle) ∧
    (t.statistics.cycles = t.core.cycle + if start.stumbled n then 1 else 0) ∧
    t.statistics.retired ≤ t.statistics.cycles ∧
    (∀ k, (start.after k).tick.core.events.countP Event.isAttempt =
      if !(start.after k).core.halted && !(start.after k).queue.isEmpty then 1 else 0) ∧
    ((List.range n).countP fun k =>
        !(start.after k).core.halted && !(start.after k).queue.isEmpty) =
      t.statistics.windowFull + t.statistics.stationsFull +
        (t.core.retired + t.core.window.length) := by
  intro start t committed
  have hstart := fresh_new hnew m s.maxCycles
  obtain ⟨-, hempty⟩ := new_eq_ok hnew
  obtain ⟨hentered, hlength⟩ := hstart.length_reported n
  have hstatistics : t.statistics = ({} : Statistics).recordAll (start.reported n) := by
    have hzero : start.statistics = {} := congrArg Simulator.statistics hempty
    rw [← hzero]
    exact start.statistics_after n
  have hnone : s.statistics.Tallies s.core := tallies_new hnew
  have hzero : start.core.retired = 0 := congrArg (fun s => s.core.retired) hempty
  obtain ⟨htallies, htold⟩ :=
    tallies_after (show start.statistics.Tallies start.core from hnone) n
  have hle : t.core.retired ≤ t.core.cycle :=
    retired_le_cycle_after (hzero ▸ Nat.zero_le _) n
  have hattempts := ({} : Statistics).attempts_recordAll (start.reported n)
  rw [← hstatistics, countP_isAttempt_reported, hentered] at hattempts
  refine ⟨⟨(hstart.reported n).2, hlength, htallies.retired, ?_, fun k => ?_⟩, htallies.haltCycle,
    htallies.cycle_pos, htold, ?_, fun k => ?_, ?_⟩
  · rw [hstatistics, Statistics.total_byUnit_recordAll]
    exact (Nat.zero_add _).trans hlength
  · rw [hstatistics, Statistics.byUnit_recordAll]
    cases k <;> exact Nat.zero_add _
  · calc t.statistics.retired = t.core.retired := htallies.retired
      _ ≤ t.core.cycle := hle
      _ ≤ t.statistics.cycles := by rw [htold]; exact Nat.le_add_right _ _
  · rw [tick_core]
    exact Core.countP_isAttempt_tick _ _ _
  · exact (hattempts.trans (Nat.zero_add _)).symm

/-- The second instruction of this program cannot but fail, and the statistics are ahead of the
core. -/
theorem statistics_account_unaligned : ∃ s, Simulator.new {} = .ok s ∧
    let t := ({ s with memory := unaligned } : Simulator).after 4
    t.statistics.cycles = t.core.cycle + 1 ∧ t.statistics.retired = t.core.retired ∧
      2 = t.statistics.windowFull + t.statistics.stationsFull +
        (t.core.retired + t.core.window.length) := by
  obtain ⟨s, hnew, hstumbled, hattempts⟩ : ∃ s, Simulator.new {} = .ok s ∧
      ({ s with memory := unaligned } : Simulator).stumbled 4 = true ∧
      ((List.range 4).countP fun k =>
        !(({ s with memory := unaligned } : Simulator).after k).core.halted &&
          !(({ s with memory := unaligned } : Simulator).after k).queue.isEmpty) = 2 :=
    ⟨_, rfl, rfl, rfl⟩
  obtain ⟨⟨-, -, hretired, -⟩, -, -, hcycles, -, -, hcount⟩ := statistics_account hnew unaligned 4
  rw [hstumbled, if_pos rfl] at hcycles
  exact ⟨s, hnew, hcycles, hretired, hattempts.symm.trans hcount⟩

end Simulator

end OutOfOrder
