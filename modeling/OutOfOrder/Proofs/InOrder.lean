import OutOfOrder.Proofs.Order

/-!
# In order from the queue to retirement

Results arrive out of order, but places are taken and given back in order. An instruction is moved
twice on its way, from the queue into the window and out of the window; either move takes the next
one in line, and a cycle makes each of them once at most. So what has retired, what is in the window
and what waits in the queue are at any time the first, the middle and the last part of what has been
accepted, whatever the serial numbers, and whether cycles fail or not.

The end of the program is the last move of all: the machine halts as an instruction that ends the
program retires, and a halted machine moves nothing.

## Main definitions

* `Snapshot.ExitsLast` — only the last instruction to retire can have ended the program

## Main results

* `Snapshot.Follows.issued`, `Snapshot.Follows.partition` — what enters the window is reported as
  issued, and window and queue are what comes after what has left
* `Core.entries_dispatched` — up to the end of dispatch, a cycle appends one entry at most
* `Snapshot.ExitsLast.tick` — every cycle keeps the end of the program last
* `System.Reachable.in_order` — nothing is dropped, doubled or overtaken
-/

namespace OutOfOrder

/-! ### The three parts of what has been accepted -/

theorem Event.issued?_of_isRemark {e : Event} (h : e.isRemark = true) : e.issued? = none := by
  cases e <;> first | rfl | cases h

theorem Core.filterMap_issued?_sideEffects {c : Core} {m : Memory} {i : Instruction}
    {a b : Word} : (c.sideEffects m i a b).filterMap Event.issued? = [] := by
  rw [sideEffects]
  cases i.unit <;> rfl

namespace Snapshot

variable {s t : Snapshot} {is : List Instruction} {k : Nat}

/-- What enters the window is reported as issued, and nothing else is. -/
theorem Follows.issued {es : List Event} (h : s.Reports es t) (hc : s.core.Consistent)
    (hf : s.Follows is k) :
    is.take s.core.window.next ++ es.filterMap Event.issued? = is.take t.core.window.next := by
  have hstay : ∀ {d : Nat}, d = s.core.window.next → es.filterMap Event.issued? = [] →
      is.take s.core.window.next ++ es.filterMap Event.issued? = is.take d := by
    intro d hd hes
    rw [hes, List.append_nil, hd]
  cases h with
  | remark hes =>
    refine hstay rfl (List.filterMap_eq_nil_iff.mpr fun e he => ?_)
    exact Event.issued?_of_isRemark (hes e he)
  | count csrs arbiter cycle hcells => exact hstay rfl rfl
  | issue hpop hwindow hstations =>
    have hnext := (ReorderBuffer.entered_of_allocate? hwindow).next
    rw [Core.issuing, hnext, List.take_add_one, (hf.front hpop).1]
    rfl
  | advance => exact hstay rfl rfl
  | publish hbus hdone => exact hstay rfl rfl
  | start h hx =>
    refine hstay rfl ?_
    rw [List.filterMap_append, Core.filterMap_issued?_sideEffects]
    rfl
  | fail h hfault => exact hstay rfl Core.filterMap_issued?_sideEffects
  | deliver hbus =>
    obtain ⟨_, _, _, -, -, -, hw⟩ := hc.delivering_completes hbus
    exact hstay hw.next rfl
  | retire hcommit =>
    refine hstay ?_ rfl
    rw [Core.retiring_window, (ReorderBuffer.left_of_commit? hcommit).next]

/-- The window is a stretch of the list. -/
theorem Follows.map_entries (hf : s.Follows is k) :
    s.core.window.entries.map Entry.instruction =
      (is.take s.core.window.next).drop s.core.window.departed := by
  refine List.ext_getElem? fun i => ?_
  rw [List.getElem?_map, List.getElem?_drop, List.getElem?_take,
    ← ReorderBuffer.nth?_departed_add]
  cases h : s.core.window.nth? (s.core.window.departed + i) with
  | some e =>
    rw [if_pos (ReorderBuffer.bounds_of_nth? h).2, hf.entry h]
    rfl
  | none =>
    rw [if_neg]
    · rfl
    · intro hlt
      obtain ⟨e, he⟩ := ReorderBuffer.exists_nth? (Nat.le_add_right _ i) hlt
      rw [h] at he
      cases he

/-- Before the window comes what has left it, and after it what waits. -/
theorem Follows.partition (hf : s.Follows is k) :
    is.take s.core.window.departed ++ s.core.window.entries.map Entry.instruction =
        is.take s.core.window.next ∧
      is.take s.core.window.next ++ s.queue.waiting = is.take k := by
  have split : ∀ {d n : Nat}, d ≤ n → is.take d ++ (is.take n).drop d = is.take n := by
    intro d n hdn
    have h := List.take_append_drop d (is.take n)
    rwa [List.take_take, Nat.min_eq_left hdn] at h
  have hle : s.core.window.departed ≤ s.core.window.next := Nat.le_add_right _ _
  rw [hf.map_entries, hf.waiting]
  exact ⟨split hle, split hf.next_le⟩

theorem Steps.follows (h : s.Steps t) (hc : s.core.Consistent) (hf : s.Follows is k) :
    t.core.Consistent ∧ t.Follows is k :=
  h.keeps (P := fun s => s.core.Consistent ∧ s.Follows is k)
    (fun hstep ⟨hc, hf⟩ => ⟨hc.step hstep, hf.step hstep hc⟩) ⟨hc, hf⟩

end Snapshot

/-! ### How far a cycle moves the window -/

namespace Core

variable {c : Core} {q : IssueQueue} {m : Memory}

/-- Up to the end of dispatch, a cycle does nothing to the window but to append one entry at
most, without a result. -/
theorem entries_dispatched (c : Core) (q : IssueQueue) (m : Memory) :
    (c.dispatched q m).core.window.departed = c.window.departed ∧
      ∃ js : List Instruction, js.length ≤ 1 ∧ (c.dispatched q m).core.window.entries =
        c.window.entries ++ js.map fun i => { instruction := i } := by
  have hwindow : (c.dispatched q m).core.window = (c.beginCycle.issue q).core.window := by
    obtain ⟨units, bus, arbiter, hpublish⟩ := (c.beginCycle.issue q).core.advanceUnits.publish_eq
    obtain ⟨csrs, units', stations, hdispatch⟩ :=
      dispatchEach_eq (c.beginCycle.issue q).core.advanceUnits.publish.core m
        (c.beginCycle.issue q).core.advanceUnits.publish.core.stations.dispatchable
    rw [dispatched, dispatch, hdispatch, hpublish]
    rfl
  rw [hwindow]
  rcases c.beginCycle.issue_cases q with heq | ⟨i, _, _, _, _, _, -, hallocate, -, heq⟩
  · rw [heq]
    exact ⟨rfl, [], Nat.zero_le 1, (List.append_nil _).symm⟩
  · rw [ReorderBuffer.allocate?] at hallocate
    split at hallocate
    · obtain ⟨-, rfl⟩ := Prod.mk.inj (Option.some.inj hallocate)
      rw [heq]
      exact ⟨rfl, [i], Nat.le_refl 1, rfl⟩
    · simp at hallocate

/-- Wake-up moves neither end of the window, and does not halt the machine. -/
theorem wakeUp_window (c : Core) : c.wakeUp.core.window.departed = c.window.departed ∧
    c.wakeUp.core.window.next = c.window.next ∧ c.wakeUp.core.halted = c.halted := by
  rw [wakeUp]
  split
  · exact ⟨rfl, rfl, rfl⟩
  · next r _ _ =>
    dsimp only
    rw [ReorderBuffer.markReady?]
    split
    · refine ⟨rfl, ?_, rfl⟩
      simp [ReorderBuffer.next]
    · exact ⟨rfl, rfl, rfl⟩

/-- Retirement moves the window by the oldest entry, if this has its result. -/
theorem retire_window (c : Core) :
    c.retire.core = c ∨ ∃ tag e w, c.window.Left tag e w ∧
      c.retire.core = c.retiring tag e w := by
  rw [retire]
  split
  · exact .inl rfl
  · next tag e w hcommit => exact .inr ⟨tag, e, w, ReorderBuffer.left_of_commit? hcommit, rfl⟩

/-- A cycle lets one instruction enter the window at most. -/
theorem next_tick_le (c : Core) (q : IssueQueue) (m : Memory) :
    (c.tick q m).core.window.next ≤ c.window.next + 1 := by
  cases hrun : c.halted with
  | true =>
    rw [tick, if_pos hrun]
    exact Nat.le_succ _
  | false =>
    have hle : (c.dispatched q m).core.window.next ≤ c.window.next + 1 := by
      obtain ⟨hdeparted, js, hjs, hentries⟩ := c.entries_dispatched q m
      rw [ReorderBuffer.next, ReorderBuffer.next, hdeparted, hentries, List.length_append,
        List.length_map]
      omega
    cases hfault : (c.dispatched q m).fault with
    | some fault =>
      rw [(tick_of_fault hrun hfault).2]
      exact hle
    | none =>
      have hwoken := (c.dispatched q m).core.wakeUp_window.2.1
      rw [(tick_of_ok hrun hfault).2, endCycle]
      dsimp only
      rcases (c.dispatched q m).core.wakeUp.core.retire_window with heq | ⟨tag, e, w, hw, heq⟩
      · rw [heq, hwoken]
        exact hle
      · rw [heq, retiring_window, hw.next, hwoken]
        exact hle

end Core

/-! ### The end of the program -/

namespace Snapshot

variable {s : Snapshot} {c : Core} {q : IssueQueue} {m : Memory} {is : List Instruction} {k : Nat}

theorem steps_dispatched : Steps ⟨c, q, m⟩
    ⟨(c.dispatched q m).core, (c.beginCycle.issue q).queue, (c.dispatched q m).memory⟩ :=
  (journal_published.trans dispatches_dispatch.journal).steps

/-- Of the instructions that have retired only the last one can have ended the program, and then
the machine has halted. -/
def ExitsLast (is : List Instruction) (s : Snapshot) : Prop :=
  ∀ n i, n < s.core.window.departed → is[n]? = some i → i.isExit = true →
    n + 1 = s.core.window.departed ∧ s.core.halted = true

/-- A machine that has not halted retires one instruction in a cycle at most, and halts if this one
ends the program. -/
theorem tick_retires (hc : s.core.Consistent) (hf : s.Follows is k) (hrun : s.core.halted = false) :
    (s.tick.core.window.departed = s.core.window.departed ∧ s.tick.core.halted = false) ∨
      ∃ i, is[s.core.window.departed]? = some i ∧
        s.tick.core.window.departed = s.core.window.departed + 1 ∧
        s.tick.core.halted = i.isExit := by
  obtain ⟨c, q, m⟩ := s
  have hdeparted := (c.entries_dispatched q m).1
  have hhalted : (c.dispatched q m).core.halted = false := by
    obtain ⟨_, _, _, _, _, _, _, heq⟩ := c.dispatched_eq q m
    rw [heq]
    exact hrun
  have htick : tick ⟨c, q, m⟩ = ⟨(c.tick q m).core, (c.tick q m).queue, (c.tick q m).memory⟩ := rfl
  rw [htick]
  dsimp only
  cases hfault : (c.dispatched q m).fault with
  | some fault =>
    rw [(Core.tick_of_fault hrun hfault).2]
    exact .inl ⟨hdeparted, hhalted⟩
  | none =>
    obtain ⟨-, hf'⟩ := Steps.follows (steps_dispatched.trans journal_wakeUp.steps) hc hf
    obtain ⟨hwoken, -, hwoken'⟩ := (c.dispatched q m).core.wakeUp_window
    rw [(Core.tick_of_ok hrun hfault).2, Core.endCycle]
    dsimp only
    rcases (c.dispatched q m).core.wakeUp.core.retire_window with heq | ⟨tag, e, w, hw, heq⟩
    · rw [heq, hwoken, hwoken']
      exact .inl ⟨hdeparted, hhalted⟩
    · refine .inr ⟨e.instruction, ?_, ?_, ?_⟩
      · rw [← hdeparted, ← hwoken]
        exact hf'.entry hw.oldest
      · rw [heq, Core.retiring_window, hw.departed, hwoken, hdeparted]
      · rw [heq, Core.retiring_halted, hwoken', hhalted, Bool.false_or]

/-- Every cycle keeps the end of the program last. -/
theorem ExitsLast.tick (hc : s.core.Consistent) (hf : s.Follows is k) (h : s.ExitsLast is) :
    s.tick.ExitsLast is := by
  cases hrun : s.core.halted with
  | true =>
    have hsame : s.tick = s := by rw [Snapshot.tick, Core.tick, if_pos hrun]
    rwa [hsame]
  | false =>
    have hnone : ∀ n i, n < s.core.window.departed → is[n]? = some i → i.isExit = true → False := by
      intro n i hn hi hexit
      have := (h n i hn hi hexit).2
      rw [hrun] at this
      cases this
    intro n i hn hi hexit
    rcases tick_retires hc hf hrun with ⟨hdeparted, -⟩ | ⟨j, hj, hdeparted, hhalted⟩
    · rw [hdeparted] at hn
      exact (hnone n i hn hi hexit).elim
    · rw [hdeparted] at hn ⊢
      rcases Nat.lt_succ_iff_lt_or_eq.mp hn with hlt | rfl
      · exact (hnone n i hlt hi hexit).elim
      · obtain rfl := Option.some.inj (hj.symm.trans hi)
        exact ⟨rfl, hhalted.trans hexit⟩

end Snapshot

/-! ### Histories -/

namespace System

variable {st : CoreSettings} {n : Nat} {m : Memory} {s t : System} {is : List Instruction}

/-- A cycle of a halted machine changes nothing at all. -/
theorem tick_of_halted (h : s.core.halted = true) : s.tick = s := by
  rw [tick, Core.tick, if_pos h]
  simp

theorem push_eq (s : System) (i : Instruction) : ∃ queue accepted, s.accepted <+: accepted ∧
    s.push i = { s with queue, accepted } := by
  rw [push]
  split
  · exact ⟨s.queue, s.accepted, List.prefix_refl _, rfl⟩
  · exact ⟨_, _, List.prefix_append _ _, rfl⟩

theorem Reachable.later (h : Reachable st n m s) (ht : s.Later t) : Reachable st n m t := by
  induction ht with
  | refl => exact h
  | push _ hi ih => exact ih.push hi
  | tick _ ih => exact ih.tick

/-- Once the machine has halted, at most the queue changes. -/
theorem Later.of_halted (h : s.Later t) (hhalted : s.core.halted = true) :
    t.core = s.core ∧ t.memory = s.memory ∧ t.events = s.events := by
  induction h with
  | refl => exact ⟨rfl, rfl, rfl⟩
  | @push t _ i _ ih =>
    obtain ⟨_, _, -, heq⟩ := t.push_eq i
    rw [heq]
    exact ih
  | tick _ ih =>
    rw [tick_of_halted (by rw [ih.1, hhalted])]
    exact ih

namespace Reachable

/-- Whatever the serial numbers are, a history follows what it has accepted, and reports what enters
the window and what leaves it. -/
theorem follows (h : Reachable st n m s) (his : s.accepted <+: is) :
    s.core.Consistent ∧ s.snapshot.Follows is s.accepted.length ∧
      s.issued = is.take s.core.window.next ∧ s.committed = is.take s.core.window.departed := by
  refine h.keeps_journal
    (P := fun k es t => t.core.Consistent ∧ t.Follows is k ∧
      es.filterMap Event.issued? = is.take t.core.window.next ∧
      es.filterMap Event.committed? = is.take t.core.window.departed)
    his ⟨Core.consistent_new st, ?_, rfl, rfl⟩ ?_ ?_
  · refine ⟨fun {l e} hl => ?_, rfl, Nat.le_refl 0, Nat.zero_le _, rfl, nofun⟩
    rw [ReorderBuffer.nth?_of_isEmpty rfl l] at hl
    cases hl
  · rintro k es s i q - hq hk ⟨hc, hf, hes⟩
    exact ⟨hc, hf.push hq hk, hes⟩
  · rintro k es fs s t hr ⟨hc, hf, hissued, hcommitted⟩
    rw [List.filterMap_append, List.filterMap_append, hissued, hcommitted]
    refine ⟨?_, ?_, hf.issued hr hc, hf.reported hr hc⟩
    · rcases hr.step with rfl | hstep
      · exact hc
      · exact hc.step hstep
    · rcases hr.step with rfl | hstep
      · exact hf
      · exact hf.step hstep hc

theorem length_issued (h : Reachable st n m s) : s.issued.length = s.core.window.next := by
  obtain ⟨-, hf, hissued, -⟩ := h.follows (List.prefix_refl _)
  rw [hissued]
  exact List.length_take_of_le hf.next_le

theorem length_committed (h : Reachable st n m s) :
    s.committed.length = s.core.window.departed := by
  obtain ⟨-, hf, -, hcommitted⟩ := h.follows (List.prefix_refl _)
  rw [hcommitted]
  exact List.length_take_of_le (Nat.le_trans (Nat.le_add_right _ _) hf.next_le)

/-- One cycle issues one instruction at most. -/
theorem length_issued_tick_le (h : Reachable st n m s) :
    ((s.core.tick s.queue s.memory).events.filterMap Event.issued?).length ≤ 1 := by
  have hadded : s.tick.issued =
      s.issued ++ (s.core.tick s.queue s.memory).events.filterMap Event.issued? :=
    List.filterMap_append
  have hlength := congrArg List.length hadded
  rw [List.length_append, h.length_issued, h.tick.length_issued] at hlength
  have hmoved : s.tick.core.window.next ≤ s.core.window.next + 1 :=
    s.core.next_tick_le s.queue s.memory
  omega

/-- One cycle retires one instruction at most. -/
theorem length_committed_tick_le (h : Reachable st n m s) :
    ((s.core.tick s.queue s.memory).events.filterMap Event.committed?).length ≤ 1 := by
  obtain ⟨hc, hf, -⟩ := h.follows (List.prefix_refl _)
  have hadded : s.tick.committed =
      s.committed ++ (s.core.tick s.queue s.memory).events.filterMap Event.committed? :=
    List.filterMap_append
  have hlength := congrArg List.length hadded
  rw [List.length_append, h.length_committed, h.tick.length_committed] at hlength
  have hmoved : s.tick.core.window.departed ≤ s.core.window.departed + 1 := by
    cases hrun : s.core.halted with
    | true =>
      rw [tick_of_halted hrun]
      exact Nat.le_succ _
    | false =>
      rcases Snapshot.tick_retires hc hf hrun with ⟨heq, -⟩ | ⟨_, -, heq, -⟩
      · exact Nat.le_succ_of_le (Nat.le_of_eq heq)
      · exact Nat.le_of_eq heq
  omega

theorem exitsLast (h : Reachable st n m s) (his : s.accepted <+: is) :
    s.snapshot.ExitsLast is := by
  induction h with
  | new => exact fun _ _ hn => absurd hn (Nat.not_lt_zero _)
  | @push t _ i _ ih =>
    obtain ⟨queue, accepted, hbegins, heq⟩ := t.push_eq i
    rw [heq] at his ⊢
    exact ih (hbegins.trans his)
  | tick h ih =>
    obtain ⟨hc, hf, -⟩ := h.follows his
    exact (ih his).tick hc hf

/-- **Everything moves in order from the queue to retirement**, whatever the sizes, the latencies
and the serial numbers. What has retired, what is in the window and what waits in the queue are, in
this order, what has been accepted, and the first two of them are what has been issued. A cycle
issues one instruction at most and retires one at most, and the number of those that have retired is
counted. If an instruction that ends the program has retired, it was the last one to do so, and from
then on no cycle changes anything. -/
theorem in_order (h : Reachable st n m s) :
    s.committed ++ s.core.window.entries.map Entry.instruction ++ s.queue.waiting = s.accepted ∧
      s.issued = s.committed ++ s.core.window.entries.map Entry.instruction ∧
      ((s.core.tick s.queue s.memory).events.filterMap Event.issued?).length ≤ 1 ∧
      ((s.core.tick s.queue s.memory).events.filterMap Event.committed?).length ≤ 1 ∧
      s.core.retired = s.committed.length ∧
      ∀ (j : Nat) (i : Instruction), s.committed[j]? = some i → i.isExit = true →
        j + 1 = s.committed.length ∧
          ∀ t, s.Later t → t.tick = t ∧ t.core = s.core ∧ t.committed = s.committed := by
  obtain ⟨hc, hf, hissued, hcommitted⟩ := h.follows (List.prefix_refl _)
  have hparts := hf.partition
  dsimp only [snapshot] at hparts
  obtain ⟨hentries, hwaiting⟩ := hparts
  have hcount := h.length_committed
  refine ⟨?_, ?_, h.length_issued_tick_le, h.length_committed_tick_le,
    hf.retired.trans hcount.symm, fun j i hj hexit => ?_⟩
  · rw [hcommitted, hentries, hwaiting, List.take_length]
  · rw [hissued, hcommitted, hentries]
  · have hlt : j < s.core.window.departed := by
      rw [← hcount]
      exact (List.getElem?_eq_some_iff.mp hj).1
    rw [hcommitted, List.getElem?_take_of_lt hlt] at hj
    obtain ⟨hlast, hhalted⟩ := h.exitsLast (List.prefix_refl _) j i hlt hj hexit
    refine ⟨hlast.trans hcount.symm, fun t ht => ?_⟩
    obtain ⟨hcore, -, hevents⟩ := ht.of_halted hhalted
    exact ⟨tick_of_halted (hcore ▸ hhalted), hcore,
      congrArg (List.filterMap Event.committed?) hevents⟩

/-- A sum and the end of the program, with the same serial number: both retire, and nothing happens
after that. -/
theorem in_order_ended :
    let s := (((System.new {} 2 (.empty 0 16)).offer 0x00500093 0 7).offer 0x00000073 4
      7).tick.tick.tick.tick.tick.tick
    s.committed.length = 2 ∧ s.committed = s.accepted ∧
      ∀ t, s.Later t → t.tick = t ∧ t.core = s.core ∧ t.committed = s.committed := by
  intro s
  have h : Reachable {} 2 (.empty 0 16) s :=
    ((Reachable.new.offer 0x00500093 0 7).offer 0x00000073 4 7).tick.tick.tick.tick.tick.tick
  obtain ⟨hconserved, -, -, -, -, hended⟩ := in_order h
  obtain ⟨i, hi, hexit⟩ : ∃ i, s.committed[1]? = some i ∧ i.isExit = true := ⟨_, rfl, rfl⟩
  obtain ⟨hlast, hforever⟩ := hended 1 i hi hexit
  have hempty : s.core.window.entries.map Entry.instruction = [] ∧ s.queue.waiting = [] :=
    ⟨rfl, rfl⟩
  rw [hempty.1, hempty.2, List.append_nil, List.append_nil] at hconserved
  exact ⟨hlast.symm, hconserved, hforever⟩

end Reachable

end System

end OutOfOrder
