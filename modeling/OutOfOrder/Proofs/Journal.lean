import OutOfOrder.Proofs.Step

/-!
# A cycle, and what it reports

A cycle, whether it fails or not, is a sequence of steps; so a property that every step keeps is
kept by every cycle, and none of the proofs that follow looks at the text of a cycle again. The
events of a cycle say which steps those were: nothing is done with an instruction that is not
reported, and nothing is reported that is not done. `Snapshot.Reports` is the list of steps once
more, each of them with its events, and besides them the one thing that is reported although it
changes nothing, a load or store that fails.

## Main definitions

* `Event.isRemark` — the event only says how things stand
* `Snapshot.Startable` — a station may start on its free unit
* `Snapshot.Reports`, `Snapshot.Journal` — a step with its events, and any number of them

## Main results

* `Core.cases_of_mem_issue`, `cases_of_mem_publish`, `cases_of_mem_wakeUp`, `cases_of_mem_retire` —
  what the parts of a cycle report
* `Snapshot.journal_tick` — the events of a cycle are the journal of its steps
* `Snapshot.steps_tick`, `Snapshot.tick_keeps` — what every step keeps, a cycle keeps
* `System.Reachable.keeps`, `System.Reachable.keeps_journal` — and so do all histories
* `Snapshot.exists_failed` — a cycle that fails ends with a station that cannot but fail
* `Core.tick_of_fault`, `Core.dispatched_eq` — what a cycle that fails has changed at most
* `Core.counts_tick_of_ok`, `Core.counts_tick_of_fault` — a cycle counts unless it fails
-/

namespace OutOfOrder

/-- Does an event only say how things stand? The others say what was done with an instruction. -/
def Event.isRemark : Event → Bool
  | issue .. | access .. | csrAccess .. | dispatch .. | commit .. => false
  | _ => true

theorem Event.committed?_of_isRemark {e : Event} (h : e.isRemark = true) : e.committed? = none := by
  cases e <;> first | rfl | cases h

namespace Core

/-! ### What the parts of a cycle report -/

variable {c : Core} {q : IssueQueue} {m : Memory} {e : Event}

theorem filterMap_committed?_sideEffects {i : Instruction} {a b : Word} :
    (c.sideEffects m i a b).filterMap Event.committed? = [] := by
  rw [sideEffects]
  cases i.unit <;> rfl

theorem cases_of_mem_issue (h : e ∈ (c.issue q).events) :
    (∃ i tag slot a b, e = .issue i tag slot a b) ∨ (∃ ts, e = .pool ts) ∨ ∃ r, e = .stall r := by
  rw [issue] at h
  split at h
  · cases h
  · split at h
    · exact .inr (.inr ⟨_, List.mem_singleton.mp h⟩)
    · dsimp only at h
      split at h
      · exact .inr (.inr ⟨_, List.mem_singleton.mp h⟩)
      · rcases List.mem_cons.mp h with h | h
        · exact .inl ⟨_, _, _, _, _, h⟩
        · exact .inr (.inl ⟨_, List.mem_singleton.mp h⟩)

theorem cases_of_mem_publish (h : e ∈ c.publish.events) :
    (∃ d, e = .defect d) ∨ ∃ r k, e = .held r k := by
  rw [publish] at h
  split at h
  · split at h
    · cases h
    · split at h
      · exact .inl ⟨_, List.mem_singleton.mp h⟩
      · obtain ⟨r, -, he⟩ := List.mem_map.mp h
        exact .inr ⟨r, _, he.symm⟩
  · cases h

theorem exists_of_mem_broadcastDefects {r : Broadcast} (h : e ∈ c.broadcastDefects r) :
    ∃ d, e = .defect d := by
  rw [broadcastDefects, List.mem_append] at h
  rcases h with h | h
  all_goals
    split at h
    · cases h
    · exact ⟨_, List.mem_singleton.mp h⟩

theorem cases_of_mem_wakeUp (h : e ∈ c.wakeUp.events) :
    (∃ d, e = .defect d) ∨ (∃ r n, e = .broadcast r n) ∨ ∃ ts, e = .pool ts := by
  rw [wakeUp] at h
  split at h
  · cases h
  · rcases List.mem_append.mp h with h | h
    · exact .inl (exists_of_mem_broadcastDefects h)
    · rcases List.mem_cons.mp h with h | h
      · exact .inr (.inl ⟨_, _, h⟩)
      · exact .inr (.inr ⟨_, List.mem_singleton.mp h⟩)

theorem cases_of_mem_retire (h : e ∈ c.retire.events) :
    (∃ tag f, e = .commit tag f) ∨ ∃ n k pc, e = .halt n k pc := by
  rw [retire] at h
  split at h
  · cases h
  · rcases List.mem_cons.mp h with h | h
    · exact .inl ⟨_, _, h⟩
    · split at h
      · exact .inr ⟨_, _, _, List.mem_singleton.mp h⟩
      · cases h

end Core

namespace Snapshot

/-- The station in a slot may start, and its unit is free; `entry` is the entry of the window that
it belongs to, and `a` and `b` are the values of its operands. -/
structure Startable (s : Snapshot) (slot : Slot) (t : Station) (entry : Entry) (a b : Word) :
    Prop where
  eligible : s.core.stations.Eligible slot t
  free : (s.core.units.get t.unit).work = none
  entry : s.core.window.get? t.tag = some entry
  src1 : t.src1 = .ready a
  src2 : t.src2 = .ready b

/-- What can happen within a cycle, with the events that report it. -/
inductive Reports : Snapshot → List Event → Snapshot → Prop where
  /-- Nothing happens, but there is something to remark. -/
  | remark {s : Snapshot} {es : List Event} (h : ∀ e ∈ es, e.isRemark = true) : Reports s es s
  /-- The counters, the cycle count and the arbiter move. -/
  | count {s : Snapshot} (csrs : CsrFile) (arbiter : Arbiter) (cycle : Nat)
      (hcells : csrs.cells = s.core.csrs.cells) :
      Reports s [] { s with core := { s.core with csrs, arbiter, cycle } }
  /-- The instruction in front of the queue is issued. -/
  | issue {s : Snapshot} {i : Instruction} {rest : IssueQueue} {tag : Tag} {slot : Slot}
      {window : ReorderBuffer} {stations : Stations} (hpop : s.queue.pop? = some (i, rest))
      (hwindow : s.core.window.allocate? i = some (tag, window))
      (hstations : s.core.stations.allocate? (s.core.stationFor i tag) = some (slot, stations)) :
      Reports s [.issue i tag slot (s.core.stationFor i tag).src1 (s.core.stationFor i tag).src2]
        { s with core := s.core.issuing i tag window stations, queue := rest }
  /-- The units work for a cycle. -/
  | advance {s : Snapshot} : Reports s [] { s with core := s.core.advanceUnits }
  /-- A finished result goes to the free bus. -/
  | publish {s : Snapshot} {k : UnitKind} {o : Completion} (hbus : s.core.bus.current = none)
      (hdone : (s.core.units.get k).output? = some o) :
      Reports s [] { s with core := s.core.publishing k o }
  /-- A station that may start does so. -/
  | start {s : Snapshot} {slot : Slot} {t : Station} {entry : Entry} {a b : Word} {x : Effect}
      (h : s.Startable slot t entry a b)
      (hx : entry.instruction.compute a b s.memory s.core.csrs = .ok x) :
      Reports s (s.core.sideEffects s.memory entry.instruction a b ++
          [.dispatch entry.instruction (Core.completion slot t x)])
        { s with core := s.core.starting slot t x, memory := x.memory }
  /-- A station that may start fails to do so. -/
  | fail {s : Snapshot} {slot : Slot} {t : Station} {entry : Entry} {a b : Word}
      {fault : MemoryError} (h : s.Startable slot t entry a b)
      (hfault : entry.instruction.compute a b s.memory s.core.csrs = .error fault) :
      Reports s (s.core.sideEffects s.memory entry.instruction a b) s
  /-- The result on the bus is delivered. -/
  | deliver {s : Snapshot} {r : Broadcast} (hbus : s.core.bus.current = some r) :
      Reports s [] { s with core := s.core.delivering r }
  /-- The oldest instruction retires. -/
  | retire {s : Snapshot} {tag : Tag} {e : Entry} {window : ReorderBuffer}
      (hcommit : s.core.window.commit? = some (tag, e, window)) :
      Reports s [.commit tag e] { s with core := s.core.retiring tag e window }

/-- Any number of steps, with all their events. -/
inductive Journal : Snapshot → List Event → Snapshot → Prop where
  | refl (s : Snapshot) : Journal s [] s
  | tail {s t u : Snapshot} {es fs : List Event} (h : Journal s es t) (hlast : t.Reports fs u) :
      Journal s (es ++ fs) u

section Journal

variable {s t u : Snapshot} {es fs : List Event}

/-- What is reported is a step, if anything has changed. -/
theorem Reports.step (h : s.Reports es t) : t = s ∨ s.Step t := by
  cases h with
  | remark _ => exact .inl rfl
  | count csrs arbiter cycle hcells => exact .inr (.count csrs arbiter cycle hcells)
  | issue hpop hwindow hstations => exact .inr (.issue hpop hwindow hstations)
  | advance => exact .inr .advance
  | publish hbus hdone => exact .inr (.publish hbus hdone)
  | start h hx => exact .inr (.start h.eligible h.free h.entry h.src1 h.src2 hx)
  | fail _ _ => exact .inl rfl
  | deliver hbus => exact .inr (.deliver hbus)
  | retire hcommit => exact .inr (.retire hcommit)

theorem Journal.single (h : s.Reports es t) : s.Journal es t := (Journal.refl s).tail h

theorem Journal.remarks (h : ∀ e ∈ es, e.isRemark = true) : s.Journal es s := .single (.remark h)

theorem Journal.trans (h : s.Journal es t) (h' : t.Journal fs u) : s.Journal (es ++ fs) u := by
  induction h' with
  | refl => rwa [List.append_nil]
  | tail _ hlast ih =>
    rw [← List.append_assoc]
    exact ih.tail hlast

theorem Journal.steps (h : s.Journal es t) : s.Steps t := by
  induction h with
  | refl => exact .refl
  | tail _ hlast ih =>
    rcases hlast.step with rfl | hstep
    · exact ih
    · exact ih.tail hstep

/-- What every step keeps, any number of steps keep. -/
theorem Steps.keeps {P : Snapshot → Prop} (hstep : ∀ {s t}, Step s t → P s → P t)
    (h : s.Steps t) (hs : P s) : P t := by
  induction h with
  | refl => exact hs
  | tail _ hlast ih => exact hstep hlast ih

/-- What every report keeps, together with all events so far, a journal keeps. -/
theorem Journal.keeps {P : List Event → Snapshot → Prop}
    (hreport : ∀ {es fs s t}, Reports s fs t → P es s → P (es ++ fs) t) (h : s.Journal fs t)
    (hs : P es s) : P (es ++ fs) t := by
  induction h with
  | refl => rwa [List.append_nil]
  | tail _ hlast ih =>
    rw [← List.append_assoc]
    exact hreport hlast ih

end Journal

variable {c : Core} {q : IssueQueue} {m : Memory}

/-! ### The parts of a cycle -/

theorem journal_beginCycle : Journal ⟨c, q, m⟩ [] ⟨c.beginCycle, q, m⟩ :=
  .single (.count (s := ⟨c, q, m⟩) _ c.arbiter c.cycle rfl)

theorem journal_advanceUnits : Journal ⟨c, q, m⟩ [] ⟨c.advanceUnits, q, m⟩ :=
  .single (.advance (s := ⟨c, q, m⟩))

theorem journal_endCycle : Journal ⟨c, q, m⟩ [] ⟨c.endCycle, q, m⟩ :=
  .single (.count (s := ⟨c, q, m⟩) c.csrs c.arbiter _ rfl)

theorem journal_issue :
    Journal ⟨c, q, m⟩ (c.issue q).events ⟨(c.issue q).core, (c.issue q).queue, m⟩ := by
  rw [Core.issue]
  split
  · exact .refl _
  · next i rest hpop =>
    split
    · exact .remarks (by simp [Event.isRemark])
    · next tag window hwindow =>
      dsimp only
      split
      · exact .remarks (by simp [Event.isRemark])
      · next slot stations hstations =>
        exact (Journal.single (.issue (s := ⟨c, q, m⟩) hpop hwindow hstations)).tail
          (.remark (by simp [Event.isRemark]))

theorem journal_publish : Journal ⟨c, q, m⟩ c.publish.events ⟨c.publish.core, q, m⟩ := by
  rw [Core.publish]
  split
  · next hbus =>
    split
    · exact .refl _
    · next winner arbiter hgrant =>
      have hcount : Journal ⟨c, q, m⟩ [] ⟨{ c with arbiter }, q, m⟩ :=
        .single (.count (s := ⟨c, q, m⟩) c.csrs arbiter c.cycle rfl)
      split
      · exact hcount.tail (.remark (by simp [Event.isRemark]))
      · next o unit hclear =>
        obtain ⟨o', ho, he⟩ := Option.map_eq_some_iff.mp hclear
        obtain ⟨rfl, rfl⟩ := Prod.mk.inj he
        have hpublish : Journal ⟨c, q, m⟩ [] ⟨Core.publishing { c with arbiter } winner o', q, m⟩ :=
          hcount.tail
            (.publish (s := ⟨{ c with arbiter }, q, m⟩) (Option.isNone_iff_eq_none.mp hbus) ho)
        refine hpublish.tail (.remark fun e he => ?_)
        obtain ⟨r, -, rfl⟩ := List.mem_map.mp he
        rfl
  · exact .refl _

theorem journal_wakeUp : Journal ⟨c, q, m⟩ c.wakeUp.events ⟨c.wakeUp.core, q, m⟩ := by
  rw [Core.wakeUp]
  split
  · exact .refl _
  · next r bus htake =>
    obtain ⟨r', hr, he⟩ := Option.map_eq_some_iff.mp htake
    obtain ⟨rfl, rfl⟩ := Prod.mk.inj he
    refine (Journal.single (.deliver (s := ⟨c, q, m⟩) hr)).tail (.remark fun e he => ?_)
    rcases List.mem_append.mp he with he | he
    · obtain ⟨_, rfl⟩ := Core.exists_of_mem_broadcastDefects he
      rfl
    · rcases List.mem_cons.mp he with rfl | he
      · rfl
      · obtain rfl := List.mem_singleton.mp he
        rfl

theorem journal_retire : Journal ⟨c, q, m⟩ c.retire.events ⟨c.retire.core, q, m⟩ := by
  rw [Core.retire]
  split
  · exact .refl _
  · next tag e window hcommit =>
    have hhalt : ∀ (p : Bool) (k n : Nat) (pc : Word),
        ∀ f ∈ (if p then [Event.halt k n pc] else []), f.isRemark = true := by
      intro p k n pc
      cases p <;> simp [Event.isRemark]
    exact (Journal.single (.retire (s := ⟨c, q, m⟩) hcommit)).tail (.remark (hhalt _ _ _ _))

/-! ### Dispatch

The stations are visited in the order of a list that was made before the first visit. A visit
changes the station it is made to and no other one, so those still to be visited may start then as
they might before. -/

/-- The last station that was visited can only fail, and nothing was reported after that. -/
def Failed (s : Snapshot) (es : List Event) (fault : MemoryError) : Prop :=
  ∃ fs slot t entry a b, s.Startable slot t entry a b ∧
    entry.instruction.compute a b s.memory s.core.csrs = .error fault ∧
    es = fs ++ s.core.sideEffects s.memory entry.instruction a b

theorem Failed.append {s : Snapshot} {es : List Event} {fault : MemoryError}
    (h : s.Failed es fault) (fs : List Event) : s.Failed (fs ++ es) fault := by
  obtain ⟨gs, slot, t, entry, a, b, hstartable, hfault, rfl⟩ := h
  exact ⟨fs ++ gs, slot, t, entry, a, b, hstartable, hfault, (List.append_assoc _ _ _).symm⟩

/-- What dispatching leaves behind is told by its events, and a fault is the last of them. -/
structure Dispatches (c : Core) (q : IssueQueue) (m : Memory) (d : Core.Dispatched) : Prop where
  journal : Journal ⟨c, q, m⟩ d.events ⟨d.core, q, d.memory⟩
  failed : ∀ {fault}, d.fault = some fault → Failed ⟨d.core, q, d.memory⟩ d.events fault

/-- A visit to a station that may start leaves the others as they were. -/
theorem dispatches_dispatchAt {slot : Slot} {t : Station} (ht : c.stations.Eligible slot t) :
    Dispatches c q m (c.dispatchAt m slot) ∧
      ∀ {k u}, k ≠ slot → c.stations.Eligible k u →
        (c.dispatchAt m slot).core.stations.Eligible k u := by
  have hremark : ∀ {es : List Event}, (∀ e ∈ es, e.isRemark = true) →
      Dispatches c q m { core := c, memory := m, events := es } :=
    fun hes => ⟨.remarks hes, nofun⟩
  rw [Core.dispatchAt]
  rw [ht.get]
  dsimp only
  split
  · exact ⟨hremark (by simp [Event.isRemark]), fun _ hu => hu⟩
  · next hbusy =>
    have hfree : (c.units.get t.unit).work = none := by
      cases hwork : (c.units.get t.unit).work with
      | none => rfl
      | some w => exact absurd (by rw [FunctionalUnit.isBusy, hwork]; rfl) hbusy
    split
    · exact ⟨hremark (by simp [Event.isRemark]), fun _ hu => hu⟩
    · next entry hentry =>
      split
      · next a b ha hb =>
        have hstartable : Startable ⟨c, q, m⟩ slot t entry a b :=
          ⟨ht, hfree, hentry, Operand.value?_eq_some_iff.mp ha, Operand.value?_eq_some_iff.mp hb⟩
        rw [Core.start]
        split
        · next fault hfault =>
          refine ⟨⟨.single (.fail hstartable hfault), fun hf => ?_⟩, fun _ hu => hu⟩
          obtain rfl := Option.some.inj hf
          exact ⟨[], slot, t, entry, a, b, hstartable, hfault, rfl⟩
        · next x hx =>
          exact ⟨⟨.single (.start hstartable hx), nofun⟩,
            fun hne hu => hu.markRunning ht.get hne⟩
      · exact ⟨hremark (by simp [Event.isRemark]), fun _ hu => hu⟩

/-- After the first visit of a list, the rest of it can be visited as well. -/
theorem eligible_dispatchAt {slot : Slot} {slots : List Slot} (hnodup : (slot :: slots).Nodup)
    (hslots : ∀ k ∈ slot :: slots, ∃ t, c.stations.Eligible k t) :
    slots.Nodup ∧ ∀ k ∈ slots, ∃ t, (c.dispatchAt m slot).core.stations.Eligible k t := by
  obtain ⟨hnot, hnodup⟩ := List.nodup_cons.mp hnodup
  obtain ⟨t, ht⟩ := hslots slot List.mem_cons_self
  refine ⟨hnodup, fun k hk => ?_⟩
  obtain ⟨u, hu⟩ := hslots k (List.mem_cons_of_mem slot hk)
  exact ⟨u, (dispatches_dispatchAt (q := .empty 0) ht).2 (fun he => hnot (he ▸ hk)) hu⟩

theorem dispatches_dispatchEach {slots : List Slot} (hnodup : slots.Nodup)
    (hslots : ∀ k ∈ slots, ∃ t, c.stations.Eligible k t) :
    Dispatches c q m (c.dispatchEach m slots) := by
  induction slots generalizing c m with
  | nil => exact ⟨.refl _, nofun⟩
  | cons slot slots ih =>
    obtain ⟨t, ht⟩ := hslots slot List.mem_cons_self
    have hfirst := (dispatches_dispatchAt (q := q) (m := m) ht).1
    obtain ⟨hnodup, hslots⟩ := eligible_dispatchAt (m := m) hnodup hslots
    rw [Core.dispatchEach]
    dsimp only
    split
    · exact hfirst
    · have hlater := ih (c := (c.dispatchAt m slot).core) (m := (c.dispatchAt m slot).memory)
        hnodup hslots
      exact ⟨hfirst.journal.trans hlater.journal, fun hf => (hlater.failed hf).append _⟩

theorem dispatches_dispatch : Dispatches c q m (c.dispatch m) :=
  dispatches_dispatchEach c.stations.nodup_dispatchable
    fun _ hk => Stations.mem_dispatchable.mp hk

/-! ### The whole -/

theorem journal_published : Journal ⟨c, q, m⟩
    (.cycle c.cycle :: (c.beginCycle.issue q).events ++
      (c.beginCycle.issue q).core.advanceUnits.publish.events)
    ⟨(c.beginCycle.issue q).core.advanceUnits.publish.core, (c.beginCycle.issue q).queue, m⟩ := by
  have hcycle : Journal ⟨c, q, m⟩ [.cycle c.cycle] ⟨c, q, m⟩ := .remarks (by simp [Event.isRemark])
  have hissue := (hcycle.trans journal_beginCycle).trans journal_issue
  have hpublish := (hissue.trans journal_advanceUnits).trans journal_publish
  rwa [List.append_nil, List.append_nil] at hpublish

/-- The events of a cycle tell its steps, also if it fails. -/
theorem journal_tick (s : Snapshot) :
    s.Journal (s.core.tick s.queue s.memory).events s.tick := by
  obtain ⟨c, q, m⟩ := s
  rw [tick, Core.tick]
  split
  · exact .refl _
  · have hdispatch := (journal_published (c := c) (q := q) (m := m)).trans
      dispatches_dispatch.journal
    dsimp only
    split
    · exact hdispatch
    · have hretire := ((hdispatch.trans journal_wakeUp).trans journal_retire).trans journal_endCycle
      rwa [List.append_nil] at hretire

/-- A cycle that fails ends with a station that cannot but fail. -/
theorem exists_failed {s : Snapshot} {fault : MemoryError}
    (h : (s.core.tick s.queue s.memory).fault = some fault) :
    s.tick.Failed (s.core.tick s.queue s.memory).events fault := by
  obtain ⟨c, q, m⟩ := s
  rw [tick]
  rw [Core.tick] at h ⊢
  split at h
  · simp at h
  · next hrun =>
    rw [if_neg hrun]
    dsimp only at h ⊢
    split at h
    · next fault' hfault =>
      obtain rfl := Option.some.inj h
      exact (dispatches_dispatch.failed hfault).append _
    · simp at h

/-- A cycle is a sequence of steps, also if it fails. -/
theorem steps_tick (s : Snapshot) : Steps s s.tick := s.journal_tick.steps

/-- What every step keeps, a cycle keeps. -/
theorem tick_keeps {P : Snapshot → Prop} (hstep : ∀ {s t}, Step s t → P s → P t) {s : Snapshot}
    (hs : P s) : P s.tick :=
  Steps.keeps hstep s.steps_tick hs

end Snapshot

/-! ### Histories -/

namespace System

/-- The core, the queue and the memory of a system. -/
def snapshot (s : System) : Snapshot := { core := s.core, queue := s.queue, memory := s.memory }

theorem snapshot_tick (s : System) : s.tick.snapshot = s.snapshot.tick := rfl

/-- A property of new systems that steps and offers keep holds of all systems. -/
theorem Reachable.keeps {P : Snapshot → Prop} {st : CoreSettings} {n : Nat} {m : Memory}
    {s : System} (hnew : P (System.new st n m).snapshot)
    (hpush : ∀ {s : Snapshot} {i : Instruction} {q : IssueQueue},
      i.Decoded → s.queue.push? i = some q → P s → P { s with queue := q })
    (hstep : ∀ {s t : Snapshot}, s.Step t → P s → P t) (h : Reachable st n m s) :
    P s.snapshot := by
  induction h with
  | new => exact hnew
  | @push t _ i hi ih =>
    rw [System.push]
    split
    · exact ih
    · next q hq => exact hpush (s := t.snapshot) hi hq ih
  | @tick t _ ih =>
    rw [snapshot_tick]
    exact Snapshot.tick_keeps hstep ih

/-- The same for a property of what has been accepted so far of a list of instructions, what has
been reported so far, and the moment. -/
theorem Reachable.keeps_journal {P : Nat → List Event → Snapshot → Prop} {st : CoreSettings}
    {n : Nat} {m : Memory} {s : System} {is : List Instruction} (h : Reachable st n m s)
    (his : s.accepted <+: is) (hnew : P 0 [] (System.new st n m).snapshot)
    (hpush : ∀ {k : Nat} {es : List Event} {s : Snapshot} {i : Instruction} {q : IssueQueue},
      i.Decoded → s.queue.push? i = some q → is[k]? = some i → P k es s →
        P (k + 1) es { s with queue := q })
    (hreport : ∀ {k : Nat} {es fs : List Event} {s t : Snapshot},
      s.Reports fs t → P k es s → P k (es ++ fs) t) :
    P s.accepted.length s.events s.snapshot := by
  induction h with
  | new => exact hnew
  | @push t _ i hi ih =>
    rw [System.push] at his ⊢
    split at his
    · exact ih his
    · next q hq =>
      dsimp only at his ⊢
      have hk : is[t.accepted.length]? = some i := by
        obtain ⟨rest, rfl⟩ := his
        simp
      rw [List.length_append, List.length_singleton]
      exact hpush (s := t.snapshot) hi hq hk (ih ((List.prefix_append _ _).trans his))
  | @tick t _ ih =>
    exact t.snapshot.journal_tick.keeps hreport (ih his)

/-- Offer the instruction that a word decodes to, if it decodes to one. -/
def offer (s : System) (word pc : Word) (uuid : Nat) : System :=
  match decode word pc uuid with
  | .ok i => s.push i
  | .error _ => s

theorem Reachable.offer {st : CoreSettings} {n : Nat} {m : Memory} {s : System}
    (h : Reachable st n m s) (word pc : Word) (uuid : Nat) :
    Reachable st n m (s.offer word pc uuid) := by
  rw [System.offer]
  split
  · next i hi => exact h.push (decoded_of_decode hi)
  · exact h

end System

/-! ### A cycle that fails

It ends after dispatch. What it has not got to is as it was. -/

namespace Core

/-- Issue does nothing, or the instruction in front of the queue enters. -/
theorem issue_cases (c : Core) (q : IssueQueue) :
    (c.issue q).core = c ∨ ∃ i rest tag slot window stations, q.pop? = some (i, rest) ∧
      c.window.allocate? i = some (tag, window) ∧
      c.stations.allocate? (c.stationFor i tag) = some (slot, stations) ∧
      (c.issue q).core = c.issuing i tag window stations := by
  rw [issue]
  split
  · exact .inl rfl
  · next i rest hpop =>
    split
    · exact .inl rfl
    · next tag window hwindow =>
      dsimp only
      split
      · exact .inl rfl
      · next slot stations hstations =>
        exact .inr ⟨i, rest, tag, slot, window, stations, hpop, hwindow, hstations, rfl⟩

theorem issue_eq (c : Core) (q : IssueQueue) :
    ∃ window stations aliases, (c.issue q).core = { c with window, stations, aliases } := by
  rcases c.issue_cases q with heq | ⟨i, -, tag, -, window, stations, -, -, -, heq⟩
  · exact ⟨c.window, c.stations, c.aliases, heq⟩
  · exact ⟨window, stations, c.aliasesWith i tag, heq⟩

theorem publish_eq (c : Core) :
    ∃ units bus arbiter, c.publish.core = { c with units, bus, arbiter } := by
  rw [publish]
  split
  · split
    · exact ⟨_, _, _, rfl⟩
    · split
      · exact ⟨_, _, _, rfl⟩
      · exact ⟨_, _, _, rfl⟩
  · exact ⟨_, _, _, rfl⟩

theorem dispatchAt_eq (c : Core) (m : Memory) (slot : Slot) :
    ∃ csrs units stations, (c.dispatchAt m slot).core = { c with csrs, units, stations } := by
  rw [dispatchAt]
  split
  · exact ⟨_, _, _, rfl⟩
  · split
    · exact ⟨_, _, _, rfl⟩
    · split
      · exact ⟨_, _, _, rfl⟩
      · split
        · rw [start]
          split
          · exact ⟨_, _, _, rfl⟩
          · exact ⟨_, _, _, rfl⟩
        · exact ⟨_, _, _, rfl⟩

theorem dispatchEach_eq (c : Core) (m : Memory) (slots : List Slot) :
    ∃ csrs units stations, (c.dispatchEach m slots).core = { c with csrs, units, stations } := by
  induction slots generalizing c m with
  | nil => exact ⟨_, _, _, rfl⟩
  | cons slot slots ih =>
    obtain ⟨csrs, units, stations, hfirst⟩ := c.dispatchAt_eq m slot
    rw [dispatchEach]
    dsimp only
    split
    · exact ⟨csrs, units, stations, hfirst⟩
    · obtain ⟨csrs', units', stations', hlater⟩ :=
        ih (c.dispatchAt m slot).core (c.dispatchAt m slot).memory
      exact ⟨csrs', units', stations', by rw [hlater, hfirst]⟩

/-- A cycle up to the end of dispatch. -/
def dispatched (c : Core) (q : IssueQueue) (m : Memory) : Dispatched :=
  (c.beginCycle.issue q).core.advanceUnits.publish.core.dispatch m

theorem dispatched_eq (c : Core) (q : IssueQueue) (m : Memory) :
    ∃ csrs aliases window stations units bus arbiter, (c.dispatched q m).core =
      { c with csrs, aliases, window, stations, units, bus, arbiter } := by
  obtain ⟨window, stations, aliases, hissue⟩ := c.beginCycle.issue_eq q
  obtain ⟨units, bus, arbiter, hpublish⟩ := (c.beginCycle.issue q).core.advanceUnits.publish_eq
  obtain ⟨csrs, units', stations', hdispatch⟩ :=
    dispatchEach_eq (c.beginCycle.issue q).core.advanceUnits.publish.core m
      (c.beginCycle.issue q).core.advanceUnits.publish.core.stations.dispatchable
  refine ⟨csrs, aliases, window, stations', units', bus, arbiter, ?_⟩
  rw [dispatched, dispatch, hdispatch, hpublish, advanceUnits, hissue, beginCycle]

theorem wakeUp_eq (c : Core) : ∃ bus stations window redirect,
    c.wakeUp.core = { c with bus, stations, window, redirect } := by
  rw [wakeUp]
  split
  · exact ⟨_, _, _, _, rfl⟩
  · exact ⟨_, _, _, _, rfl⟩

/-- Nothing is counted before retirement. -/
theorem counts_wakeUp (c : Core) (q : IssueQueue) (m : Memory) :
    (c.dispatched q m).core.wakeUp.core.cycle = c.cycle ∧
      (c.dispatched q m).core.wakeUp.core.retired = c.retired ∧
      (c.dispatched q m).core.wakeUp.core.halted = c.halted := by
  obtain ⟨_, _, _, _, hwoken⟩ := (c.dispatched q m).core.wakeUp_eq
  obtain ⟨_, _, _, _, _, _, _, hdispatched⟩ := c.dispatched_eq q m
  rw [hwoken, hdispatched]
  exact ⟨rfl, rfl, rfl⟩

variable {c : Core} {q : IssueQueue} {m : Memory}

/-- A cycle fails where dispatch fails, and then it is over. -/
theorem tick_eq_of_fault {fault : MemoryError} (hrun : c.halted = false)
    (h : (c.dispatched q m).fault = some fault) : c.tick q m =
      { core := (c.dispatched q m).core, queue := (c.beginCycle.issue q).queue
        memory := (c.dispatched q m).memory
        events := .cycle c.cycle :: (c.beginCycle.issue q).events ++
          (c.beginCycle.issue q).core.advanceUnits.publish.events ++ (c.dispatched q m).events
        fault := some fault } := by
  rw [dispatched] at h ⊢
  rw [tick, if_neg (by rw [hrun]; exact Bool.false_ne_true)]
  dsimp only
  rw [h]

theorem tick_of_fault {fault : MemoryError} (hrun : c.halted = false)
    (h : (c.dispatched q m).fault = some fault) :
    (c.tick q m).fault = some fault ∧ (c.tick q m).core = (c.dispatched q m).core := by
  rw [tick_eq_of_fault hrun h]
  exact ⟨rfl, rfl⟩

/-- Otherwise it goes on with wake-up and retirement. -/
theorem tick_eq_of_ok (hrun : c.halted = false) (h : (c.dispatched q m).fault = none) : c.tick q m =
    { core := (c.dispatched q m).core.wakeUp.core.retire.core.endCycle
      queue := (c.beginCycle.issue q).queue, memory := (c.dispatched q m).memory
      events := .cycle c.cycle :: (c.beginCycle.issue q).events ++
        (c.beginCycle.issue q).core.advanceUnits.publish.events ++ (c.dispatched q m).events ++
        (c.dispatched q m).core.wakeUp.events ++
        (c.dispatched q m).core.wakeUp.core.retire.events } := by
  rw [dispatched] at h ⊢
  rw [tick, if_neg (by rw [hrun]; exact Bool.false_ne_true)]
  dsimp only
  rw [h]

theorem tick_of_ok (hrun : c.halted = false) (h : (c.dispatched q m).fault = none) :
    (c.tick q m).fault = none ∧
      (c.tick q m).core = (c.dispatched q m).core.wakeUp.core.retire.core.endCycle := by
  rw [tick_eq_of_ok hrun h]
  exact ⟨rfl, rfl⟩

theorem fault_tick (hrun : c.halted = false) :
    (c.tick q m).fault = (c.dispatched q m).fault := by
  cases h : (c.dispatched q m).fault with
  | none => exact (tick_of_ok hrun h).1
  | some fault => exact (tick_of_fault hrun h).1

/-! ### The counters of the core -/

theorem cycle_retire (c : Core) : c.retire.core.cycle = c.cycle := by
  rw [retire]
  split
  · rfl
  · next tag e w hcommit => exact c.retiring_cycle tag e w

theorem retired_retire_le (c : Core) : c.retire.core.retired ≤ c.retired + 1 := by
  rw [retire]
  split
  · exact Nat.le_succ _
  · next tag e w hcommit => exact Nat.le_of_eq (c.retiring_retired tag e w)

/-- A cycle that fails does not count. -/
theorem counts_tick_of_fault {fault : MemoryError} (hrun : c.halted = false)
    (h : (c.tick q m).fault = some fault) :
    (c.tick q m).core.cycle = c.cycle ∧ (c.tick q m).core.retired = c.retired := by
  obtain ⟨_, _, _, _, _, _, _, hdispatched⟩ := c.dispatched_eq q m
  rw [(tick_of_fault hrun ((fault_tick hrun).symm.trans h)).2, hdispatched]
  exact ⟨rfl, rfl⟩

/-- Any other one does, and one instruction retires in it at most. -/
theorem counts_tick_of_ok (hrun : c.halted = false) (h : (c.tick q m).fault = none) :
    (c.tick q m).core.cycle = c.cycle + 1 ∧ (c.tick q m).core.retired ≤ c.retired + 1 := by
  obtain ⟨hcycle, hretired, -⟩ := c.counts_wakeUp q m
  have hle := (c.dispatched q m).core.wakeUp.core.retired_retire_le
  rw [(tick_of_ok hrun ((fault_tick hrun).symm.trans h)).2]
  exact ⟨congrArg (· + 1) ((cycle_retire _).trans hcycle), hretired ▸ hle⟩

end Core

end OutOfOrder
