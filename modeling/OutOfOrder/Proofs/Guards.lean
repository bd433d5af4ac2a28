import OutOfOrder.Proofs.Guarded
import OutOfOrder.Proofs.InOrder
import OutOfOrder.Proofs.Progress

/-!
# The checks never find anything

At any moment the structures of the core agree with one another, and everything in flight has come
out of the decoder. That is all that the checks of a cycle ask for: each part of `Tables.tick` gets
past its checks and does to the tables what the same part of `Core.tick` does to the core, whether
the core was at the beginning of a cycle or had been left by one that failed, and whatever the sizes
of its structures are, zero included.

## Main definitions

* `Flawless` — no contradiction is reported
* `System.bench` — the tables of a system
* `System.Untroubled` — no contradiction has been reported, and the counters fit

## Main results

* `Snapshot.tables_publish`, `Snapshot.Sound.tables_issue`, `tables_visit`, `tables_wakeUp`,
  `tables_retire` — the parts of a cycle
* `Snapshot.Sound.tables_tick`, `flawless_tick` — a cycle
* `System.guards_hold` — all histories
-/

namespace OutOfOrder

/-- No contradiction is reported. -/
def Flawless (es : List Event) : Prop := ∀ d, Event.defect d ∉ es

theorem flawless_nil : Flawless [] := nofun

theorem Flawless.append {es fs : List Event} (hes : Flawless es) (hfs : Flawless fs) :
    Flawless (es ++ fs) := fun d hd => (List.mem_append.mp hd).elim (hes d) (hfs d)

/-- What has come out of the decoder has a printed form. -/
theorem Instruction.Decoded.isSome_text? {i : Instruction} (h : i.Decoded) :
    i.text?.isSome = true := by
  have hi : decode i.word i.pc i.uuid = .ok i := h
  rw [decode] at hi
  dsimp only at hi
  split at hi
  · cases hi
  · split at hi
    · cases hi
    · split at hi
      · cases hi
      · next name hname =>
        rw [Except.ok.inj hi] at hname
        rw [text?, hname]
        rfl

theorem IssueQueue.isEmpty_of_pop? {q : IssueQueue} (h : q.pop? = none) : q.isEmpty = true := by
  rw [pop?] at h
  split at h
  · next hq =>
    rw [isEmpty, hq]
    rfl
  · cases h

namespace Snapshot

variable {c : Core} {q : IssueQueue} {m : Memory}

theorem Sound.steps {s t : Snapshot} (hs : s.Sound) (h : s.Steps t) : t.Sound :=
  Steps.keeps Sound.step h hs

/-! ### Printing -/

theorem Sound.print {n : Nat} {e : Entry} (hs : Sound ⟨c, q, m⟩) (he : c.window.nth? n = some e) :
    Tables.print e.instruction = .ok ⟨⟩ := by
  rw [Tables.print, (hs.decoded he).isSome_text?, insist_true]

theorem Sound.printPool (hs : Sound ⟨c, q, m⟩) : c.tables.printPool = .ok ⟨⟩ := by
  refine forM_eq_ok fun ⟨k, t⟩ ht => ?_
  obtain ⟨n, e, hserve, -⟩ := hs.consistent.serves (Stations.mem_toList_iff.mp ht)
  have hget : c.tables.window.get? t.tag = some e :=
    (c.window.ring_get? t.tag).trans hserve.get?_tag
  dsimp only
  rw [hget, demand_some, ok_bind]
  exact hs.print hserve.entry

theorem Sound.dump (hs : Sound ⟨c, q, m⟩) : c.tables.dump = .ok ⟨⟩ := by
  have hprint : forM c.window.toList (fun u => Tables.print u.2.instruction) = .ok ⟨⟩ := by
    refine forM_eq_ok fun u hu => ?_
    obtain ⟨i, hi⟩ := List.mem_iff_getElem?.mp hu
    exact hs.print (ReorderBuffer.nth?_of_toList hi).1
  rw [Tables.dump, show c.tables.window = c.window.ring from rfl, c.window.ring_entries, ok_bind,
    hprint, ok_bind, hs.printPool]

/-! ### Issue -/

/-- If there is room, none of the structures refuses. -/
theorem Sound.tables_issuing {i : Instruction} {rest : IssueQueue} {tag : Tag} {slot : Slot}
    {w : ReorderBuffer} {p : Stations} (hs : Sound ⟨c, q, m⟩) (hpop : q.pop? = some (i, rest))
    (hw : c.window.allocate? i = some (tag, w))
    (hp : c.stations.allocate? (c.stationFor i tag) = some (slot, p)) :
    c.tables.issue q = .ok { tables := (c.issuing i tag w p).tables, queue := rest } := by
  have hafter : Sound ⟨c.issuing i tag w p, rest, m⟩ :=
    hs.step (.issue (s := ⟨c, q, m⟩) hpop hw hp)
  have hentered := ReorderBuffer.entered_of_allocate? hw
  have hwaiting := IssueQueue.waiting_of_pop? hpop
  have hroom : ¬(q.isEmpty || c.tables.window.isFull || c.tables.stations.isFull) = true := by
    have hwindow : c.window.isFull ≠ true := fun h => by
      rw [ReorderBuffer.allocate?_eq_none_iff.mpr h] at hw
      cases hw
    have hstations : c.stations.isFull ≠ true := fun h => by
      rw [Stations.allocate?_eq_none_iff.mpr h] at hp
      cases hp
    rw [show c.tables.window.isFull = c.window.isFull from c.window.ring_isFull,
      IssueQueue.isEmpty, hwaiting, Bool.or_eq_true, Bool.or_eq_true]
    rintro ((h | h) | h)
    · cases h
    · exact hwindow h
    · exact hstations h
  have hfront : q.front? = some i := by
    rw [IssueQueue.front?, hwaiting]
    rfl
  have hnext : c.tables.window.next? = some tag :=
    c.window.ring_next?.trans (ReorderBuffer.nextTag?_of_allocate? hw)
  have hstation : c.tables.stations.allocate?
      { tag, uuid := i.uuid, unit := i.unit
        src1 := c.operand i.control.usesRs1 i.rs1
        src2 := c.operand i.control.usesRs2 i.rs2 } = some (slot, p) := hp
  have henter : c.tables.window.enter i = .ok (some (tag, w.ring)) := by
    rw [show c.tables.window = c.window.ring from rfl, c.window.ring_enter, hw]
    rfl
  have hget : w.ring.get? tag = some { instruction := i } := by
    rw [w.ring_get?, hentered.tag_eq, ← hentered.place]
    exact ReorderBuffer.get?_place hentered.newest
  have hprint : Tables.print i = .ok ⟨⟩ :=
    hafter.print (e := { instruction := i }) hentered.newest
  have hpool : (c.issuing i tag w p).tables.printPool = .ok ⟨⟩ := hafter.printPool
  rw [Tables.issue, if_neg hroom]
  simp only [hfront, hnext, hstation, hpop, henter, hget, demand_some, ok_bind, c.tables_operand,
    c.tables_record, beq_self_eq_true, insist_true, hprint]
  change ((c.issuing i tag w p).tables.printPool >>= _) = _
  rw [hpool]
  rfl

theorem Sound.tables_issue (hs : Sound ⟨c, q, m⟩) :
    c.tables.issue q = .ok { tables := (c.issue q).core.tables, queue := (c.issue q).queue } := by
  have stays : (q.isEmpty || c.tables.window.isFull || c.tables.stations.isFull) = true →
      c.tables.issue q = .ok { tables := c.tables, queue := q } := fun h => if_pos h
  rw [Core.issue]
  split
  · next hpop =>
    refine stays ?_
    rw [IssueQueue.isEmpty_of_pop? hpop]
    rfl
  · next i rest hpop =>
    split
    · next hw =>
      refine stays ?_
      rw [show c.tables.window.isFull = c.window.isFull from c.window.ring_isFull,
        ReorderBuffer.allocate?_eq_none_iff.mp hw, Bool.or_true]
      rfl
    · next tag w hw =>
      dsimp only
      split
      · next hp =>
        refine stays ?_
        rw [show c.tables.stations.isFull = true from Stations.allocate?_eq_none_iff.mp hp,
          Bool.or_true]
      · next slot p hp => exact hs.tables_issuing hpop hw hp

/-! ### Publication -/

theorem tables_publish (c : Core) : c.tables.publish = .ok c.publish.core.tables := by
  have hrequests : c.tables.requests = c.requests := rfl
  rw [Tables.publish, Core.publish, hrequests, show c.tables.bus = c.bus from rfl,
    show c.tables.arbiter = c.arbiter from rfl]
  split
  · next hempty =>
    have hbus : ∀ r, c.bus.publish? r = some { current := some r } := by
      intro r
      rw [Bus.publish?, Option.isNone_iff_eq_none.mp hempty]
    cases hgrant : c.arbiter.grant c.requests with
    | none => rfl
    | some x =>
      obtain ⟨winner, arbiter⟩ := x
      obtain ⟨o, ho⟩ := Core.output?_of_grant hgrant
      have hunit : lookup .units c.tables.units winner.index = .ok (c.units.get winner) :=
        c.units.lookup_toList winner
      have hstore : ∀ u, store .units c.tables.units winner.index u =
        .ok (c.units.set winner u).toList := c.units.store_toList winner
      have hclear : (c.units.get winner).clear? =
          some (o, { c.units.get winner with work := none }) := by
        rw [FunctionalUnit.clear?, ho]
        rfl
      simp only [hunit, ho, hbus, hclear, hstore, demand_some, ok_bind, beq_self_eq_true,
        insist_true]
      rfl
  · rfl

/-! ### Dispatch -/

/-- A visit to a station that may start on its free unit depends on what it computes only. -/
theorem Sound.tables_startable {slot : Slot} {t : Station} {e : Entry} {a b : Word}
    (hs : Sound ⟨c, q, m⟩) (h : Startable ⟨c, q, m⟩ slot t e a b) :
    c.tables.visit m slot =
      match e.instruction.compute a b m c.csrs with
      | .error fault => .ok { tables := c.tables, memory := m, fault := some fault }
      | .ok x => .ok { tables := (c.starting slot t x).tables, memory := x.memory } := by
  obtain ⟨n, hserve⟩ := h.exists_serves hs.consistent
  have hstation : c.tables.stations.get? slot = some t := h.eligible.get
  have ha : t.src1.value? = some a := Operand.value?_eq_some_iff.mpr h.src1
  have hb : t.src2.value? = some b := Operand.value?_eq_some_iff.mpr h.src2
  have hunit : lookup .units c.tables.units t.unit.index = .ok (c.units.get t.unit) :=
    c.units.lookup_toList t.unit
  have hstore : ∀ u, store .units c.tables.units t.unit.index u =
    .ok (c.units.set t.unit u).toList := c.units.store_toList t.unit
  have hidle : ¬(c.units.get t.unit).isBusy = true := by
    rw [FunctionalUnit.isBusy, h.free]
    exact Bool.false_ne_true
  have hbegin : ∀ o, (c.units.get t.unit).start? o = some ((c.units.get t.unit).begin o) :=
    fun _ => if_neg hidle
  have hentry : c.tables.window.get? t.tag = some e :=
    (c.window.ring_get? t.tag).trans hserve.get?_tag
  have hprint : Tables.print e.instruction = .ok ⟨⟩ := hs.print hserve.entry
  have hstart : c.tables.stations.start? slot = some (c.stations.markRunning slot t) := by
    rw [Stations.start?, hstation]
    dsimp only
    rw [if_neg (by rw [h.eligible.waiting]; exact Bool.false_ne_true)]
    rfl
  rw [Tables.visit, hstation]
  simp only [ha, hb, hunit, hentry, demand_some, ok_bind]
  rw [if_neg hidle, show c.tables.csrs = c.csrs from rfl]
  cases e.instruction.compute a b m c.csrs with
  | error fault => rfl
  | ok x =>
    simp only [hprint, hbegin, hstore, hstart, demand_some, ok_bind]
    rfl

theorem Sound.tables_visit {slot : Slot} {t : Station} (hs : Sound ⟨c, q, m⟩)
    (ht : c.stations.Eligible slot t) : c.tables.visit m slot =
      .ok { tables := (c.dispatchAt m slot).core.tables, memory := (c.dispatchAt m slot).memory
            fault := (c.dispatchAt m slot).fault } := by
  have hvisit := visit_of_eligible (s := ⟨c, q, m⟩) hs.consistent ht
  dsimp only at hvisit
  generalize c.dispatchAt m slot = d at hvisit ⊢
  cases hvisit with
  | stall hbusy =>
    have hstation : c.tables.stations.get? slot = some t := ht.get
    obtain ⟨a, ha⟩ : ∃ a, t.src1 = .ready a := ht.operands .first
    obtain ⟨b, hb⟩ : ∃ b, t.src2 = .ready b := ht.operands .second
    have hunit : lookup .units c.tables.units t.unit.index = .ok (c.units.get t.unit) :=
      c.units.lookup_toList t.unit
    have hbusy : (c.units.get t.unit).isBusy = true := Option.isSome_iff_ne_none.mpr hbusy
    rw [Tables.visit, hstation]
    simp only [Operand.value?_eq_some_iff.mpr ha, Operand.value?_eq_some_iff.mpr hb, hunit,
      demand_some, ok_bind]
    rw [if_pos hbusy]
    rfl
  | fail h hfault => rw [hs.tables_startable h, hfault]
  | start h hx => rw [hs.tables_startable h, hx]

theorem Sound.tables_visitEach {slots : List Slot} (hs : Sound ⟨c, q, m⟩) (hnodup : slots.Nodup)
    (hslots : ∀ k ∈ slots, ∃ t, c.stations.Eligible k t) : c.tables.visitEach m slots =
      .ok { tables := (c.dispatchEach m slots).core.tables
            memory := (c.dispatchEach m slots).memory
            fault := (c.dispatchEach m slots).fault } := by
  induction slots generalizing c m with
  | nil => rfl
  | cons slot slots ih =>
    obtain ⟨t, ht⟩ := hslots slot List.mem_cons_self
    have hlater := hs.steps (dispatches_dispatchAt (q := q) (m := m) ht).1.journal.steps
    obtain ⟨hnodup, hslots⟩ := eligible_dispatchAt (m := m) hnodup hslots
    rw [Tables.visitEach, Core.dispatchEach, hs.tables_visit ht, ok_bind]
    dsimp only
    cases hfault : (c.dispatchAt m slot).fault with
    | some fault => simp only [hfault]; rfl
    | none => exact ih hlater hnodup hslots

/-! ### Wake-up and retirement -/

theorem Sound.tables_wakeUp (hs : Sound ⟨c, q, m⟩) :
    c.tables.wakeUp = .ok c.wakeUp.core.tables := by
  rw [Tables.wakeUp, Core.wakeUp, show c.tables.bus.peek? = c.bus.current from rfl, Bus.take?]
  cases hbus : c.bus.current with
  | none => rfl
  | some r =>
    have hafter : Sound ⟨c.delivering r, q, m⟩ := hs.step (.deliver (s := ⟨c, q, m⟩) hbus)
    obtain ⟨t, n, e, hserve, htag, -⟩ := hs.consistent.delivering_completes hbus
    have hget : (c.tables.stations.broadcast r.tag r.result).get? r.slot =
        some (t.wake r.tag r.result) := by
      rw [Stations.get?_broadcast, show c.tables.stations.get? r.slot = some t from hserve.station]
      rfl
    have hsame : ((t.wake r.tag r.result).tag == r.tag) = true := beq_iff_eq.mpr htag
    have hmark : c.tables.window.markReady? r.tag r.result =
        some ((c.window.markReady? r.tag r.result).getD c.window).ring := by
      obtain ⟨w, hw, -⟩ := ReorderBuffer.exists_completed r.result hserve.entry
      rw [← hserve.tag, htag] at hw
      rw [show c.tables.window = c.window.ring from rfl, c.window.ring_markReady?, hw]
      rfl
    have hpool : (c.delivering r).tables.printPool = .ok ⟨⟩ := hafter.printPool
    simp only [hget, hsame, hmark, demand_some, ok_bind, insist_true]
    change ((c.delivering r).tables.printPool >>= _) = _
    rw [hpool]
    rfl

theorem Sound.tables_retire (hs : Sound ⟨c, q, m⟩) (hretired : c.retired < 0xFFFFFFFFFFFFFFFF) :
    c.tables.retire = .ok c.retire.core.tables := by
  have hleave : c.tables.window.leave = _ := c.window.ring_leave
  rw [Tables.retire, hleave, ok_bind, Core.retire]
  cases hcommit : c.window.commit? with
  | none => rfl
  | some x =>
    obtain ⟨tag, e, w⟩ := x
    have hprint : Tables.print e.instruction = .ok ⟨⟩ :=
      hs.print (ReorderBuffer.left_of_commit? hcommit).oldest
    have hcount : increment c.tables.retired = .ok (c.retired + 1) := increment_of_lt hretired
    obtain ⟨registers, aliases, heq⟩ := c.retiring_eq tag e w
    have hretire : (({ c with window := w } : Core).committing tag e) = _ := heq
    simp only [Option.map_some, c.tables_settle tag e w, hcount, hprint, ok_bind, hretire, heq]
    rfl

/-! ### A cycle -/

theorem Sound.tables_untilDispatch (hs : Sound ⟨c, q, m⟩) : c.tables.untilDispatch q m =
    .ok ((c.beginCycle.issue q).queue,
      { tables := (c.dispatched q m).core.tables, memory := (c.dispatched q m).memory
        fault := (c.dispatched q m).fault }) := by
  have hbegun := hs.steps journal_beginCycle.steps
  have hissued := hbegun.steps journal_issue.steps
  have hpublished :=
    (hissued.steps journal_advanceUnits.steps).steps journal_publish.steps
  have hissue : c.tables.beginCycle.issue q = _ := hbegun.tables_issue
  have hpublish : (c.beginCycle.issue q).core.tables.advanceUnits.publish = _ :=
    tables_publish (c.beginCycle.issue q).core.advanceUnits
  have hvisit := hpublished.tables_visitEach (Stations.nodup_dispatchable _)
    fun _ hk => Stations.mem_dispatchable.mp hk
  rw [Tables.untilDispatch, hissue, ok_bind]
  dsimp only
  rw [hpublish, ok_bind, show ∀ d : Core, d.tables.stations = d.stations from fun _ => rfl, hvisit]
  rfl

theorem Sound.tables_fromDispatch (hs : Sound ⟨c, q, m⟩)
    (hcycle : c.wakeUp.core.cycle < 0xFFFFFFFFFFFFFFFF)
    (hretired : c.wakeUp.core.retired < 0xFFFFFFFFFFFFFFFF) :
    c.tables.fromDispatch = .ok c.wakeUp.core.retire.core.endCycle.tables := by
  have hwoken := hs.steps journal_wakeUp.steps
  have hgone := hwoken.steps journal_retire.steps
  have hcount : increment c.wakeUp.core.retire.core.tables.cycle =
      .ok (c.wakeUp.core.retire.core.cycle + 1) :=
    increment_of_lt (by rwa [show c.wakeUp.core.retire.core.tables.cycle = c.wakeUp.core.cycle from
      Core.cycle_retire _])
  rw [Tables.fromDispatch, hs.tables_wakeUp, ok_bind, hwoken.tables_retire hretired, ok_bind,
    hgone.dump, ok_bind, hcount]
  rfl

/-- No more instructions retire than there are cycles that count. -/
theorem counts_tick (c : Core) (q : IssueQueue) (m : Memory) :
    ((c.tick q m).core.cycle = c.cycle ∧ (c.tick q m).core.retired = c.retired) ∨
      (c.tick q m).core.cycle = c.cycle + 1 ∧ (c.tick q m).core.retired ≤ c.retired + 1 := by
  cases hrun : c.halted with
  | true =>
    rw [Core.tick, if_pos hrun]
    exact .inl ⟨rfl, rfl⟩
  | false =>
    cases hfault : (c.tick q m).fault with
    | some fault => exact .inl (Core.counts_tick_of_fault hrun hfault)
    | none => exact .inr (Core.counts_tick_of_ok hrun hfault)

/-- **A cycle passes all its checks**, and the tables that it leaves behind are those of the core
that it leaves behind. -/
theorem Sound.tables_tick (hs : Sound ⟨c, q, m⟩) (hcycle : c.cycle < 0xFFFFFFFFFFFFFFFF)
    (hretired : c.retired < 0xFFFFFFFFFFFFFFFF) : c.tables.tick q m =
      .ok { tables := (c.tick q m).core.tables, queue := (c.tick q m).queue
            memory := (c.tick q m).memory, fault := (c.tick q m).fault } := by
  obtain ⟨hcycle', hretired', -⟩ := c.counts_wakeUp q m
  have hdispatched : Sound ⟨(c.dispatched q m).core, (c.beginCycle.issue q).queue,
      (c.dispatched q m).memory⟩ :=
    (hs.steps journal_published.steps).steps dispatches_dispatch.journal.steps
  have hrest := hdispatched.tables_fromDispatch (hcycle' ▸ hcycle) (hretired' ▸ hretired)
  rw [Tables.tick, Core.tick, show c.tables.halted = c.halted from rfl]
  split
  · rfl
  · rw [hs.tables_untilDispatch, ok_bind]
    dsimp only
    cases hfault : (c.dispatched q m).fault with
    | some fault =>
      rw [Core.dispatched] at hfault
      rw [hfault]
      rfl
    | none =>
      dsimp only
      rw [hrest, ok_bind]
      rw [Core.dispatched] at hfault
      rw [hfault]
      rfl

/-! ### Contradictions -/

theorem flawless_issue : Flawless (c.issue q).events := by
  intro d hd
  rcases Core.cases_of_mem_issue hd with ⟨_, _, _, _, _, hd⟩ | ⟨_, hd⟩ | ⟨_, hd⟩ <;> cases hd

theorem flawless_publish : Flawless c.publish.events := by
  rw [Core.publish]
  intro d hd
  split at hd
  · split at hd
    · cases hd
    · next winner arbiter hgrant =>
      obtain ⟨o, ho⟩ := Core.output?_of_grant hgrant
      rw [FunctionalUnit.clear?, ho] at hd
      simp at hd
  · cases hd

theorem flawless_sideEffects {i : Instruction} {a b : Word} :
    Flawless (c.sideEffects m i a b) := by
  rw [Core.sideEffects]
  intro d hd
  cases hunit : i.unit <;> simp [hunit] at hd

theorem Sound.flawless_dispatchAt {slot : Slot} {t : Station} (hs : Sound ⟨c, q, m⟩)
    (ht : c.stations.Eligible slot t) : Flawless (c.dispatchAt m slot).events := by
  have hvisit := visit_of_eligible (s := ⟨c, q, m⟩) hs.consistent ht
  dsimp only at hvisit
  generalize c.dispatchAt m slot = d at hvisit ⊢
  cases hvisit with
  | stall _ => exact fun d hd => by simp at hd
  | fail _ _ => exact flawless_sideEffects
  | start _ _ => exact flawless_sideEffects.append fun d hd => by simp at hd

theorem Sound.flawless_dispatchEach {slots : List Slot} (hs : Sound ⟨c, q, m⟩)
    (hnodup : slots.Nodup) (hslots : ∀ k ∈ slots, ∃ t, c.stations.Eligible k t) :
    Flawless (c.dispatchEach m slots).events := by
  induction slots generalizing c m with
  | nil => exact flawless_nil
  | cons slot slots ih =>
    obtain ⟨t, ht⟩ := hslots slot List.mem_cons_self
    have hlater := hs.steps (dispatches_dispatchAt (q := q) (m := m) ht).1.journal.steps
    obtain ⟨hnodup, hslots⟩ := eligible_dispatchAt (m := m) hnodup hslots
    rw [Core.dispatchEach]
    dsimp only
    split
    · exact hs.flawless_dispatchAt ht
    · exact (hs.flawless_dispatchAt ht).append (ih hlater hnodup hslots)

theorem Sound.flawless_wakeUp (hs : Sound ⟨c, q, m⟩) : Flawless c.wakeUp.events := by
  rw [Core.wakeUp, Bus.take?]
  cases hbus : c.bus.current with
  | none => exact flawless_nil
  | some r =>
    obtain ⟨t, n, e, hserve, htag, -⟩ := hs.consistent.delivering_completes hbus
    have hdefects : c.broadcastDefects r = [] := by
      have hget : c.window.get? r.tag = some e := htag ▸ hserve.get?_tag
      rw [Core.broadcastDefects, hserve.station, hget]
      simp [htag]
    dsimp only [Option.map_some]
    rw [hdefects]
    exact fun d hd => by simp at hd

theorem flawless_retire : Flawless c.retire.events := by
  intro d hd
  rcases Core.cases_of_mem_retire hd with ⟨_, _, hd⟩ | ⟨_, _, _, hd⟩ <;> cases hd

/-- **A cycle reports no contradiction.** -/
theorem Sound.flawless_tick (hs : Sound ⟨c, q, m⟩) : Flawless (c.tick q m).events := by
  have hpublished := hs.steps journal_published.steps
  have hdispatched := hpublished.steps dispatches_dispatch.journal.steps
  have hcycle : Flawless [.cycle c.cycle] := fun d hd => by simp at hd
  have hbefore : Flawless (.cycle c.cycle :: (c.beginCycle.issue q).events ++
      (c.beginCycle.issue q).core.advanceUnits.publish.events ++
      ((c.beginCycle.issue q).core.advanceUnits.publish.core.dispatch m).events) :=
    ((hcycle.append flawless_issue).append flawless_publish).append
      (hpublished.flawless_dispatchEach (Stations.nodup_dispatchable _)
        fun _ hk => Stations.mem_dispatchable.mp hk)
  rw [Core.tick]
  split
  · exact flawless_nil
  · dsimp only
    split
    · exact hbefore
    · exact (hbefore.append hdispatched.flawless_wakeUp).append flawless_retire

end Snapshot

/-! ### Histories -/

namespace System

variable {st : CoreSettings} {n : Nat} {m : Memory} {s : System}

/-- The tables of a system. -/
def bench (s : System) : Bench :=
  { tables := s.core.tables, queue := s.queue, memory := s.memory, faults := s.faults }

theorem bench_new (st : CoreSettings) (n : Nat) (m : Memory) :
    (new st n m).bench = .new st n m := by
  rw [bench, Bench.new, ← Core.tables_new]
  rfl

theorem Reachable.perform (h : Reachable st n m s) (a : Action) :
    Reachable st n m (s.perform a) := by
  cases a with
  | offer word pc uuid => exact h.offer word pc uuid
  | cycle => exact h.tick

theorem Reachable.performAll (h : Reachable st n m s) (actions : List Action) :
    Reachable st n m (s.performAll actions) := by
  induction actions generalizing s with
  | nil => exact h
  | cons a actions ih => exact ih (h.perform a)

/-- Nothing has been reported that contradicts anything, and there have been at most `k` cycles. -/
structure Untroubled (s : System) (k : Nat) : Prop where
  flawless : Flawless s.events
  retired_le : s.core.retired ≤ s.core.cycle
  cycle_le : s.core.cycle ≤ k

theorem untroubled_new (st : CoreSettings) (n : Nat) (m : Memory) :
    (new st n m).Untroubled 0 :=
  ⟨flawless_nil, Nat.le_refl _, Nat.le_refl _⟩

/-- An offer touches the queue only. -/
theorem offer_eq (s : System) (word pc : Word) (uuid : Nat) : ∃ queue accepted,
    s.accepted <+: accepted ∧ s.offer word pc uuid = { s with queue, accepted } := by
  rw [offer]
  split
  · exact s.push_eq _
  · exact ⟨s.queue, s.accepted, List.prefix_refl _, rfl⟩

theorem bench_offer (s : System) (word pc : Word) (uuid : Nat) :
    s.bench.perform (.offer word pc uuid) = .ok (s.offer word pc uuid).bench := by
  rw [Bench.perform, offer]
  cases decode word pc uuid with
  | error _ => rfl
  | ok i =>
    dsimp only
    rw [push, show s.bench.queue = s.queue from rfl]
    cases s.queue.push? i <;> rfl

theorem Untroubled.offer {k : Nat} (hs : s.Untroubled k) (word pc : Word) (uuid : Nat) :
    (s.offer word pc uuid).Untroubled k := by
  obtain ⟨queue, accepted, -, heq⟩ := s.offer_eq word pc uuid
  rw [heq]
  exact ⟨hs.flawless, hs.retired_le, hs.cycle_le⟩

/-- **A cycle of a system passes all its checks**, if its number fits into 64 bits. -/
theorem Untroubled.bench_tick {k : Nat} (hs : s.Untroubled k) (h : Reachable st n m s)
    (hk : k < 0xFFFFFFFFFFFFFFFF) : s.bench.perform .cycle = .ok s.tick.bench := by
  have hcycle := Nat.lt_of_le_of_lt hs.cycle_le hk
  have htick : s.bench.tables.tick s.bench.queue s.bench.memory = _ :=
    h.sound.tables_tick hcycle (Nat.lt_of_le_of_lt hs.retired_le hcycle)
  rw [Bench.perform, htick]
  rfl

theorem Untroubled.tick {k : Nat} (hs : s.Untroubled k) (h : Reachable st n m s) :
    s.tick.Untroubled (k + 1) := by
  have hretired := hs.retired_le
  have hcycle := hs.cycle_le
  have hcounts := Snapshot.counts_tick s.core s.queue s.memory
  refine ⟨hs.flawless.append h.sound.flawless_tick, ?_, ?_⟩
  · change (s.core.tick s.queue s.memory).core.retired ≤ (s.core.tick s.queue s.memory).core.cycle
    omega
  · change (s.core.tick s.queue s.memory).core.cycle ≤ k + 1
    omega

theorem Untroubled.perform {k : Nat} (hs : s.Untroubled k) (h : Reachable st n m s) (a : Action)
    (hk : k + [a].count .cycle ≤ 0xFFFFFFFFFFFFFFFF) :
    s.bench.perform a = .ok (s.perform a).bench ∧
      (s.perform a).Untroubled (k + [a].count .cycle) := by
  cases a with
  | offer word pc uuid => exact ⟨s.bench_offer word pc uuid, hs.offer word pc uuid⟩
  | cycle => exact ⟨hs.bench_tick h hk, hs.tick h⟩

/-- Whatever is done after one another passes all checks. -/
theorem Untroubled.performAll {k : Nat} {actions : List Action} (hs : s.Untroubled k)
    (h : Reachable st n m s) (hk : k + actions.count .cycle ≤ 0xFFFFFFFFFFFFFFFF) :
    s.bench.performAll actions = .ok (s.performAll actions).bench ∧
      Reachable st n m (s.performAll actions) ∧
      (s.performAll actions).Untroubled (k + actions.count .cycle) := by
  induction actions generalizing s k with
  | nil => exact ⟨rfl, h, hs⟩
  | cons a actions ih =>
    rw [← List.singleton_append, List.count_append, ← Nat.add_assoc] at hk ⊢
    obtain ⟨hfirst, hs⟩ := hs.perform h a (by omega)
    rw [List.singleton_append, Bench.performAll, List.foldlM_cons, hfirst, ok_bind]
    exact ih hs (h.perform a) hk

/-- **The checks never find anything.** Whatever instructions are offered and however many cycles
run in between, up to what a 64-bit counter can count: the tables with all their checks end where
the core ends. So no number is beyond its table, no place is counted around an empty ring, every
structure takes what it is given, and no contradiction is reported, whatever the settings, the queue
and the memory are and whether cycles fail or not. And everything that waits or is in flight has a
printed form. -/
theorem guards_hold (st : CoreSettings) (n : Nat) (m : Memory) (actions : List Action)
    (hcycles : actions.count .cycle < 0x10000000000000000) :
    let s := (new st n m).performAll actions
    (Bench.new st n m).performAll actions = .ok s.bench ∧ Flawless s.events ∧
      (∀ i ∈ s.queue.waiting, i.text?.isSome = true) ∧
      ∀ u ∈ s.core.window.toList, u.2.instruction.text?.isSome = true := by
  intro s
  have hk : 0 + actions.count .cycle ≤ 0xFFFFFFFFFFFFFFFF := by omega
  obtain ⟨hbench, hreach, hs⟩ := (untroubled_new st n m).performAll .new hk
  rw [bench_new] at hbench
  refine ⟨hbench, hs.flawless, fun i hi => (hreach.sound.waiting i hi).isSome_text?, fun u hu => ?_⟩
  obtain ⟨i, hi⟩ := List.mem_iff_getElem?.mp hu
  exact (hreach.sound.decoded (ReorderBuffer.nth?_of_toList hi).1).isSome_text?

/-- A load from an odd address on a core with a single place: the cycle fails twice, the checks are
passed all the same, and the number of the second instruction is the number of the first. -/
theorem guards_hold_misaligned :
    ∃ b, (Bench.new { windowSize := 1 } 2 (.empty 0 16)).performAll
        [.offer 0x00102083 0 7, .offer 0x00500093 4 7, .cycle, .cycle] = .ok b ∧
      b.faults = [.misaligned 1 4, .misaligned 1 4] ∧ b.queue.length = 1 := by
  obtain ⟨hbench, -⟩ := guards_hold { windowSize := 1 } 2 (.empty 0 16)
    [.offer 0x00102083 0 7, .offer 0x00500093 4 7, .cycle, .cycle] (by decide)
  exact ⟨_, hbench, rfl, rfl⟩

end System

end OutOfOrder
