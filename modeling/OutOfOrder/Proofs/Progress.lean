import OutOfOrder.Proofs.Conservation
import OutOfOrder.Proofs.Precision
import Mathlib.Logic.Function.Iterate

/-!
# Progress

The oldest instruction in flight may have to wait for a unit that a younger one occupies, and this
one may lose the bus again and again to others that are younger still. So it is of no use to follow
one instruction. But each cycle does something for somebody, and there is only so much to do: every
instruction is issued, starts, counts down its latency, gets the bus, is delivered and retires, and
never goes back. `Core.ahead` counts what is still ahead, and a cycle that does not fail brings it
down unless there is nothing in flight and nothing waits.

That a cycle in which nothing happens has nothing to do is shown backwards. If nobody has finished
and nobody holds the bus, all units are free; so if nobody may start, the oldest instruction in
flight is not waiting for an operand or for its turn, and is not there at all.

## Main definitions

* `Core.ahead` — how many steps are ahead until a number of instructions have retired
* `System.feed` — offering a program as fast as the queue takes it

## Main results

* `Snapshot.Steps.ahead_le` — no step goes back
* `Snapshot.tick_works` — a cycle that has something to do gets ahead, or fails
* `System.Reachable.progress` — so every program comes to an end
-/

namespace OutOfOrder

/-! ### What is ahead of each part -/

namespace FunctionalUnit

variable {u : FunctionalUnit}

/-- What is ahead of the instruction in a unit: the rest of its latency, the bus and delivery. -/
def ahead (u : FunctionalUnit) : Nat :=
  match u.work with
  | none => 0
  | some w => w.remaining + 2

theorem ahead_of_work {w : Work} (h : u.work = some w) : u.ahead = w.remaining + 2 := by
  rw [ahead, h]

theorem ahead_of_idle (h : u.work = none) : u.ahead = 0 := by
  rw [ahead, h]

theorem ahead_tick_le (u : FunctionalUnit) : u.tick.ahead ≤ u.ahead := by
  rw [ahead, ahead, tick]
  cases u.work with
  | none => exact Nat.le_refl 0
  | some w => exact Nat.add_le_add_right (Nat.sub_le _ 1) 2

/-- A unit for which time does not pass has finished, if it has anything to do at all. -/
theorem work_of_ahead_tick (h : u.ahead ≤ u.tick.ahead) (hdone : u.tick.output? = none) :
    u.tick.work = none := by
  rw [ahead, ahead, tick] at h
  rw [output?, tick] at hdone
  rw [tick]
  cases hwork : u.work with
  | none => rfl
  | some w =>
    rw [hwork] at h hdone
    dsimp only [Option.map_some] at h hdone
    have hzero : w.remaining - 1 = 0 := by omega
    rw [hzero] at hdone
    cases hdone

end FunctionalUnit

namespace Units

variable (us : Units) (k : UnitKind) (u : FunctionalUnit)

/-- What is ahead of the instructions in the units. -/
def ahead : Nat := us.alu.ahead + us.branch.ahead + us.memory.ahead + us.system.ahead

/-- A bound for the latency of each unit. -/
def latency : Nat := us.alu.latency + us.branch.latency + us.memory.latency + us.system.latency

theorem ahead_set : (us.set k u).ahead + (us.get k).ahead = us.ahead + u.ahead := by
  cases k <;> simp only [ahead, set, get] <;> omega

theorem latency_set (h : u.latency = (us.get k).latency) : (us.set k u).latency = us.latency := by
  cases k <;> simp_all only [latency, set, get]

theorem latency_get_le : (us.get k).latency ≤ us.latency := by
  cases k <;> simp only [latency, get] <;> omega

theorem ahead_tick_le : us.tick.ahead ≤ us.ahead :=
  Nat.add_le_add (Nat.add_le_add (Nat.add_le_add us.alu.ahead_tick_le us.branch.ahead_tick_le)
    us.memory.ahead_tick_le) us.system.ahead_tick_le

/-- If time passes for no unit, it passes for none of them. -/
theorem ahead_get_le_tick (h : us.ahead ≤ us.tick.ahead) :
    (us.get k).ahead ≤ (us.get k).tick.ahead := by
  have halu := us.alu.ahead_tick_le
  have hbranch := us.branch.ahead_tick_le
  have hmemory := us.memory.ahead_tick_le
  have hsystem := us.system.ahead_tick_le
  simp only [ahead, tick] at h
  cases k <;> simp only [get] <;> omega

end Units

namespace Stations

variable {p q : Stations} {l : Slot} {s : Station}

/-- How many stations have not started. -/
def unstarted (p : Stations) : Nat := p.slots.countP fun o => o.any fun s => !s.running

theorem unstarted_set (i : Slot) (o : Option Station) (hi : i < p.slots.length) :
    (Stations.mk (p.slots.set i o)).unstarted +
        (if (p.get? i).any (fun s => !s.running) then 1 else 0) =
      p.unstarted + if o.any (fun s => !s.running) then 1 else 0 := by
  have hget : p.get? i = p.slots[i] := by
    rw [get?, List.getElem?_eq_getElem hi]
    rfl
  rw [unstarted, unstarted, hget, List.countP_set hi]
  split
  · next hcounts =>
    have hpos : 0 < p.slots.countP fun o => o.any fun s => !s.running :=
      List.countP_pos_iff.mpr ⟨p.slots[i], List.getElem_mem hi, hcounts⟩
    omega
  · omega

theorem unstarted_allocate (h : p.allocate? s = some (l, q)) (hwaiting : s.running = false) :
    q.unstarted = p.unstarted + 1 := by
  have hfree := (get?_allocate h).1
  obtain ⟨i, hi, he⟩ := Option.map_eq_some_iff.mp h
  obtain ⟨rfl, rfl⟩ := Prod.mk.inj he
  obtain ⟨hlt, -⟩ := List.findIdx?_eq_some_iff_getElem.mp hi
  have hset := unstarted_set i (some s) hlt
  simpa [hfree, hwaiting] using hset

theorem unstarted_markRunning (h : p.get? l = some s) (hwaiting : s.running = false) :
    (p.markRunning l s).unstarted + 1 = p.unstarted := by
  have hset := unstarted_set l (some { s with running := true }) (lt_of_get? h)
  rw [markRunning]
  simpa [h, hwaiting] using hset

theorem unstarted_broadcast (tag : Tag) (value : Word) :
    (p.broadcast tag value).unstarted = p.unstarted := by
  rw [unstarted, unstarted, broadcast, List.countP_map]
  refine List.countP_congr fun o _ => ?_
  cases o <;> rfl

theorem unstarted_release (h : p.get? l = some s) (hrun : s.running = true) :
    (p.release l).unstarted = p.unstarted := by
  have hset := unstarted_set l none (lt_of_get? h)
  rw [release]
  simpa [h, hrun] using hset

/-- There is a free slot as long as not all are in use. -/
theorem allocate?_ne_none (hroom : 0 < p.capacity) (h : ∀ k, p.get? k = none) (s : Station) :
    p.allocate? s ≠ none := by
  intro hnone
  obtain ⟨t, ht⟩ := isFull_iff.mp (allocate?_eq_none_iff.mp hnone) 0 hroom
  rw [h 0] at ht
  cases ht

end Stations

/-! ### Arbitration -/

theorem Request.eq_nil_of_oldest? {rs : List Request} (h : oldest? rs = none) : rs = [] := by
  cases rs with
  | nil => rfl
  | cons r rs =>
    rw [oldest?] at h
    split at h
    · cases h
    · split at h <;> cases h

theorem UnitKind.mem_cycle (k l : UnitKind) : k ∈ UnitKind.cycle l := by
  cases k <;> cases l <;> decide

namespace Arbiter

variable {a b : Arbiter} {rs : List Request} {k : UnitKind}

theorem oldest?_mem {r : Request} (h : Request.oldest? rs = some r) : r ∈ rs := by
  induction rs generalizing r with
  | nil => cases h
  | cons r' rs ih =>
    rw [Request.oldest?] at h
    split at h
    · rw [Option.some.inj h]
      exact List.mem_cons_self
    · next r'' hr =>
      split at h
      · exact List.mem_cons_of_mem _ (ih (hr.trans h))
      · rw [Option.some.inj h]
        exact List.mem_cons_self

/-- Whatever the policy, the bus goes to one of those who ask for it, -/
theorem mem_of_grant (h : a.grant rs = some (k, b)) : ∃ r ∈ rs, r.unit = k := by
  obtain ⟨l, hl, he⟩ := Option.map_eq_some_iff.mp h
  have hlk : l = k := by
    split at he
    all_goals exact (Prod.mk.inj he).1
  subst hlk
  rw [winner?] at hl
  split at hl
  · simpa using List.find?_some hl
  · simpa using List.find?_some hl
  · obtain ⟨r, hr, rfl⟩ := Option.map_eq_some_iff.mp hl
    exact ⟨r, oldest?_mem hr, rfl⟩

/-- and if anybody asks, somebody gets it. -/
theorem eq_nil_of_grant (h : a.grant rs = none) : rs = [] := by
  have hwinner := Option.map_eq_none_iff.mp h
  cases rs with
  | nil => rfl
  | cons r rs =>
    exfalso
    rw [winner?] at hwinner
    split at hwinner
    · have := List.find?_eq_none.mp hwinner r.unit (by cases r.unit <;> decide)
      simp at this
    · have := List.find?_eq_none.mp hwinner r.unit (UnitKind.mem_cycle _ _)
      simp at this
    · cases Request.eq_nil_of_oldest? (Option.map_eq_none_iff.mp hwinner)

end Arbiter

/-! ### What is ahead of the core -/

namespace Core

variable {c : Core} {n : Nat} {i : Instruction} {tag : Tag} {w : ReorderBuffer} {p : Stations}
  {l : Slot} {t : Station} {k : UnitKind} {o : Completion} {e : Entry} {x : Effect} {r : Broadcast}

/-- How many steps are ahead until `n` instructions have retired, if each takes as long as it can:
issue, start, the latency of its unit, the bus, delivery and retirement. -/
def ahead (c : Core) (n : Nat) : Nat :=
  (n - c.window.next) * (c.units.latency + 4) + c.stations.unstarted * (c.units.latency + 3) +
    c.units.ahead + (if c.bus.isEmpty then 0 else 1) + (n - c.window.departed)

theorem ahead_issuing (hw : c.window.Entered i tag w)
    (hp : c.stations.allocate? (c.stationFor i tag) = some (l, p)) (hn : c.window.next < n) :
    (c.issuing i tag w p).ahead n < c.ahead n := by
  have hsucc : n - c.window.next = n - (c.window.next + 1) + 1 := by omega
  rw [ahead, ahead, issuing]
  dsimp only
  rw [hw.next, hw.departed, Stations.unstarted_allocate hp rfl, hsucc, Nat.succ_mul, Nat.succ_mul]
  omega

theorem ahead_advanceUnits_le (c : Core) (n : Nat) : c.advanceUnits.ahead n ≤ c.ahead n := by
  have hle := c.units.ahead_tick_le
  have hlatency : c.units.tick.latency = c.units.latency := rfl
  rw [ahead, ahead, advanceUnits]
  dsimp only
  rw [hlatency]
  omega

theorem ahead_publishing (hbus : c.bus.current = none)
    (hdone : (c.units.get k).output? = some o) : (c.publishing k o).ahead n < c.ahead n := by
  have hunits : (c.publishing k o).units.ahead + 2 = c.units.ahead := by
    have hset := c.units.ahead_set k { c.units.get k with work := none }
    rw [FunctionalUnit.ahead_of_work (FunctionalUnit.output?_eq_some_iff.mp hdone)] at hset
    exact hset
  have hlatency : (c.publishing k o).units.latency = c.units.latency := Units.latency_set _ _ _ rfl
  have hempty : c.bus.isEmpty = true := Option.isNone_iff_eq_none.mpr hbus
  have hfull : (c.publishing k o).bus.isEmpty = false := rfl
  have hwindow : (c.publishing k o).window = c.window := rfl
  have hstations : (c.publishing k o).stations = c.stations := rfl
  rw [ahead, ahead, hlatency, hwindow, hstations, hempty, hfull, if_pos rfl,
    if_neg Bool.false_ne_true]
  omega

theorem ahead_starting (ht : c.stations.get? l = some t) (hwaiting : t.running = false)
    (hfree : (c.units.get t.unit).work = none) : (c.starting l t x).ahead n < c.ahead n := by
  have hunits : (c.starting l t x).units.ahead =
      c.units.ahead + ((c.units.get t.unit).latency + 2) := by
    have hset := c.units.ahead_set t.unit ((c.units.get t.unit).begin (completion l t x))
    rw [FunctionalUnit.ahead_of_idle hfree, FunctionalUnit.ahead_of_work rfl] at hset
    exact hset
  have hlatency : (c.starting l t x).units.latency = c.units.latency := Units.latency_set _ _ _ rfl
  have hle := c.units.latency_get_le t.unit
  have hunstarted : (c.starting l t x).stations.unstarted + 1 = c.stations.unstarted :=
    Stations.unstarted_markRunning ht hwaiting
  have hwindow : (c.starting l t x).window = c.window := rfl
  have hbus : (c.starting l t x).bus = c.bus := rfl
  rw [ahead, ahead, hlatency, hunits, ← hunstarted, hwindow, hbus, Nat.succ_mul]
  omega

theorem ahead_delivering (hc : c.Consistent) (hbus : c.bus.current = some r) :
    (c.delivering r).ahead n < c.ahead n := by
  obtain ⟨s, _, _, hserve, -, hrun, hw⟩ := hc.delivering_completes hbus
  have hstation : (c.stations.broadcast r.tag r.result).get? r.slot =
      some (s.wake r.tag r.result) := by
    rw [Stations.get?_broadcast, hserve.station]
    rfl
  have hunstarted : (c.delivering r).stations.unstarted = c.stations.unstarted :=
    (Stations.unstarted_release hstation hrun).trans (Stations.unstarted_broadcast _ _)
  have hunits : (c.delivering r).units = c.units := rfl
  have hempty : (c.delivering r).bus.isEmpty = true := rfl
  have hfull : c.bus.isEmpty = false := by
    rw [Bus.isEmpty, hbus]
    rfl
  rw [ahead, ahead, hunstarted, hw.next, hw.departed, hunits, hempty, hfull, if_pos rfl,
    if_neg Bool.false_ne_true]
  omega

theorem ahead_retiring (hw : c.window.Left tag e w) (hn : c.window.departed < n) :
    (c.retiring tag e w).ahead n < c.ahead n := by
  rw [ahead, ahead, retiring_window, retiring_stations, retiring_units, retiring_bus, hw.next,
    hw.departed]
  omega

end Core

namespace Snapshot

variable {s t : Snapshot} {start : Sequential} {is : List Instruction} {k n : Nat}

/-- No step goes back. -/
theorem Step.ahead_le (h : s.Step t) (hs : s.OnTrack start is k) (hn : k ≤ n) :
    t.core.ahead n ≤ s.core.ahead n := by
  have hnext := Nat.le_trans hs.follows.next_le hn
  cases h with
  | count csrs arbiter cycle hcells => exact Nat.le_refl _
  | issue hpop hwindow hstations =>
    have hlt := Nat.lt_of_lt_of_le (hs.follows.front hpop).2.1 hn
    exact Nat.le_of_lt
      (Core.ahead_issuing (ReorderBuffer.entered_of_allocate? hwindow) hstations hlt)
  | advance => exact s.core.ahead_advanceUnits_le n
  | publish hbus hdone => exact Nat.le_of_lt (Core.ahead_publishing hbus hdone)
  | start ht hfree hentry ha hb heffect =>
    exact Nat.le_of_lt (Core.ahead_starting ht.get ht.waiting hfree)
  | deliver hbus => exact Nat.le_of_lt (Core.ahead_delivering hs.sound.consistent hbus)
  | retire hcommit =>
    have hw := ReorderBuffer.left_of_commit? hcommit
    have hlt := (ReorderBuffer.bounds_of_nth? hw.oldest).2
    exact Nat.le_of_lt (Core.ahead_retiring hw (Nat.lt_of_lt_of_le hlt hnext))

/-- Nor do any number of steps. -/
theorem Steps.ahead_le (h : s.Steps t) (hs : s.OnTrack start is k) (hnum : Numbered is)
    (hn : k ≤ n) : t.OnTrack start is k ∧ t.core.ahead n ≤ s.core.ahead n := by
  induction h with
  | refl => exact ⟨hs, Nat.le_refl _⟩
  | tail _ hlast ih =>
    obtain ⟨hu, hle⟩ := ih
    exact ⟨hu.step hnum hlast, Nat.le_trans (hlast.ahead_le hu hn) hle⟩

end Snapshot

/-! ### A cycle in which nothing happens

Each part of a cycle gets ahead if it can do anything at all. -/

namespace Core

variable {c : Core} {q : IssueQueue} {m : Memory} {n : Nat}

/-- If nothing is in the window after issue, nothing waits in the queue. -/
theorem isEmpty_of_issue (hc : c.Consistent) (hwindow : 0 < c.window.capacity)
    (hstations : 0 < c.stations.capacity) (h : (c.issue q).core.window.isEmpty = true) :
    c.window.isEmpty = true ∧ q.isEmpty = true := by
  rw [issue] at h
  split at h
  · next hpop =>
    refine ⟨h, ?_⟩
    rw [IssueQueue.pop?] at hpop
    split at hpop
    · next hwaiting => rw [IssueQueue.isEmpty, hwaiting]; rfl
    · simp at hpop
  · next i rest hpop =>
    split at h
    · next hfull =>
      have hentries : c.window.entries = [] := List.isEmpty_iff.mp h
      rw [ReorderBuffer.allocate?, dif_pos (by rw [hentries]; exact hwindow)] at hfull
      simp at hfull
    · next tag window hallocate =>
      dsimp only at h
      split at h
      · next hfull =>
        refine absurd hfull (Stations.allocate?_ne_none hstations (fun k => ?_) _)
        by_contra hk
        obtain ⟨t, ht⟩ := Option.ne_none_iff_exists'.mp hk
        obtain ⟨l, e, hserve, -⟩ := hc.serves ht
        have hnth := hserve.entry
        rw [ReorderBuffer.nth?_of_isEmpty h] at hnth
        simp at hnth
      · have hnewest := (ReorderBuffer.entered_of_allocate? hallocate).newest
        rw [ReorderBuffer.nth?_of_isEmpty h] at hnewest
        simp at hnewest

/-- The unit that gets the bus has finished. -/
theorem output?_of_grant {k : UnitKind} {b : Arbiter}
    (h : c.arbiter.grant c.requests = some (k, b)) : ∃ o, (c.units.get k).output? = some o := by
  obtain ⟨r, hr, rfl⟩ := Arbiter.mem_of_grant h
  obtain ⟨k, -, hk⟩ := List.mem_filterMap.mp hr
  obtain ⟨o, ho, rfl⟩ := Option.map_eq_some_iff.mp hk
  exact ⟨o, ho⟩

/-- If nothing is on the bus after publication, nobody has finished. -/
theorem output?_of_publish (hbus : c.publish.core.bus.current = none) :
    c.publish.core.units = c.units ∧ ∀ k, (c.units.get k).output? = none := by
  rw [publish] at hbus ⊢
  split at hbus
  · next hempty =>
    rw [if_pos hempty]
    split at hbus
    · next hgrant =>
      refine ⟨rfl, fun k => ?_⟩
      cases ho : (c.units.get k).output? with
      | none => rfl
      | some o =>
        have hmem : { unit := k, uuid := o.uuid } ∈ c.requests :=
          List.mem_filterMap.mpr ⟨k, by cases k <;> decide, by rw [ho]; rfl⟩
        rw [Arbiter.eq_nil_of_grant hgrant] at hmem
        cases hmem
    · next winner arbiter hgrant =>
      obtain ⟨o, ho⟩ := output?_of_grant hgrant
      rw [FunctionalUnit.clear?, ho] at hbus
      cases hbus
  · next hfull => exact absurd (Option.isNone_iff_eq_none.mpr hbus) hfull

/-- If nobody starts although all units are free, nobody may start. -/
theorem dispatchable_of_dispatch {start : Sequential} {is : List Instruction} {k : Nat}
    (hs : Snapshot.OnTrack start is k ⟨c, q, m⟩) (hnum : Numbered is) (hn : k ≤ n)
    (hidle : ∀ k, (c.units.get k).work = none) (hok : (c.dispatch m).fault = none)
    (h : c.ahead n ≤ (c.dispatch m).core.ahead n) : c.stations.dispatchable = [] := by
  cases hslots : c.stations.dispatchable with
  | nil => rfl
  | cons slot slots =>
    exfalso
    have hnodup := c.stations.nodup_dispatchable
    have heligible : ∀ k ∈ c.stations.dispatchable, ∃ t, c.stations.Eligible k t :=
      fun _ hk => Stations.mem_dispatchable.mp hk
    rw [hslots] at hnodup heligible
    rw [dispatch, hslots, dispatchEach] at hok h
    -- the first visit is to a station that starts, unless it fails
    obtain ⟨t, ht⟩ := heligible slot List.mem_cons_self
    have hvisit := Snapshot.visit_of_eligible hs.sound.consistent ht
    obtain ⟨hnodup, heligible⟩ := Snapshot.eligible_dispatchAt (m := m) hnodup heligible
    have hlater := Snapshot.dispatches_dispatchEach (q := q) (m := (c.dispatchAt m slot).memory)
      hnodup heligible
    have hsteps := (Snapshot.dispatches_dispatchAt (q := q) (m := m) ht).1.journal.steps
    have htrack := (hsteps.ahead_le hs hnum hn).1
    have hle := (hlater.journal.steps.ahead_le htrack hnum hn).2
    dsimp only at hvisit
    generalize c.dispatchAt m slot = d at hvisit hok h hle
    cases hvisit with
    | stall hbusy => exact hbusy (hidle t.unit)
    | fail _ _ => cases hok
    | start _ _ =>
      exact absurd (Nat.le_trans h hle)
        (Nat.not_le_of_lt (ahead_starting ht.get ht.waiting (hidle t.unit)))

/-- If nothing is delivered, there is nothing on the bus. -/
theorem bus_of_wakeUp (hc : c.Consistent) (h : c.ahead n ≤ c.wakeUp.core.ahead n) :
    c.bus.current = none := by
  cases hbus : c.bus.current with
  | none => rfl
  | some r =>
    rw [wakeUp, Bus.take?, hbus] at h
    exact absurd h (Nat.not_le_of_lt (ahead_delivering hc hbus))

/-- If nothing retires, the oldest instruction has no result. -/
theorem commit?_of_retire (hn : c.window.next ≤ n) (h : c.ahead n ≤ c.retire.core.ahead n) :
    c.window.commit? = none := by
  cases hcommit : c.window.commit? with
  | none => rfl
  | some r =>
    obtain ⟨tag, e, w⟩ := r
    have hw := ReorderBuffer.left_of_commit? hcommit
    have hlt := (ReorderBuffer.bounds_of_nth? hw.oldest).2
    rw [retire, hcommit] at h
    exact absurd h (Nat.not_le_of_lt (ahead_retiring hw (Nat.lt_of_lt_of_le hlt hn)))

/-- A core in which nobody works, nobody may start and nobody may leave is empty. -/
theorem isEmpty_of_stuck {start : Sequential} {is : List Instruction} {k : Nat}
    (hs : Snapshot.OnTrack start is k ⟨c, q, m⟩) (hnum : Numbered is)
    (hidle : ∀ k, (c.units.get k).work = none) (hbus : c.bus.current = none)
    (hstations : c.stations.dispatchable = []) (hcommit : c.window.commit? = none) :
    c.window.isEmpty = true := by
  have hc := hs.sound.consistent
  cases hentries : c.window.entries with
  | nil => rw [ReorderBuffer.isEmpty, hentries]; rfl
  | cons e es =>
    exfalso
    have holdest : c.window.nth? c.window.departed = some e := by
      have := c.window.nth?_departed_add 0
      rw [Nat.add_zero, hentries] at this
      exact this
    have hunready : e.ready = false := by
      cases hready : e.ready with
      | false => rfl
      | true =>
        rw [ReorderBuffer.commit?] at hcommit
        split at hcommit
        · next hnil => rw [hnil] at hentries; cases hentries
        · next hcons =>
          obtain ⟨rfl, rfl⟩ := List.cons.inj (hcons.symm.trans hentries)
          rw [if_pos hready] at hcommit
          simp at hcommit
    obtain ⟨slot, t, hserve⟩ := hc.served holdest hunready
    have hwaiting : t.running = false := by
      cases hrun : t.running with
      | false => rfl
      | true =>
        obtain ⟨h, r, hr, -⟩ := hc.carries_of_running hserve.station hrun
        cases h with
        | unit k => rw [carries, completion?, hidle] at hr; cases hr
        | bus => rw [carries, hbus] at hr; cases hr
    have hoperands : ∀ x, ∃ v, t.operand x = .ready v := by
      intro x
      cases hx : t.operand x with
      | ready v => exact ⟨v, rfl⟩
      | pending tag =>
        -- it could only wait for somebody older
        obtain ⟨-, m, f, hlast, hm, -⟩ := hs.sound.renamed.pending hserve hx
        exact absurd (ReorderBuffer.bounds_of_nth? hm).1 (Nat.not_le_of_lt hlast.lt)
    have hunlocked : c.stations.isLocked slot = false := by
      cases hlocked : c.stations.isLocked slot with
      | false => rfl
      | true =>
        -- and it could only be locked by somebody older
        obtain ⟨-, l, u, hu, -, huuid⟩ := (Stations.isLocked_iff hserve.station).mp hlocked
        obtain ⟨m, f, hf, -, hfuuid, -⟩ := hc.serves hu
        rw [hfuuid, (hserve.describes hc).1] at huuid
        have hle := (ReorderBuffer.bounds_of_nth? hf.entry).1
        rcases Nat.eq_or_lt_of_le hle with heq | hlt
        · rw [← heq] at hf
          obtain rfl := Option.some.inj (holdest.symm.trans hf.entry)
          exact absurd huuid (Nat.lt_irrefl _)
        · exact absurd (Precise.uuid_lt hs.follows hnum holdest hf.entry hlt) (Nat.lt_asymm huuid)
    have hmem := Stations.mem_dispatchable.mpr
      ⟨t, hserve.station, hwaiting, hoperands, hunlocked⟩
    rw [hstations] at hmem
    cases hmem

end Core

/-! ### Every cycle does something -/

namespace Snapshot

variable {s t : Snapshot} {start : Sequential} {is : List Instruction} {k n : Nat}

/-- There is room for an instruction. -/
structure Roomy (s : Snapshot) : Prop where
  window : 0 < s.core.window.capacity
  stations : 0 < s.core.stations.capacity

theorem Roomy.step (h : s.Step t) (hc : s.core.Consistent) (hs : s.Roomy) : t.Roomy := by
  cases h with
  | count csrs arbiter cycle hcells => exact ⟨hs.window, hs.stations⟩
  | issue hpop hwindow hstations =>
    obtain ⟨i, -, he⟩ := Option.map_eq_some_iff.mp hstations
    obtain ⟨-, rfl⟩ := Prod.mk.inj he
    exact ⟨Nat.lt_of_lt_of_eq hs.window (ReorderBuffer.entered_of_allocate? hwindow).capacity.symm,
      Nat.lt_of_lt_of_eq hs.stations List.length_set.symm⟩
  | advance => exact ⟨hs.window, hs.stations⟩
  | publish hbus hdone => exact ⟨hs.window, hs.stations⟩
  | start ht hfree hentry ha hb heffect =>
    exact ⟨hs.window, Nat.lt_of_lt_of_eq hs.stations List.length_set.symm⟩
  | deliver hbus =>
    obtain ⟨_, _, _, -, -, -, hw⟩ := hc.delivering_completes hbus
    refine ⟨Nat.lt_of_lt_of_eq hs.window hw.capacity.symm, ?_⟩
    rw [Core.delivering, Stations.capacity, Stations.release, List.length_set, Stations.broadcast,
      List.length_map]
    exact hs.stations
  | retire hcommit =>
    refine ⟨?_, ?_⟩
    · rw [Core.retiring_window, (ReorderBuffer.left_of_commit? hcommit).capacity]
      exact hs.window
    · rw [Core.retiring_stations]
      exact hs.stations

theorem capacity_of_push? {q r : IssueQueue} {i : Instruction} (h : q.push? i = some r) :
    r.capacity = q.capacity := by
  rw [IssueQueue.push?] at h
  split at h
  · cases h
  · obtain rfl := Option.some.inj h
    rfl

theorem Step.queue_capacity (h : s.Step t) : t.queue.capacity = s.queue.capacity := by
  cases h with
  | issue hpop _ _ =>
    rw [IssueQueue.pop?] at hpop
    split at hpop
    · cases hpop
    · obtain ⟨-, rfl⟩ := Prod.mk.inj (Option.some.inj hpop)
      rfl
  | _ => rfl

/-- If time does not pass in any unit, those that work have finished. -/
theorem work_of_advanceUnits {c : Core} (h : c.ahead n ≤ c.advanceUnits.ahead n)
    (hdone : ∀ k, (c.advanceUnits.units.get k).output? = none) (k : UnitKind) :
    (c.advanceUnits.units.get k).work = none := by
  have hunits : c.units.ahead ≤ c.units.tick.ahead := by
    have hlatency : c.units.tick.latency = c.units.latency := rfl
    rw [Core.ahead, Core.ahead, Core.advanceUnits] at h
    dsimp only at h
    rw [hlatency] at h
    omega
  have hdone := hdone k
  rw [Core.advanceUnits, Units.get_tick] at hdone ⊢
  exact FunctionalUnit.work_of_ahead_tick (c.units.ahead_get_le_tick k hunits) hdone

/-- **A cycle that has something to do gets ahead**, unless it fails. -/
theorem tick_works (hs : s.OnTrack start is k) (hnum : Numbered is) (hn : k ≤ n) (hroom : s.Roomy)
    (hrun : s.core.halted = false) (hok : (s.core.tick s.queue s.memory).fault = none)
    (hbusy : ¬(s.core.window.isEmpty = true ∧ s.queue.isEmpty = true)) :
    s.tick.core.ahead n < s.core.ahead n := by
  by_contra hnot
  obtain ⟨c, q, m⟩ := s
  have hok : (c.dispatched q m).fault = none := (Core.fault_tick hrun).symm.trans hok
  have hnot := Nat.le_of_not_lt hnot
  rw [tick] at hnot
  dsimp only at hrun hnot
  rw [(Core.tick_of_ok hrun hok).2] at hnot
  rw [Core.dispatched] at hok hnot
  -- the cores at the beginning, after issue, publication, dispatch, wake-up and retirement
  obtain ⟨hs₀, hle₀⟩ := (journal_beginCycle (c := c)).steps.ahead_le hs hnum hn
  obtain ⟨hs₁, hle₁⟩ := journal_issue.steps.ahead_le hs₀ hnum hn
  generalize hc₁ : (c.beginCycle.issue q).core = c₁ at hok hnot hs₁ hle₁
  obtain ⟨hs₂, hle₂⟩ := journal_advanceUnits.steps.ahead_le hs₁ hnum hn
  obtain ⟨hs₃, hle₃⟩ := journal_publish.steps.ahead_le hs₂ hnum hn
  generalize hc₃ : c₁.advanceUnits.publish.core = c₃ at hok hnot hs₃ hle₃
  obtain ⟨hs₄, hle₄⟩ := dispatches_dispatch.journal.steps.ahead_le hs₃ hnum hn
  obtain ⟨hs₅, hle₅⟩ := journal_wakeUp.steps.ahead_le hs₄ hnum hn
  obtain ⟨hs₆, hle₆⟩ := journal_retire.steps.ahead_le hs₅ hnum hn
  dsimp only at hle₀ hle₁ hle₂ hle₃ hle₄ hle₅ hle₆
  change c.ahead n ≤ (c₃.dispatch m).core.wakeUp.core.retire.core.ahead n at hnot
  -- nobody has the bus, nobody works, nobody may start and nobody may leave
  have hbus₄ : (c₃.dispatch m).core.bus.current = none :=
    Core.bus_of_wakeUp (n := n) hs₄.sound.consistent (by omega)
  have hbus : c₃.bus.current = none := by
    obtain ⟨_, _, _, heq⟩ := c₃.dispatchEach_eq m c₃.stations.dispatchable
    rw [Core.dispatch, heq] at hbus₄
    exact hbus₄
  have hidle : ∀ k, (c₃.units.get k).work = none := by
    subst hc₃
    obtain ⟨hunits, hdone⟩ := Core.output?_of_publish hbus
    rw [hunits]
    exact work_of_advanceUnits (n := n) (by omega) hdone
  have hstations : c₃.stations.dispatchable = [] :=
    Core.dispatchable_of_dispatch hs₃ hnum hn hidle hok (by omega)
  have hquiet : (c₃.dispatch m).core.wakeUp.core = c₃ := by
    rw [Core.dispatch, hstations, Core.dispatchEach, Core.wakeUp, Bus.take?, hbus]
    rfl
  rw [hquiet] at hnot hle₅ hle₆ hs₅
  have hcommit : c₃.window.commit? = none :=
    Core.commit?_of_retire (Nat.le_trans hs₅.follows.next_le hn) (by omega)
  have hempty := Core.isEmpty_of_stuck hs₃ hnum hidle hbus hstations hcommit
  -- so there was nothing to issue, and nothing in flight before
  refine hbusy (Core.isEmpty_of_issue (c := c.beginCycle) hs₀.sound.consistent hroom.window
    hroom.stations ?_)
  obtain ⟨_, _, _, heq⟩ := c₁.advanceUnits.publish_eq
  rw [hc₁, ← hempty, ← hc₃, heq]
  rfl

/-- The machine halts only when an instruction retires. -/
theorem Steps.retired_le (h : s.Steps t) :
    (t.core.retired = s.core.retired ∧ t.core.halted = s.core.halted) ∨
      s.core.retired < t.core.retired := by
  induction h with
  | refl => exact .inl ⟨rfl, rfl⟩
  | tail _ hlast ih =>
    cases hlast with
    | retire hcommit =>
      refine .inr ?_
      rw [Core.retiring_retired]
      omega
    | _ => exact ih

/-- Something is in flight or waits as long as not everything has retired. -/
theorem OnTrack.busy_iff (hs : s.OnTrack start is k) :
    ¬(s.core.window.isEmpty = true ∧ s.queue.isEmpty = true) ↔ s.core.window.departed < k := by
  have hlength : s.queue.waiting.length = k - s.core.window.next := by
    rw [hs.follows.waiting, List.length_drop, List.length_take,
      Nat.min_eq_left hs.follows.le_length]
  have hnext : s.core.window.next = s.core.window.departed + s.core.window.entries.length := rfl
  have hle := hs.follows.next_le
  rw [ReorderBuffer.isEmpty, IssueQueue.isEmpty, List.isEmpty_iff_length_eq_zero,
    List.isEmpty_iff_length_eq_zero]
  omega

end Snapshot

/-! ### Programs come to an end -/

namespace System

/-- Offer the instructions of a list as long as the queue has room: those that are left, and the
system afterwards. -/
def feed : List Instruction → System → List Instruction × System
  | [], s => ([], s)
  | i :: is, s => if s.queue.isFull then (i :: is, s) else feed is (s.push i)

/-- Feed a system and run one cycle of it. -/
def round (r : List Instruction × System) : List Instruction × System :=
  ((feed r.1 r.2).1, (feed r.1 r.2).2.tick)

/-- What feeding the instructions `is` to `s` comes to. -/
structure Fed (is : List Instruction) (s : System) (rest : List Instruction) (t : System) :
    Prop where
  accepted : t.accepted ++ rest = s.accepted ++ is
  core : t.core = s.core
  faults : t.faults = s.faults
  full : rest = [] ∨ t.queue.isFull = true

namespace Reachable

variable {st : CoreSettings} {n : Nat} {m : Memory} {s : System} {is : List Instruction}

theorem feed (h : Reachable st n m s) (his : ∀ i ∈ is, i.Decoded) :
    Reachable st n m (feed is s).2 ∧ (∀ i ∈ (feed is s).1, i.Decoded) ∧
      Fed is s (feed is s).1 (feed is s).2 := by
  induction is generalizing s with
  | nil => exact ⟨h, his, rfl, rfl, rfl, .inl rfl⟩
  | cons i is ih =>
    rw [System.feed]
    split
    · next hfull => exact ⟨h, his, rfl, rfl, rfl, .inr hfull⟩
    · next hroom =>
      obtain ⟨hi, his⟩ := List.forall_mem_cons.mp his
      obtain ⟨hreach, hrest, hfed⟩ := ih (h.push hi) his
      have hpush : s.push i = { s with
          queue := { s.queue with waiting := s.queue.waiting ++ [i] }
          accepted := s.accepted ++ [i] } := by
        rw [System.push, IssueQueue.push?, if_neg hroom]
      refine ⟨hreach, hrest, ?_, hfed.core.trans ?_, hfed.faults.trans ?_, hfed.full⟩
      · rw [hfed.accepted, hpush, List.append_assoc]
        rfl
      · rw [hpush]
      · rw [hpush]

theorem roomy (h : Reachable st n m s) (hwindow : 0 < st.windowSize.toNat)
    (hstations : 0 < st.stationCount.toNat) : s.snapshot.Roomy := by
  have hnew : (System.new st n m).snapshot.Roomy :=
    ⟨hwindow, Nat.lt_of_lt_of_eq hstations List.length_replicate.symm⟩
  exact (h.keeps (P := fun s => s.core.Consistent ∧ s.Roomy) ⟨Core.consistent_new st, hnew⟩
    (fun _ _ ⟨hc, hs⟩ => ⟨hc, hs.window, hs.stations⟩)
    fun hstep ⟨hc, hs⟩ => ⟨hc.step hstep, hs.step hstep hc⟩).2

/-- As long as not everything has retired, a cycle fails or gets ahead. -/
theorem tick_works (h : Reachable st n m s) (hroom : s.snapshot.Roomy) (hnum : Numbered s.accepted)
    (hrun : s.core.halted = false) (hbusy : s.core.window.departed < s.accepted.length)
    {k : Nat} (hk : s.accepted.length ≤ k) :
    s.faults.length < s.tick.faults.length ∨
      s.tick.faults = s.faults ∧ s.tick.core.ahead k < s.core.ahead k := by
  have hs := h.onTrack (List.prefix_refl _) hnum
  have hfaults : s.tick.faults = s.faults ++ (s.core.tick s.queue s.memory).fault.toList := rfl
  cases hok : (s.core.tick s.queue s.memory).fault with
  | some fault =>
    refine .inl ?_
    rw [hfaults, hok, List.length_append]
    exact Nat.lt_succ_self _
  | none =>
    rw [hok, Option.toList_none, List.append_nil] at hfaults
    have hahead : s.snapshot.tick.core.ahead k < s.snapshot.core.ahead k :=
      Snapshot.tick_works hs hnum hk hroom hrun hok (hs.busy_iff.mpr hbusy)
    exact .inr ⟨hfaults, hahead⟩

/-- Some instruction retires, unless a cycle fails before that. -/
theorem exists_retires (h : Reachable st n m s) (hwindow : 0 < st.windowSize.toNat)
    (hstations : 0 < st.stationCount.toNat) (hnum : Numbered s.accepted)
    (hrun : s.core.halted = false) (hbusy : s.core.window.departed < s.accepted.length) :
    ∃ k, s.faults.length < (System.tick^[k] s).faults.length ∨
      s.core.retired < (System.tick^[k] s).core.retired := by
  induction hahead : s.core.ahead s.accepted.length using Nat.strongRecOn generalizing s with
  | _ a ih =>
    subst hahead
    have hs := h.onTrack (List.prefix_refl _) hnum
    have ht := h.tick.onTrack (List.prefix_refl _) hnum
    rcases h.tick_works (h.roomy hwindow hstations) hnum hrun hbusy (Nat.le_refl _) with
      hfault | ⟨hfaults, hlt⟩
    · exact ⟨1, .inl hfault⟩
    · rcases s.snapshot.steps_tick.retired_le with ⟨hretired, hhalted⟩ | hmore
      · -- the same as before, but with less ahead
        have hretired : s.tick.core.retired = s.core.retired := hretired
        have hhalted : s.tick.core.halted = s.core.halted := hhalted
        have hdeparted : s.tick.core.window.departed = s.core.window.departed :=
          ht.follows.retired.symm.trans (hretired.trans hs.follows.retired)
        obtain ⟨k, hk⟩ := ih _ hlt h.tick hnum (hhalted.trans hrun)
          (Nat.lt_of_le_of_lt (Nat.le_of_eq hdeparted) hbusy) rfl
        refine ⟨k + 1, ?_⟩
        rw [hfaults, hretired] at hk
        exact hk
      · exact ⟨1, .inr hmore⟩

theorem queue_capacity (h : Reachable st n m s) : s.queue.capacity = n :=
  h.keeps (P := fun s => s.queue.capacity = n) rfl
    (fun _ hq hs => (Snapshot.capacity_of_push? hq).trans hs)
    fun hstep hs => hstep.queue_capacity.trans hs

/-- A machine that has halted has executed an instruction that ends the program. -/
theorem exists_exit (h : Reachable st n m s) (hnum : Numbered s.accepted)
    (hhalted : s.core.halted = true) : ∃ i ∈ s.committed, i.isExit = true := by
  have hs := h.onTrack (List.prefix_refl _) hnum
  obtain ⟨l, i, hl, hi, hexit⟩ := hs.follows.halted hhalted
  have hl : l < s.core.window.departed := hl
  refine ⟨i, List.mem_iff_getElem?.mpr ⟨l, ?_⟩, hexit⟩
  rw [h.committed_eq hnum, List.getElem?_take, if_pos hl, hi]

/-- When everything has retired, nothing is in flight and nothing waits. -/
theorem completed (h : Reachable st n m s) (hnum : Numbered s.accepted)
    (hdone : s.accepted.length ≤ s.core.window.departed) :
    s.committed = s.accepted ∧ s.core.isIdle = true ∧ s.queue.isEmpty = true := by
  have hs := h.onTrack (List.prefix_refl _) hnum
  have hidle : s.core.window.isEmpty = true ∧ s.queue.isEmpty = true := by
    by_contra hbusy
    exact absurd (hs.busy_iff.mp hbusy) (Nat.not_lt_of_le hdone)
  rw [h.committed_eq hnum, List.take_of_length_le hdone]
  exact ⟨rfl, h.consistent.isIdle hidle.1, hidle.2⟩

/-- If nothing is to be done after feeding, there was nothing to feed, and nothing to do before. -/
theorem done_of_fed {rest : List Instruction} {t : System} (h : Reachable st n m s)
    (ht : Reachable st n m t) (hfed : Fed is s rest t) (hnum : Numbered (s.accepted ++ is))
    (hqueue : rest = [] ∨ 0 < n) (hdone : t.accepted.length ≤ t.core.window.departed) :
    is = [] ∧ s.accepted.length ≤ s.core.window.departed := by
  have hnum' : Numbered t.accepted := (List.pairwise_append.mp (hfed.accepted ▸ hnum)).1
  have hrest : rest = [] := by
    rcases hfed.full with hrest | hfull
    · exact hrest
    · refine hqueue.resolve_right fun hpos => ?_
      have hempty := (ht.completed hnum' hdone).2.2
      rw [IssueQueue.isFull, IssueQueue.length, List.isEmpty_iff.mp hempty, ht.queue_capacity,
        decide_eq_true_eq, List.length_nil] at hfull
      omega
  have hs := h.onTrack (List.prefix_refl _) (List.pairwise_append.mp hnum).1
  have hle : s.core.window.departed + s.core.window.entries.length ≤ s.accepted.length :=
    hs.follows.next_le
  have hlength := congrArg List.length hfed.accepted
  rw [hrest, List.append_nil, List.length_append] at hlength
  rw [hfed.core] at hdone
  exact ⟨List.eq_nil_of_length_eq_zero (by omega), by omega⟩

/-- A program that is fed to a system is executed to its end, unless the machine halts or a cycle
fails before that. -/
theorem exists_completes (h : Reachable st n m s) (hwindow : 0 < st.windowSize.toNat)
    (hstations : 0 < st.stationCount.toNat) (his : ∀ i ∈ is, i.Decoded)
    (hnum : Numbered (s.accepted ++ is)) (hqueue : is = [] ∨ 0 < n) :
    ∃ k, let r := round^[k] (is, s)
      s.faults.length < r.2.faults.length ∨
      (r.2.core.halted = true ∧ ∃ i ∈ r.2.committed, i.isExit = true) ∨
      (r.1 = [] ∧ r.2.committed = s.accepted ++ is ∧ r.2.core.isIdle = true ∧
        r.2.queue.isEmpty = true) := by
  induction hahead : s.core.ahead (s.accepted ++ is).length using Nat.strongRecOn
    generalizing s is with
  | _ a ih =>
    subst hahead
    have hnum' : Numbered s.accepted := (List.pairwise_append.mp hnum).1
    obtain ⟨ht, hrest, hfed⟩ := h.feed his
    have hround : round (is, s) = ((System.feed is s).1, (System.feed is s).2.tick) := rfl
    have hqueue' : (System.feed is s).1 = [] ∨ 0 < n := by
      refine hqueue.imp_left ?_
      rintro rfl
      rfl
    generalize (System.feed is s).1 = rest at hrest hfed hround hqueue'
    generalize (System.feed is s).2 = t at ht hfed hround
    have hnumt : Numbered (t.accepted ++ rest) := hfed.accepted ▸ hnum
    cases hrun : s.core.halted with
    | true => exact ⟨0, .inr (.inl ⟨hrun, h.exists_exit hnum' hrun⟩)⟩
    | false =>
      by_cases hbusy : t.core.window.departed < t.accepted.length
      · have hlength : t.accepted.length ≤ (s.accepted ++ is).length := by
          rw [← hfed.accepted, List.length_append]
          exact Nat.le_add_right _ _
        rcases ht.tick_works (ht.roomy hwindow hstations) (List.pairwise_append.mp hnumt).1
          (hfed.core ▸ hrun) hbusy hlength with hfault | ⟨hfaults, hlt⟩
        · refine ⟨1, .inl ?_⟩
          rw [Function.iterate_one, hround, ← hfed.faults]
          exact hfault
        · rw [hfed.core, ← hfed.accepted] at hlt
          obtain ⟨k, hk⟩ := ih _ (hfed.accepted ▸ hlt) ht.tick hrest hnumt hqueue' rfl
          refine ⟨k + 1, ?_⟩
          rw [Function.iterate_succ_apply, hround]
          rw [hfaults, hfed.faults] at hk
          rwa [show t.tick.accepted ++ rest = s.accepted ++ is from hfed.accepted] at hk
      · obtain ⟨rfl, hdone⟩ := h.done_of_fed ht hfed hnum hqueue' (Nat.le_of_not_lt hbusy)
        obtain ⟨hcommitted, hidle⟩ := h.completed hnum' hdone
        refine ⟨0, .inr (.inr ⟨rfl, ?_, hidle⟩)⟩
        rw [List.append_nil]
        exact hcommitted

/-- **The core makes progress**, whatever the sizes, the latencies and the policy of the bus, if
only there is room for one instruction. If something is in flight or waits, an instruction retires
after some cycles, unless one of these fails. So a program that is fed to the core as fast as the
queue takes it is executed to its end, and then nothing is in flight and nothing waits, unless the
machine halts or a cycle fails before that. -/
theorem progress (h : Reachable st n m s) (hwindow : 0 < st.windowSize.toNat)
    (hstations : 0 < st.stationCount.toNat)
    (hnum : s.accepted.Pairwise fun i j => i.uuid < j.uuid) :
    (s.core.halted = false → s.core.window.isEmpty = false ∨ s.queue.isEmpty = false →
      ∃ k, s.faults.length < (System.tick^[k] s).faults.length ∨
        s.core.retired < (System.tick^[k] s).core.retired) ∧
    ∀ is : List Instruction, (∀ i ∈ is, decode i.word i.pc i.uuid = .ok i) →
      (s.accepted ++ is).Pairwise (fun i j => i.uuid < j.uuid) → (is = [] ∨ 0 < n) →
      ∃ k, let r := round^[k] (is, s)
        s.faults.length < r.2.faults.length ∨
        (r.2.core.halted = true ∧ ∃ i ∈ r.2.committed, i.isExit = true) ∨
        (r.1 = [] ∧ r.2.committed = s.accepted ++ is ∧ r.2.core.isIdle = true ∧
          r.2.queue.isEmpty = true) := by
  refine ⟨fun hrun hbusy => ?_, fun is his hnum' hqueue =>
    h.exists_completes hwindow hstations his hnum' hqueue⟩
  refine h.exists_retires hwindow hstations hnum hrun
    ((h.onTrack (List.prefix_refl _) hnum).busy_iff.mp ?_)
  rintro ⟨hempty, hnone⟩
  rcases hbusy with hbusy | hbusy
  · exact absurd (hbusy.symm.trans hempty) Bool.false_ne_true
  · exact absurd (hbusy.symm.trans hnone) Bool.false_ne_true

/-- A store waits in the queue of a core with room for one instruction, and a load of the same word
is still to be offered. -/
theorem progress_stored :
    let st : CoreSettings := { windowSize := 1, stationCount := 1, memoryLatency := 0 }
    let s := (System.new st 1 (.empty 0 16)).offer 0x00102023 0 0
    (∃ k, s.faults.length < (System.tick^[k] s).faults.length ∨
      s.core.retired < (System.tick^[k] s).core.retired) ∧
    ∃ i k, decode 0x00002083 4 1 = .ok i ∧ let r := round^[k] ([i], s)
      s.faults.length < r.2.faults.length ∨
      (r.2.core.halted = true ∧ ∃ i ∈ r.2.committed, i.isExit = true) ∨
      (r.1 = [] ∧ r.2.committed = s.accepted ++ [i] ∧ r.2.core.isIdle = true ∧
        r.2.queue.isEmpty = true) := by
  intro st s
  have h : Reachable st 1 (.empty 0 16) s := Reachable.new.offer 0x00102023 0 0
  obtain ⟨hretires, hcompletes⟩ := progress h (by decide) (by decide) (by decide)
  obtain ⟨j, haccepted, hj⟩ : ∃ j, s.accepted = [j] ∧ j.uuid = 0 := ⟨_, rfl, rfl⟩
  obtain ⟨i, hi⟩ : ∃ i, decode 0x00002083 4 1 = .ok i := ⟨_, rfl⟩
  have huuid : i.uuid = 1 := (of_decode hi).2.2.1
  obtain ⟨k, hk⟩ := hcompletes [i] (List.forall_mem_singleton.mpr (decoded_of_decode hi))
    (by rw [haccepted]; simp [hj, huuid]) (.inr Nat.one_pos)
  exact ⟨hretires rfl (.inr rfl), i, k, hi, hk⟩

end Reachable

end System

end OutOfOrder
