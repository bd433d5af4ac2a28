import OutOfOrder.Proofs.InOrder
import OutOfOrder.Proofs.Traffic

/-!
# A fault freezes the machine

A load or store that fails ends its cycle, but nothing of that cycle is taken back: what was issued,
published or started before stays so, and the next cycle does more of it. All the same the fault is
final. The load or store is the oldest one for the memory unit and both its operands are known, so
it may start in every cycle; its operands and memory never change, so it fails in every cycle; and
so no cycle gets as far as delivering a result or retiring an instruction.

The control and status registers are the one thing that needs more care, since they are written as
soon as an access starts. In the first cycle that fails, every access that may start and is older
than the load or store does start, because its unit is free. Later, for lack of deliveries, only new
ones can become able to start, and these are younger and are not visited any more.

## Main definitions

* `Snapshot.Refused` — a load or store may start, but memory will refuse its request
* `Core.Leads`, `Core.Before` — no older access to a control and status register may start, or only
  those in some slots
* `Snapshot.Stuck` — both at the end of a cycle, with the counters as they will be
* `System.Frozen` — nothing has taken effect from one moment to another

## Main results

* `Snapshot.OnTrack.free_of_eligible` — when the oldest station of an ordered unit may start, its
  unit is free
* `Snapshot.Refused.step`, `report` — every step keeps a refused request refused
* `Snapshot.Refused.dispatchEach` — dispatch fails, and what it does before
* `Snapshot.refused_of_dispatchEach` — and it fails for no other reason
* `System.Reachable.fault_frozen` — after the first fault there is only the same fault again
-/

namespace OutOfOrder

/-- The call in which the request of an instruction is refused. -/
def Call.refusal (i : Instruction) (a b : Word) (fault : MemoryError) : Call where
  instruction := i
  request := i.access a b
  answer := .error fault

namespace Snapshot

variable {s s' : Snapshot} {start : Sequential} {is : List Instruction} {n : Nat}
  {slot k l : Slot} {t u v : Station} {e f : Entry} {a b c d : Word} {x : Effect}
  {fault : MemoryError}

/-! ### Who may start on an ordered unit -/

/-- Stations have serial numbers in the order of their entries. -/
theorem OnTrack.uuid_lt (hs : s.OnTrack start is n) (hnum : Numbered is) {i j : Nat}
    (hi : s.core.Serves k u i e) (hj : s.core.Serves l v j f) (hij : i < j) : u.uuid < v.uuid := by
  have hc := hs.sound.consistent
  rw [(hi.describes hc).1, (hj.describes hc).1]
  exact Core.Precise.uuid_lt hs.follows hnum hi.entry hj.entry hij

theorem OnTrack.slot_eq_of_uuid (hs : s.OnTrack start is n) (hnum : Numbered is)
    (hu : s.core.stations.get? k = some u) (hv : s.core.stations.get? l = some v)
    (h : u.uuid = v.uuid) : k = l := by
  have hc := hs.sound.consistent
  obtain ⟨i, e, hi, -⟩ := hc.serves hu
  obtain ⟨j, f, hj, -⟩ := hc.serves hv
  rcases Nat.lt_trichotomy i j with hij | rfl | hij
  · exact absurd h (Nat.ne_of_lt (hs.uuid_lt hnum hi hj hij))
  · exact hc.slot_inj hu hv (hi.tag.trans hj.tag.symm)
  · exact absurd h (Nat.ne_of_gt (hs.uuid_lt hnum hj hi hij))

/-- On an ordered unit only the oldest station may start, and there is one oldest. -/
theorem OnTrack.eligible_inj (hs : s.OnTrack start is n) (hnum : Numbered is)
    (hu : s.core.stations.Eligible k u) (hv : s.core.stations.Eligible l v)
    (hunit : v.unit = u.unit) (hord : u.unit.isOrdered = true) : k = l :=
  hs.slot_eq_of_uuid hnum hu.get hv.get (Nat.le_antisymm
    (hu.uuid_le hv.get hunit hord) (hv.uuid_le hu.get hunit.symm (hunit ▸ hord)))

/-- When it may start, the unit is free: what the unit works on would be older, and lock it. -/
theorem OnTrack.free_of_eligible (hs : s.OnTrack start is n) (hnum : Numbered is)
    (hu : s.core.stations.Eligible k u) (hord : u.unit.isOrdered = true) :
    (s.core.units.get u.unit).work = none := by
  have hc := hs.sound.consistent
  by_contra hbusy
  obtain ⟨w, hw⟩ := Option.ne_none_iff_exists'.mp hbusy
  have hcompletion : s.core.completion? u.unit = some w.completion := by
    rw [Core.completion?, hw]
    rfl
  obtain ⟨v, hv, -, hrun⟩ := hc.running_of_carries (Core.carries_unit hcompletion)
  have hunit := (hc.own_unit hcompletion hv).1
  obtain ⟨i, e, hi, -⟩ := hc.serves hu.get
  obtain ⟨j, f, hj, -⟩ := hc.serves hv
  obtain ⟨p, hfront, -⟩ := hs.precise.ordered u.unit hord
  have hpi : p ≤ i := (hfront.waiting_iff hi.entry (hi.describes hc).2.symm).mp
    ⟨k, u, e, hi, hu.waiting⟩
  have hjp : j < p := by
    by_contra hle
    obtain ⟨l, v', g, hl, hwaiting⟩ := (hfront.waiting_iff hj.entry
      ((hj.describes hc).2.symm.trans hunit)).mpr (Nat.le_of_not_lt hle)
    obtain rfl := hc.slot_inj hl.station hv (hl.tag.trans hj.tag.symm)
    obtain rfl := Option.some.inj (hl.station.symm.trans hv)
    rw [hrun] at hwaiting
    cases hwaiting
  exact Nat.not_le_of_lt (hs.uuid_lt hnum hj hi (Nat.lt_of_lt_of_le hjp hpi))
    (hu.uuid_le hv hunit hord)

/-! ### A load or store that is refused -/

/-- A load or store may start, but memory will refuse its request. -/
structure Refused (s : Snapshot) (slot : Slot) (t : Station) (e : Entry) (a b : Word)
    (fault : MemoryError) : Prop where
  startable : s.Startable slot t e a b
  unit : e.instruction.unit = .memory
  refused : s.memory.perform (e.instruction.access a b) = .error fault

theorem Startable.inj (h : s.Startable k t e a b) (h' : s.Startable k u f c d) :
    t = u ∧ e = f ∧ a = c ∧ b = d := by
  obtain rfl := Option.some.inj (h.eligible.get.symm.trans h'.eligible.get)
  exact ⟨rfl, Option.some.inj (h.entry.symm.trans h'.entry),
    Operand.ready.inj (h.src1.symm.trans h'.src1), Operand.ready.inj (h.src2.symm.trans h'.src2)⟩

theorem Startable.unit_eq (h : s.Startable slot t e a b) (hc : s.core.Consistent) :
    t.unit = e.instruction.unit := by
  obtain ⟨n, hserve⟩ := h.exists_serves hc
  exact (hserve.describes hc).2

namespace Refused

variable (hs : s.OnTrack start is n) (hnum : Numbered is) (hr : s.Refused slot t e a b fault)

include hr in
theorem compute_eq (g : CsrFile) : e.instruction.compute a b s.memory g = .error fault :=
  Instruction.compute_eq_error_iff.mpr ⟨hr.unit, hr.refused⟩

include hs hr in
theorem station_unit : t.unit = .memory :=
  (hr.startable.unit_eq hs.sound.consistent).trans hr.unit

include hs hnum hr in
/-- No other load or store may start. -/
theorem eq_of_startable (h : s.Startable k u f c d) (hunit : f.instruction.unit = .memory) :
    k = slot ∧ u = t ∧ f = e ∧ c = a ∧ d = b := by
  have hu := (h.unit_eq hs.sound.consistent).trans hunit
  obtain rfl := hs.eligible_inj hnum h.eligible hr.startable.eligible
    ((hr.station_unit hs).trans hu.symm) (by rw [hu]; rfl)
  exact ⟨rfl, h.inj hr.startable⟩

include hs hnum hr in
/-- So what starts is none. -/
theorem unit_ne (h : s.Startable k u f c d) {g : CsrFile}
    (hx : f.instruction.compute c d s.memory g = .ok x) : f.instruction.unit ≠ .memory := by
  intro hunit
  obtain ⟨-, -, rfl, rfl, rfl⟩ := hr.eq_of_startable hs hnum h hunit
  rw [hr.compute_eq g] at hx
  cases hx

include hr in
/-- It depends on the station, its entry, the unit and memory. -/
theorem congr (heligible : s'.core.stations.Eligible slot t)
    (hfree : (s'.core.units.get t.unit).work = none)
    (hentry : s'.core.window.get? t.tag = some e) (hmemory : s'.memory = s.memory) :
    s'.Refused slot t e a b fault :=
  ⟨⟨heligible, hfree, hentry, hr.startable.src1, hr.startable.src2⟩, hr.unit,
    hmemory ▸ hr.refused⟩

include hs hnum hr in
/-- A new instruction is younger, and does not lock it. -/
theorem issuing {i : Instruction} {rest : IssueQueue} {tag : Tag} {w : ReorderBuffer}
    {p : Stations} (hpop : s.queue.pop? = some (i, rest))
    (hw : s.core.window.allocate? i = some (tag, w))
    (hp : s.core.stations.allocate? (s.core.stationFor i tag) = some (l, p)) :
    Refused ⟨s.core.issuing i tag w p, rest, s.memory⟩ slot t e a b fault := by
  have hc := hs.sound.consistent
  obtain ⟨j, hserve⟩ := hr.startable.exists_serves hc
  have hlt : t.uuid < (s.core.stationFor i tag).uuid := by
    rw [(hserve.describes hc).1]
    exact hnum.lt (hs.follows.entry hserve.entry) (hs.follows.front hpop).1
      (ReorderBuffer.bounds_of_nth? hserve.entry).2
  refine hr.congr (hr.startable.eligible.allocate hp hlt) hr.startable.free ?_ rfl
  exact ((hc.serves_issuing_iff (ReorderBuffer.entered_of_allocate? hw) hp).mpr
    (.inr hserve)).get?_tag

include hs hnum hr in
/-- What starts works on another unit, and leaves memory alone. -/
theorem starting (h : s.Startable k u f c d)
    (hx : f.instruction.compute c d s.memory s.core.csrs = .ok x) :
    Refused ⟨s.core.starting k u x, s.queue, x.memory⟩ slot t e a b fault ∧
      x.memory = s.memory := by
  have ht := hr.startable
  have hne := hr.unit_ne hs hnum h hx
  have hmemory := (Instruction.compute_frame hx).1 hne
  rw [← h.unit_eq hs.sound.consistent, ← hr.station_unit hs] at hne
  refine ⟨hr.congr (ht.eligible.markRunning h.eligible.get ?_) ?_ ht.entry hmemory, hmemory⟩
  · rintro rfl
    obtain rfl := Option.some.inj (h.eligible.get.symm.trans ht.eligible.get)
    exact hne rfl
  · dsimp only [Core.starting]
    rw [Units.get_set, if_neg hne]
    exact ht.free

include hs hr in
/-- What is delivered comes from another station, and this one does not listen any more. -/
theorem delivering {r : Broadcast} (hbus : s.core.bus.current = some r) :
    Refused ⟨s.core.delivering r, s.queue, s.memory⟩ slot t e a b fault := by
  have hc := hs.sound.consistent
  have ht := hr.startable
  obtain ⟨j, hserve⟩ := ht.exists_serves hc
  obtain ⟨v, _, _, hv, -, hrun, -⟩ := hc.delivering_completes hbus
  have hne : slot ≠ r.slot := by
    rintro rfl
    obtain rfl := Option.some.inj (hv.station.symm.trans ht.eligible.get)
    rw [ht.eligible.waiting] at hrun
    cases hrun
  have hsame : t = t.wake r.tag r.result := (Station.wake_of_ready ht.eligible.operands _ _).symm
  exact hr.congr (ht.eligible.deliver hne r.tag r.result) ht.free
    ((hc.serves_delivering_iff hbus).mpr ⟨hne, t, hserve, hsame⟩).get?_tag rfl

include hs hnum hr in
/-- Whatever happens, a request that will be refused stays one, and memory stays as it is. -/
theorem step (h : s.Step s') : s'.Refused slot t e a b fault ∧ s'.memory = s.memory := by
  have ht := hr.startable
  cases h with
  | count csrs arbiter cycle hcells => exact ⟨hr.congr ht.eligible ht.free ht.entry rfl, rfl⟩
  | issue hpop hwindow hstations => exact ⟨hr.issuing hs hnum hpop hwindow hstations, rfl⟩
  | advance =>
    refine ⟨hr.congr ht.eligible ?_ ht.entry rfl, rfl⟩
    rw [Core.advanceUnits, Units.get_tick, FunctionalUnit.tick, ht.free]
    rfl
  | publish hbus hdone =>
    refine ⟨hr.congr ht.eligible ?_ ht.entry rfl, rfl⟩
    rw [Core.publishing, Units.get_set]
    split
    · rfl
    · exact ht.free
  | start hu hfree hentry hc hd hx => exact hr.starting hs hnum ⟨hu, hfree, hentry, hc, hd⟩ hx
  | deliver hbus => exact ⟨hr.delivering hs hbus, rfl⟩
  | @retire tag e' window hcommit =>
    have hc := hs.sound.consistent
    obtain ⟨j, hserve⟩ := ht.exists_serves hc
    have hw := ReorderBuffer.left_of_commit? hcommit
    refine ⟨hr.congr ?_ ?_ ((hc.serves_retiring_iff hw).mpr hserve).get?_tag rfl, rfl⟩
    · rw [Core.retiring_stations]
      exact ht.eligible
    · rw [Core.retiring_units]
      exact ht.free

include hs hnum hr in
/-- What is asked of memory meanwhile is this request, and it is refused. -/
theorem report {es : List Event} (h : s.Reports es s') :
    ∀ r ∈ es.filterMap Event.call?, r = .refusal e.instruction a b fault := by
  have hnone : (∀ f ∈ es, f.unit? ≠ some .memory) →
      ∀ r ∈ es.filterMap Event.call?, r = .refusal e.instruction a b fault := by
    intro hes
    rw [Event.filterMap_call?_eq_nil hes]
    exact List.forall_mem_nil _
  cases h with
  | remark hes =>
    refine hnone fun f hf => ?_
    rw [Event.unit?_of_isRemark (hes f hf)]
    nofun
  | count | advance | publish | deliver => exact List.forall_mem_nil _
  | issue | retire => exact hnone (List.forall_mem_singleton.mpr nofun)
  | start h hx =>
    refine hnone (List.forall_mem_append.mpr ⟨fun f hf => ?_, List.forall_mem_singleton.mpr nofun⟩)
    rw [Core.unit?_of_mem_sideEffects hf]
    exact fun heq => hr.unit_ne hs hnum h hx (Option.some.inj heq)
  | fail h hfault =>
    obtain ⟨-, -, rfl, rfl, rfl⟩ :=
      hr.eq_of_startable hs hnum h (Instruction.compute_eq_error_iff.mp hfault).1
    rw [Core.sideEffects_of_memory hr.unit, hr.refused]
    exact List.forall_mem_singleton.mpr rfl

include hs hnum hr in
theorem journal {es : List Event} (h : s.Journal es s') :
    s'.OnTrack start is n ∧ s'.Refused slot t e a b fault ∧ s'.memory = s.memory ∧
      ∀ r ∈ es.filterMap Event.call?, r = .refusal e.instruction a b fault := by
  refine @Journal.keeps s s' [] es
    (fun es u => u.OnTrack start is n ∧ u.Refused slot t e a b fault ∧ u.memory = s.memory ∧
      ∀ r ∈ es.filterMap Event.call?, r = .refusal e.instruction a b fault)
    (fun {es fs u v} hreport ⟨hs, hr, hmemory, hcalls⟩ => ?_) h
    ⟨hs, hr, rfl, List.forall_mem_nil _⟩
  have hcalls' : ∀ r ∈ (es ++ fs).filterMap Event.call?, r = .refusal e.instruction a b fault := by
    rw [List.filterMap_append]
    exact List.forall_mem_append.mpr ⟨hcalls, hr.report hs hnum hreport⟩
  rcases hreport.step with rfl | hstep
  · exact ⟨hs, hr, hmemory, hcalls'⟩
  · obtain ⟨hr', hmemory'⟩ := hr.step hs hnum hstep
    exact ⟨hs.step hnum hstep, hr', hmemory'.trans hmemory, hcalls'⟩

end Refused

end Snapshot

/-! ### Dispatch -/

namespace Core

/-- No older access to a control and status register may start. -/
def Leads (c : Core) (t : Station) : Prop :=
  ∀ k u, c.stations.Eligible k u → u.unit = .system → t.uuid ≤ u.uuid

/-- The stations in some slots are older than `t` and may start, and no other older access to a
control and status register may. -/
structure Before (c : Core) (t : Station) (ks : List Slot) : Prop where
  nodup : ks.Nodup
  older : ∀ k ∈ ks, ∃ u, c.stations.Eligible k u ∧ u.uuid < t.uuid
  listed : ∀ k u, c.stations.Eligible k u → u.unit = .system → u.uuid < t.uuid → k ∈ ks

section Quiet

variable {c : Core} {q : IssueQueue} {e : Event}

/-- Issue has no effect on memory or on the control and status registers, -/
theorem unit?_of_mem_issue (he : e ∈ (c.issue q).events) : e.unit? = none := by
  rcases cases_of_mem_issue he with ⟨_, _, _, _, _, rfl⟩ | ⟨_, rfl⟩ | ⟨_, rfl⟩ <;> rfl

/-- and neither has publication, -/
theorem unit?_of_mem_publish (he : e ∈ c.publish.events) : e.unit? = none := by
  rcases cases_of_mem_publish he with ⟨_, rfl⟩ | ⟨_, _, rfl⟩ <;> rfl

/-- or wake-up, -/
theorem unit?_of_mem_wakeUp (he : e ∈ c.wakeUp.events) : e.unit? = none := by
  rcases cases_of_mem_wakeUp he with ⟨_, rfl⟩ | ⟨_, _, rfl⟩ | ⟨_, rfl⟩ <;> rfl

/-- or retirement. -/
theorem unit?_of_mem_retire (he : e ∈ c.retire.events) : e.unit? = none := by
  rcases cases_of_mem_retire he with ⟨_, _, rfl⟩ | ⟨_, _, _, rfl⟩ <;> rfl

end Quiet

theorem counters_dispatchAt (c : Core) (m : Memory) (slot : Slot) :
    (c.dispatchAt m slot).core.csrs.cycle = c.csrs.cycle ∧
      (c.dispatchAt m slot).core.csrs.instret = c.csrs.instret := by
  rw [dispatchAt]
  split
  · exact ⟨rfl, rfl⟩
  · split
    · exact ⟨rfl, rfl⟩
    · split
      · exact ⟨rfl, rfl⟩
      · split
        · rw [start]
          split
          · exact ⟨rfl, rfl⟩
          · next hx => exact Instruction.compute_counters hx
        · exact ⟨rfl, rfl⟩

/-- Dispatch leaves the counters as they are. -/
theorem counters_dispatchEach (c : Core) (m : Memory) (slots : List Slot) :
    (c.dispatchEach m slots).core.csrs.cycle = c.csrs.cycle ∧
      (c.dispatchEach m slots).core.csrs.instret = c.csrs.instret := by
  induction slots generalizing c m with
  | nil => exact ⟨rfl, rfl⟩
  | cons slot slots ih =>
    obtain ⟨hcycle, hinstret⟩ := c.counters_dispatchAt m slot
    rw [dispatchEach]
    dsimp only
    split
    · exact ⟨hcycle, hinstret⟩
    · obtain ⟨hcycle', hinstret'⟩ := ih (c.dispatchAt m slot).core (c.dispatchAt m slot).memory
      exact ⟨hcycle'.trans hcycle, hinstret'.trans hinstret⟩

end Core

namespace Snapshot

variable {s s' : Snapshot} {start : Sequential} {is : List Instruction} {n : Nat}
  {slot k l : Slot} {t u v : Station} {e f : Entry} {a b c d : Word} {x : Effect}
  {fault : MemoryError} {ks ls : List Slot}

/-- An access to a control and status register is not left behind for a busy unit. -/
theorem OnTrack.before_of_stall (hs : s.OnTrack start is n) (hnum : Numbered is)
    (h : s.core.Before t (k :: ks)) (hu : s.core.stations.Eligible k u)
    (hbusy : (s.core.units.get u.unit).work ≠ none) : s.core.Before t ks := by
  refine ⟨(List.nodup_cons.mp h.nodup).2, fun l hl => h.older l (List.mem_cons_of_mem k hl),
    fun l v hv hunit hlt => ?_⟩
  refine (List.mem_cons.mp (h.listed l v hv hunit hlt)).resolve_left ?_
  rintro rfl
  obtain rfl := Option.some.inj (hu.get.symm.trans hv.get)
  exact hbusy (hs.free_of_eligible hnum hu (by rw [hunit]; rfl))

/-- What has started may not start again, and the others may start as before. -/
theorem before_starting (h : s.core.Before t (k :: ks)) (hu : s.core.stations.Eligible k u) :
    (s.core.starting k u x).Before t ks := by
  obtain ⟨hnot, hnodup⟩ := List.nodup_cons.mp h.nodup
  refine ⟨hnodup, fun l hl => ?_, fun l v hv hunit hlt => ?_⟩
  · obtain ⟨v, hv, hlt⟩ := h.older l (List.mem_cons_of_mem k hl)
    exact ⟨v, hv.markRunning hu.get fun heq => hnot (heq ▸ hl), hlt⟩
  · obtain ⟨hne, hv⟩ := hv.of_markRunning hu.get
    exact (List.mem_cons.mp (h.listed l v hv hunit hlt)).resolve_left hne

theorem leads_starting (h : s.core.Leads t) (hu : s.core.stations.Eligible k u) :
    (s.core.starting k u x).Leads t :=
  fun l v hv => h l v (hv.of_markRunning hu.get).2

namespace Refused

/-- The visit to the load or store fails. -/
theorem dispatchAt_eq (hs : s.OnTrack start is n) (hr : s.Refused slot t e a b fault) :
    s.core.dispatchAt s.memory slot =
      { core := s.core, memory := s.memory
        events := s.core.sideEffects s.memory e.instruction a b, fault := some fault } := by
  have hvisit := visit_of_eligible hs.sound.consistent hr.startable.eligible
  generalize s.core.dispatchAt s.memory slot = d at hvisit
  cases hvisit with
  | stall hbusy => exact absurd hr.startable.free hbusy
  | fail h hfault =>
    obtain ⟨-, rfl, rfl, rfl⟩ := h.inj hr.startable
    rw [hr.compute_eq] at hfault
    rw [Except.error.inj hfault]
  | start h hx =>
    obtain ⟨-, rfl, rfl, rfl⟩ := h.inj hr.startable
    rw [hr.compute_eq] at hx
    cases hx

/-- The visits before it start what is older and finds its unit free; so of the accesses to control
and status registers that are older none is left, and if there was none, those registers are as they
were. -/
theorem dispatchEach (hs : s.OnTrack start is n) (hnum : Numbered is)
    (hr : s.Refused slot t e a b fault) (h : s.core.Before t ks) :
    let d := s.core.dispatchEach s.memory (ks ++ slot :: ls)
    d.fault = some fault ∧ d.core.Leads t ∧ (s.core.Leads t → d.core.csrs = s.core.csrs) := by
  induction ks generalizing s with
  | nil =>
    rw [List.nil_append, Core.dispatchEach, hr.dispatchAt_eq hs]
    refine ⟨rfl, fun k u hu hunit => ?_, fun _ => rfl⟩
    by_contra hlt
    exact List.not_mem_nil (h.listed k u hu hunit (Nat.lt_of_not_le hlt))
  | cons k ks ih =>
    obtain ⟨u, hu, hlt⟩ := h.older k List.mem_cons_self
    have hvisit := visit_of_eligible hs.sound.consistent hu
    rw [List.cons_append, Core.dispatchEach]
    dsimp only
    generalize s.core.dispatchAt s.memory k = d at hvisit
    cases hvisit with
    | stall hbusy => exact ih hs hr (hs.before_of_stall hnum h hu hbusy)
    | fail hstart hfault =>
      obtain ⟨-, rfl, -⟩ :=
        hr.eq_of_startable hs hnum hstart (Instruction.compute_eq_error_iff.mp hfault).1
      exact absurd hlt (Nat.lt_irrefl _)
    | @start f c d x hstart hx =>
      have hstep : s.Step ⟨s.core.starting k u x, s.queue, x.memory⟩ :=
        .start hu hstart.free hstart.entry hstart.src1 hstart.src2 hx
      obtain ⟨hfault, hleads, hcsrs⟩ := ih (s := ⟨s.core.starting k u x, s.queue, x.memory⟩)
        (hs.step hnum hstep) (hr.step hs hnum hstep).1 (before_starting h hu)
      refine ⟨hfault, hleads, fun hfirst => (hcsrs (leads_starting hfirst hu)).trans ?_⟩
      -- what is older is no access to those registers then
      refine (Instruction.compute_frame hx).2 ?_
      rw [← hstart.unit_eq hs.sound.consistent]
      exact fun hunit => Nat.not_le_of_lt hlt (hfirst k u hu hunit)

theorem dispatch (hs : s.OnTrack start is n) (hnum : Numbered is)
    (hr : s.Refused slot t e a b fault) :
    let d := s.core.dispatch s.memory
    d.fault = some fault ∧ d.core.Leads t ∧ (s.core.Leads t → d.core.csrs = s.core.csrs) := by
  have ht := hr.startable.eligible
  obtain ⟨ks, ls, hslots, hnodup, hks, hlisted⟩ := ht.dispatchable_eq
  rw [Core.dispatch, hslots]
  refine dispatchEach hs hnum hr ⟨hnodup, fun k hk => ?_, fun k u hu _ hlt => hlisted k u hu hlt⟩
  obtain ⟨hne, u, hu, hle⟩ := hks k hk
  exact ⟨u, hu, Nat.lt_of_le_of_ne hle fun heq => hne (hs.slot_eq_of_uuid hnum hu.get ht.get heq)⟩

/-- What would be refused after a start would have been refused before it. -/
theorem of_starting (hs : s.OnTrack start is n) (hnum : Numbered is)
    (h : s.Startable k u f c d) (hx : f.instruction.compute c d s.memory s.core.csrs = .ok x)
    (hr : Refused ⟨s.core.starting k u x, s.queue, x.memory⟩ slot t e a b fault) :
    s.Refused slot t e a b fault := by
  have hs' : OnTrack start is n ⟨s.core.starting k u x, s.queue, x.memory⟩ :=
    hs.step hnum (.start h.eligible h.free h.entry h.src1 h.src2 hx)
  have ht := hr.startable
  have hfree := ht.free
  have hunit := hr.station_unit hs'
  dsimp only [Core.starting] at hfree
  rw [Units.get_set] at hfree
  split at hfree
  · cases hfree
  · next hne =>
    have hmemory : x.memory = s.memory := by
      refine (Instruction.compute_frame hx).1 ?_
      rwa [← h.unit_eq hs.sound.consistent, ← hunit]
    exact hr.congr (ht.eligible.of_markRunning h.eligible.get).2 hfree ht.entry hmemory.symm

end Refused

/-- When dispatch fails, the request that is refused would have been refused from the beginning. -/
theorem refused_of_dispatchEach (hs : s.OnTrack start is n) (hnum : Numbered is) (hnodup : ks.Nodup)
    (hks : ∀ k ∈ ks, ∃ u, s.core.stations.Eligible k u)
    (h : (s.core.dispatchEach s.memory ks).fault = some fault) :
    ∃ slot t e a b, s.Refused slot t e a b fault := by
  induction ks generalizing s with
  | nil => cases h
  | cons k ks ih =>
    obtain ⟨u, hu⟩ := hks k List.mem_cons_self
    obtain ⟨hnodup, hlater⟩ := eligible_dispatchAt (m := s.memory) hnodup hks
    have hvisit := visit_of_eligible hs.sound.consistent hu
    rw [Core.dispatchEach] at h
    dsimp only at h
    generalize s.core.dispatchAt s.memory k = d at hvisit h hlater
    cases hvisit with
    | stall _ => exact ih hs hnodup hlater h
    | @fail e a b _ hstart hfault =>
      obtain rfl := Option.some.inj h
      obtain ⟨hunit, hrefused⟩ := Instruction.compute_eq_error_iff.mp hfault
      exact ⟨k, u, e, a, b, hstart, hunit, hrefused⟩
    | @start _ _ _ x hstart hx =>
      have hstep : s.Step ⟨s.core.starting k u x, s.queue, x.memory⟩ :=
        .start hu hstart.free hstart.entry hstart.src1 hstart.src2 hx
      obtain ⟨slot, t, e, a, b, hr⟩ := ih (s := ⟨s.core.starting k u x, s.queue, x.memory⟩)
        (hs.step hnum hstep) hnodup hlater h
      exact ⟨slot, t, e, a, b, hr.of_starting hs hnum hstart hx⟩

/-! ### A cycle that fails -/

/-- The moment before dispatch. -/
def published (s : Snapshot) : Snapshot where
  core := (s.core.beginCycle.issue s.queue).core.advanceUnits.publish.core
  queue := (s.core.beginCycle.issue s.queue).queue
  memory := s.memory

theorem OnTrack.published (hs : s.OnTrack start is n) (hnum : Numbered is) :
    s.published.OnTrack start is n :=
  hs.steps hnum (journal_published (c := s.core)).steps

/-- Up to this moment only the counters among the control and status registers move. -/
theorem csrs_published (s : Snapshot) :
    s.published.core.csrs = s.core.csrs.withCounters s.core.cycle s.core.retired := by
  obtain ⟨_, _, _, hissue⟩ := s.core.beginCycle.issue_eq s.queue
  obtain ⟨_, _, _, hpublish⟩ := (s.core.beginCycle.issue s.queue).core.advanceUnits.publish_eq
  rw [published, hpublish, hissue]
  rfl

theorem stations_published (s : Snapshot) :
    s.published.core.stations = (s.core.beginCycle.issue s.queue).core.stations := by
  obtain ⟨_, _, _, hpublish⟩ := (s.core.beginCycle.issue s.queue).core.advanceUnits.publish_eq
  rw [published, hpublish]
  rfl

/-- Nothing has an effect on memory or on the control and status registers before dispatch. -/
theorem unit?_of_mem_published {s : Snapshot} {e : Event}
    (he : e ∈ Event.cycle s.core.cycle :: (s.core.beginCycle.issue s.queue).events ++
      (s.core.beginCycle.issue s.queue).core.advanceUnits.publish.events) : e.unit? = none := by
  rcases List.mem_append.mp he with he | he
  · rcases List.mem_cons.mp he with rfl | he
    · rfl
    · exact Core.unit?_of_mem_issue he
  · exact Core.unit?_of_mem_publish he

/-- A load or store will be refused, no older access to a control and status register may start, and
the counters show already what they will show in the next cycle. -/
structure Stuck (s : Snapshot) (slot : Slot) (t : Station) (e : Entry) (a b : Word)
    (fault : MemoryError) : Prop where
  refused : s.Refused slot t e a b fault
  leads : s.core.Leads t
  counters : s.core.csrs.withCounters s.core.cycle s.core.retired = s.core.csrs
  running : s.core.halted = false

/-- What is offered does not matter. -/
theorem Stuck.offered (h : s.Stuck slot t e a b fault) (q : IssueQueue) :
    ({ s with queue := q } : Snapshot).Stuck slot t e a b fault :=
  ⟨h.refused.congr h.refused.startable.eligible h.refused.startable.free h.refused.startable.entry
    rfl, h.leads, h.counters, h.running⟩

/-- A new instruction is younger than the load or store. -/
theorem Stuck.leads_published (hs : s.OnTrack start is n) (hnum : Numbered is)
    (h : s.Stuck slot t e a b fault) : s.published.core.Leads t := by
  obtain ⟨j, hserve⟩ := h.refused.startable.exists_serves hs.sound.consistent
  rw [Core.Leads, stations_published]
  intro k u hu hunit
  rcases s.core.beginCycle.issue_cases s.queue with
    heq | ⟨i, _, tag, _, _, _, hpop, -, hstations, heq⟩
  · rw [heq] at hu
    exact h.leads k u hu hunit
  · rw [heq] at hu
    rcases hu.of_allocate hstations with rfl | hu
    · refine Nat.le_of_lt ?_
      rw [(hserve.describes hs.sound.consistent).1]
      exact hnum.lt (hs.follows.entry hserve.entry) (hs.follows.front hpop).1
        (ReorderBuffer.bounds_of_nth? hserve.entry).2
    · exact h.leads k u hu hunit

/-- At the end of dispatch the counters show what they will show in the next cycle, if this one
fails. -/
theorem counters_dispatched (s : Snapshot) :
    let d := s.core.dispatched s.queue s.memory
    d.core.csrs.withCounters d.core.cycle d.core.retired = d.core.csrs := by
  intro d
  obtain ⟨hcycle, hinstret⟩ := s.published.core.counters_dispatchEach s.memory
    s.published.core.stations.dispatchable
  obtain ⟨_, _, _, _, _, _, _, heq⟩ := s.core.dispatched_eq s.queue s.memory
  have hcounters : d.core.csrs.cycle = d.core.cycle ∧ d.core.csrs.instret = d.core.retired := by
    refine ⟨hcycle.trans ?_, hinstret.trans ?_⟩
    · rw [csrs_published, heq]
      rfl
    · rw [csrs_published, heq]
      rfl
  rw [← hcounters.1, ← hcounters.2]
  rfl

/-- A cycle that fails asks for nothing but what is refused, leaves memory as it is, and gets
stuck. -/
theorem Refused.tick (hs : s.OnTrack start is n) (hnum : Numbered is)
    (hrun : s.core.halted = false) (hr : s.published.Refused slot t e a b fault) :
    (s.core.tick s.queue s.memory).fault = some fault ∧
      s.tick.Stuck slot t e a b fault ∧ s.tick.memory = s.memory ∧
      (s.published.core.Leads t → s.tick.core.csrs = s.published.core.csrs) ∧
      ∀ r ∈ (s.core.tick s.queue s.memory).events.filterMap Event.call?,
        r = .refusal e.instruction a b fault := by
  have hs' := hs.published hnum
  obtain ⟨hfault, hleads, hcsrs⟩ := hr.dispatch hs' hnum
  obtain ⟨-, hr', hmemory, hcalls⟩ := hr.journal hs' hnum (dispatches_dispatch
    (c := s.published.core) (q := s.published.queue) (m := s.published.memory)).journal
  have htick := Core.tick_eq_of_fault (q := s.queue) (m := s.memory) hrun hfault
  have hhalted : (s.core.dispatched s.queue s.memory).core.halted = false := by
    obtain ⟨_, _, _, _, _, _, _, heq⟩ := s.core.dispatched_eq s.queue s.memory
    rw [heq]
    exact hrun
  rw [Snapshot.tick, htick]
  refine ⟨rfl, ⟨hr', hleads, s.counters_dispatched, hhalted⟩, hmemory, hcsrs, ?_⟩
  dsimp only
  rw [List.filterMap_append, Event.filterMap_call?_eq_nil fun f hf => by
    rw [unit?_of_mem_published hf]
    exact (Option.some_ne_none _).symm]
  exact hcalls

/-- A cycle that fails refuses a request that it would have refused before dispatch. -/
theorem refused_of_fault (hs : s.OnTrack start is n) (hnum : Numbered is)
    (h : (s.core.tick s.queue s.memory).fault = some fault) :
    s.core.halted = false ∧ ∃ slot t e a b, s.published.Refused slot t e a b fault := by
  cases hrun : s.core.halted with
  | true =>
    rw [Core.tick, if_pos hrun] at h
    cases h
  | false =>
    have hs' := hs.published hnum
    rw [Core.fault_tick hrun] at h
    exact ⟨rfl, refused_of_dispatchEach hs' hnum (Stations.nodup_dispatchable _)
      (fun _ hk => Stations.mem_dispatchable.mp hk) h⟩

theorem Stuck.refused_published (hs : s.OnTrack start is n) (hnum : Numbered is)
    (h : s.Stuck slot t e a b fault) : s.published.Refused slot t e a b fault :=
  (h.refused.journal hs hnum (journal_published (c := s.core))).2.1

/-- What is stuck fails again and remains so, and its control and status registers do not change. -/
theorem Stuck.tick (hs : s.OnTrack start is n) (hnum : Numbered is)
    (h : s.Stuck slot t e a b fault) :
    (s.core.tick s.queue s.memory).fault = some fault ∧ s.tick.Stuck slot t e a b fault ∧
      s.tick.core.csrs = s.core.csrs := by
  obtain ⟨hfault, hstuck, -, hcsrs, -⟩ :=
    Refused.tick hs hnum h.running (h.refused_published hs hnum)
  exact ⟨hfault, hstuck,
    (hcsrs (h.leads_published hs hnum)).trans (s.csrs_published.trans h.counters)⟩

end Snapshot

/-! ### Histories -/

namespace System

variable {st : CoreSettings} {n : Nat} {m : Memory} {s t u : System} {is : List Instruction}
  {r : Call} {fault : MemoryError}

/-- From `s` to `t` nothing has taken effect, except perhaps on the control and status registers.
What has been asked of memory is the same call again and again. -/
structure Frozen (r : Call) (s t : System) : Prop where
  registers : t.core.registers = s.core.registers
  memory : t.memory = s.memory
  cycle : t.core.cycle = s.core.cycle
  retired : t.core.retired = s.core.retired
  halted : t.core.halted = s.core.halted
  redirect : t.core.redirect = s.core.redirect
  /-- Nothing has retired. -/
  committed : t.committed = s.committed
  /-- The window has the same entries, with the same results, and perhaps some new ones without a
  result. -/
  entries : ∃ js : List Instruction,
    t.core.window.entries = s.core.window.entries ++ js.map fun i => { instruction := i }
  /-- Memory has been asked for nothing else. -/
  calls : ∃ again, t.calls = s.calls ++ again ∧ ∀ c ∈ again, c = r

theorem Frozen.refl (r : Call) (s : System) : s.Frozen r s :=
  ⟨rfl, rfl, rfl, rfl, rfl, rfl, rfl, ⟨[], (List.append_nil _).symm⟩,
    ⟨[], (List.append_nil _).symm, List.forall_mem_nil _⟩⟩

theorem Frozen.trans (h : s.Frozen r t) (h' : t.Frozen r u) : s.Frozen r u := by
  obtain ⟨js, hjs⟩ := h.entries
  obtain ⟨ks, hks⟩ := h'.entries
  obtain ⟨again, hagain, hsame⟩ := h.calls
  obtain ⟨again', hagain', hsame'⟩ := h'.calls
  refine ⟨h'.registers.trans h.registers, h'.memory.trans h.memory, h'.cycle.trans h.cycle,
    h'.retired.trans h.retired, h'.halted.trans h.halted, h'.redirect.trans h.redirect,
    h'.committed.trans h.committed, ⟨js ++ ks, ?_⟩, ⟨again ++ again', ?_, ?_⟩⟩
  · rw [hks, hjs, List.map_append, List.append_assoc]
  · rw [hagain', hagain, List.append_assoc]
  · exact List.forall_mem_append.mpr ⟨hsame, hsame'⟩

/-- What is offered changes the queue at most. -/
theorem Frozen.push (h : s.Frozen r t) (i : Instruction) : s.Frozen r (t.push i) := by
  obtain ⟨_, _, -, heq⟩ := t.push_eq i
  rw [heq]
  exact ⟨h.registers, h.memory, h.cycle, h.retired, h.halted, h.redirect, h.committed, h.entries,
    h.calls⟩

namespace Reachable

/-- A cycle that fails freezes everything but the control and status registers. -/
theorem frozen_tick (h : Reachable st n m s) (hnum : Numbered s.accepted)
    {slot : Slot} {t : Station} {e : Entry} {a b : Word} (hrun : s.core.halted = false)
    (hr : s.snapshot.published.Refused slot t e a b fault) :
    s.Frozen (.refusal e.instruction a b fault) s.tick := by
  have hs := h.onTrack (List.prefix_refl _) hnum
  obtain ⟨hfault, -, hmemory, -, hcalls⟩ := Snapshot.Refused.tick hs hnum hrun hr
  obtain ⟨hdeparted, js, -, hentries⟩ := s.core.entries_dispatched s.queue s.memory
  obtain ⟨_, _, _, _, _, _, _, heq⟩ := s.core.dispatched_eq s.queue s.memory
  have htick : s.tick.core = (s.core.dispatched s.queue s.memory).core :=
    (Core.tick_of_fault hrun ((Core.fault_tick hrun).symm.trans hfault)).2
  have hcommitted : s.tick.committed = s.committed := by
    rw [h.committed_eq hnum, h.tick.committed_eq hnum, htick, hdeparted]
    rfl
  refine ⟨?_, hmemory, ?_, ?_, ?_, ?_, hcommitted, ⟨js, htick ▸ hentries⟩,
    ⟨_, List.filterMap_append, hcalls⟩⟩
  all_goals rw [htick, heq]

/-- What is stuck remains so, whatever is offered. -/
theorem stuck_later (h : Reachable st n m s) {slot : Slot} {w : Station} {e : Entry} {a b : Word}
    (hstuck : s.snapshot.Stuck slot w e a b fault) (ht : s.Later t) (hnum : Numbered t.accepted) :
    t.snapshot.Stuck slot w e a b fault ∧ s.Frozen (.refusal e.instruction a b fault) t ∧
      t.core.csrs = s.core.csrs := by
  induction ht with
  | refl => exact ⟨hstuck, .refl _ s, rfl⟩
  | @push t _ i _ ih =>
    obtain ⟨_, _, hbegins, heq⟩ := t.push_eq i
    obtain ⟨hstuck, hfrozen, hcsrs⟩ := ih (hnum.sublist (by rw [heq]; exact hbegins.sublist))
    refine ⟨?_, hfrozen.push i, ?_⟩
    · rw [heq]
      exact hstuck.offered _
    · rw [heq]
      exact hcsrs
  | @tick t ht ih =>
    obtain ⟨hstuck, hfrozen, hcsrs⟩ := ih hnum
    have hreach := h.later ht
    have hs := hreach.onTrack (List.prefix_refl _) hnum
    obtain ⟨-, hstuck', hcsrs'⟩ := hstuck.tick hs hnum
    exact ⟨hstuck', hfrozen.trans (hreach.frozen_tick hnum hstuck.running
      (hstuck.refused_published hs hnum)), hcsrs'.trans hcsrs⟩

/-- **A fault is final.** If a cycle fails, then it has changed neither the registers, nor memory,
nor what has retired, nor an entry of the window, and every later cycle fails with the same fault,
whatever is offered meanwhile. By then still nothing of this has changed, nor have the control and
status registers since the first failure, and nothing has been asked of memory but what it
refuses. -/
theorem fault_frozen (h : Reachable st n m s)
    (hnum : s.accepted.Pairwise fun i j => i.uuid < j.uuid)
    (hfault : (s.core.tick s.queue s.memory).fault = some fault) :
    ∃ r : Call, s.memory.perform r.request = .error fault ∧ r.answer = .error fault ∧
      s.Frozen r s.tick ∧
      ∀ t, s.tick.Later t → (t.accepted.Pairwise fun i j => i.uuid < j.uuid) →
        (t.core.tick t.queue t.memory).fault = some fault ∧ s.Frozen r t ∧
          t.core.csrs = s.tick.core.csrs := by
  have hs := h.onTrack (List.prefix_refl _) hnum
  obtain ⟨hrun, slot, w, e, a, b, hr⟩ := Snapshot.refused_of_fault hs hnum hfault
  obtain ⟨-, hstuck, -⟩ := Snapshot.Refused.tick hs hnum hrun hr
  have hfrozen := h.frozen_tick hnum hrun hr
  refine ⟨.refusal e.instruction a b fault, hr.refused, rfl, hfrozen, fun t ht hnum' => ?_⟩
  obtain ⟨hstuck', hfrozen', hcsrs⟩ := h.tick.stuck_later hstuck ht hnum'
  have hs' := (h.tick.later ht).onTrack (List.prefix_refl _) hnum'
  exact ⟨(hstuck'.tick hs' hnum').1, hfrozen.trans hfrozen', hcsrs⟩

/-- A sum and a load that is not aligned: the sum is computed, but it never retires. -/
theorem fault_frozen_misaligned :
    let s := (((System.new {} 4 (.empty 0 16)).offer 0x00500093 0 0).offer 0x00102083 4 1).tick
    (s.core.tick s.queue s.memory).fault = some (.misaligned 1 4) ∧
      ∀ t, s.tick.Later t → (t.accepted.Pairwise fun i j => i.uuid < j.uuid) →
        (t.core.tick t.queue t.memory).fault = some (.misaligned 1 4) ∧ t.committed = [] := by
  intro s
  have h : Reachable {} 4 (.empty 0 16) s :=
    ((Reachable.new.offer 0x00500093 0 0).offer 0x00102083 4 1).tick
  have hfault : (s.core.tick s.queue s.memory).fault = some (.misaligned 1 4) := by decide
  obtain ⟨r, -, -, -, hforever⟩ := fault_frozen h (by decide) hfault
  refine ⟨hfault, fun t ht hnum => ?_⟩
  obtain ⟨hagain, hfrozen, -⟩ := hforever t ht hnum
  exact ⟨hagain, hfrozen.committed⟩

end Reachable

end System

end OutOfOrder
