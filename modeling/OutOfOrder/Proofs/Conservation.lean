import OutOfOrder.Proofs.Occupancy
import Mathlib.Logic.ExistsUnique

/-!
# Nothing is lost and nothing is doubled

When stations, entries and holders agree, they can be counted: each station that has started has its
result in exactly one place, so there are as many of them as there are busy units, and one more if
there is a result on the bus. A cycle that gets to its end has emptied the bus, and a core without
entries has nothing anywhere else.

## Main results

* `Core.Consistent.running_eq` — as many stations have started as there are results on their way
* `Core.Consistent.isIdle` — with an empty window there is nothing in flight
* `System.Reachable.nothing_lost` — no instruction is lost or doubled on its way through the core
-/

namespace OutOfOrder

/-- Every place where a result can be. -/
def Holder.all : List Holder := UnitKind.all.map Holder.unit ++ [.bus]

theorem Holder.mem_all (h : Holder) : h ∈ Holder.all := by
  cases h with
  | unit k => cases k <;> decide
  | bus => decide

theorem Holder.nodup_all : Holder.all.Nodup := by decide

namespace Core

variable {c : Core} {k : Slot}

/-! ### Counting -/

/-- The slots of the stations that have started. -/
def runningSlots (c : Core) : List Slot :=
  (c.stations.toList.filter fun s => s.2.running).map Prod.fst

/-- The slots from which the results on their way come. -/
def carriedSlots (c : Core) : List Slot :=
  Holder.all.filterMap fun h => (c.carries h).map Broadcast.slot

theorem nodup_runningSlots (c : Core) : c.runningSlots.Nodup :=
  c.stations.nodup_slots.sublist (List.filter_sublist.map Prod.fst)

theorem length_runningSlots (c : Core) :
    c.runningSlots.length = c.stations.toList.countP fun s => s.2.running := by
  rw [runningSlots, List.length_map, List.countP_eq_length_filter]

theorem length_carriedSlots (c : Core) :
    c.carriedSlots.length =
      (UnitKind.all.countP fun k => (c.units.get k).isBusy) + if c.bus.isEmpty then 0 else 1 := by
  have hunit : ∀ k, ((c.carries (.unit k)).map Broadcast.slot).isSome = (c.units.get k).isBusy := by
    intro k
    rw [carries, completion?, FunctionalUnit.isBusy]
    cases (c.units.get k).work <;> rfl
  rw [carriedSlots, List.length_filterMap_eq_countP, Holder.all, List.countP_append,
    List.countP_map, List.countP_singleton]
  congr 1
  · exact List.countP_congr fun k _ => by rw [Function.comp_apply, hunit]
  · rw [carries, Bus.isEmpty]
    cases c.bus.current <;> rfl

namespace Consistent

theorem nodup_carriedSlots (hc : c.Consistent) : c.carriedSlots.Nodup := by
  rw [List.Nodup, carriedSlots, List.pairwise_filterMap]
  refine Holder.nodup_all.imp fun hne x hx y hy hxy => ?_
  obtain ⟨r, hr, rfl⟩ := Option.map_eq_some_iff.mp hx
  obtain ⟨t, ht, rfl⟩ := Option.map_eq_some_iff.mp hy
  exact hne (hc.holder_inj hr ht hxy)

theorem mem_runningSlots_iff (hc : c.Consistent) : k ∈ c.runningSlots ↔ k ∈ c.carriedSlots := by
  simp only [runningSlots, carriedSlots, List.mem_map, List.mem_filter, List.mem_filterMap,
    Prod.exists, Stations.mem_toList_iff, Option.map_eq_some_iff]
  constructor
  · rintro ⟨l, s, ⟨hs, hrun⟩, rfl⟩
    obtain ⟨h, r, hr, hslot⟩ := hc.carries_of_running hs hrun
    exact ⟨h, h.mem_all, r, hr, hslot⟩
  · rintro ⟨h, -, r, hr, rfl⟩
    obtain ⟨s, hs, -, hrun⟩ := hc.running_of_carries hr
    exact ⟨r.slot, s, ⟨hs, hrun⟩, rfl⟩

/-- As many stations have started as there are results on their way. -/
theorem running_eq (hc : c.Consistent) :
    (c.stations.toList.countP fun s => s.2.running) =
      (UnitKind.all.countP fun k => (c.units.get k).isBusy) + if c.bus.isEmpty then 0 else 1 := by
  rw [← length_runningSlots, ← length_carriedSlots]
  refine List.Perm.length_eq ?_
  rw [List.perm_ext_iff_of_nodup c.nodup_runningSlots hc.nodup_carriedSlots]
  exact fun _ => hc.mem_runningSlots_iff

/-- A core with an empty window has nothing in flight anywhere. -/
theorem isIdle (hc : c.Consistent) (h : c.window.isEmpty = true) : c.isIdle = true := by
  have hwindow := ReorderBuffer.nth?_of_isEmpty h
  have hstations : ∀ k, c.stations.get? k = none := by
    intro k
    by_contra hk
    obtain ⟨s, hs⟩ := Option.ne_none_iff_exists'.mp hk
    obtain ⟨n, e, hserve, -⟩ := hc.serves hs
    have hn := hserve.entry
    rw [hwindow] at hn
    simp at hn
  have hcarries : ∀ h, c.carries h = none := by
    intro h
    by_contra hh
    obtain ⟨r, hr⟩ := Option.ne_none_iff_exists'.mp hh
    obtain ⟨s, hs, -⟩ := hc.running_of_carries hr
    rw [hstations] at hs
    simp at hs
  have hbus : c.bus.isEmpty = true := Option.isNone_iff_eq_none.mpr (hcarries .bus)
  have hunits : c.units.isIdle = true := by
    rw [Units.isIdle, List.all_eq_true]
    intro k _
    have hk := hcarries (.unit k)
    rw [carries, completion?] at hk
    rw [FunctionalUnit.isBusy]
    cases hwork : (c.units.get k).work with
    | none => rfl
    | some w => rw [hwork] at hk; cases hk
  rw [Core.isIdle, h, Stations.isEmpty_of_get? hstations, hbus, hunits]
  rfl

end Consistent

/-! ### The end of a cycle -/

theorem wakeUp_bus (c : Core) : c.wakeUp.core.bus.isEmpty = true := by
  rw [wakeUp]
  split
  · next h => exact Option.isNone_iff_eq_none.mpr (Option.map_eq_none_iff.mp h)
  · next h =>
    obtain ⟨r, -, he⟩ := Option.map_eq_some_iff.mp h
    obtain ⟨-, rfl⟩ := Prod.mk.inj he
    rfl

theorem retire_bus (c : Core) : c.retire.core.bus = c.bus := by
  rw [retire]
  split
  · rfl
  · exact retiring_bus _ _ _ _

/-- A cycle that gets past dispatch leaves nothing on the bus. -/
theorem tick_bus {q : IssueQueue} {m : Memory} (hrun : c.halted = false)
    (hok : (c.tick q m).fault = none) : (c.tick q m).core.bus.isEmpty = true := by
  rw [(tick_of_ok hrun ((fault_tick hrun).symm.trans hok)).2, endCycle, retire_bus, wakeUp_bus]

/-- A cycle that fails does not halt the core. -/
theorem tick_halted {q : IssueQueue} {m : Memory} {fault : MemoryError} (hrun : c.halted = false)
    (hfault : (c.tick q m).fault = some fault) : (c.tick q m).core.halted = false := by
  obtain ⟨_, _, _, _, _, _, _, heq⟩ := c.dispatched_eq q m
  rw [(tick_of_fault hrun ((fault_tick hrun).symm.trans hfault)).2, heq]
  exact hrun

end Core

namespace System.Reachable

variable {st : CoreSettings} {n : Nat} {m : Memory} {s : System}

/-- A halted core has nothing on the bus. -/
theorem bus_of_halted (h : Reachable st n m s) (hhalted : s.core.halted = true) :
    s.core.bus.isEmpty = true := by
  induction h with
  | new => cases hhalted
  | @push t _ i _ ih =>
    rw [System.push] at hhalted ⊢
    split at hhalted
    · exact ih hhalted
    · exact ih hhalted
  | @tick t _ ih =>
    change (t.core.tick t.queue t.memory).core.halted = true at hhalted
    change (t.core.tick t.queue t.memory).core.bus.isEmpty = true
    cases hrun : t.core.halted with
    | true =>
      rw [Core.tick, hrun]
      exact ih hrun
    | false =>
      cases hfault : (t.core.tick t.queue t.memory).fault with
      | none => exact Core.tick_bus hrun hfault
      | some fault =>
        rw [Core.tick_halted hrun hfault] at hhalted
        simp at hhalted

/-- **No instruction is lost or doubled** between the window, the stations, the units and the bus,
whatever the sizes and latencies, and after cycles that fail as after those that do not. Occupied
stations and entries without a result correspond one to one; a station has started if and only if
exactly one unit or the bus carries its result; and what a unit or the bus carries is the result of
such a station. -/
theorem nothing_lost (h : Reachable st n m s) :
    (∀ k t, s.core.stations.get? k = some t → ∃ e, s.core.window.get? t.tag = some e ∧
        e.ready = false ∧ t.uuid = e.instruction.uuid ∧ t.unit = e.instruction.unit) ∧
      (∀ tag e, s.core.window.get? tag = some e → e.ready = false →
        ∃! k, ∃ t, s.core.stations.get? k = some t ∧ t.tag = tag) ∧
      (∀ k t, s.core.stations.get? k = some t → (t.running = true ↔
        ∃! x, ∃ r, s.core.carries x = some r ∧ r.slot = k ∧ r.tag = t.tag)) ∧
      (∀ x r, s.core.carries x = some r →
        ∃ t, s.core.stations.get? r.slot = some t ∧ t.tag = r.tag ∧ t.running = true) ∧
      (∀ k w, (s.core.units.get k).work = some w → ∃ t,
        s.core.stations.get? w.completion.slot = some t ∧ t.unit = k ∧
          t.uuid = w.completion.uuid) ∧
      (s.core.stations.toList.countP fun t => t.2.running) =
        (UnitKind.all.countP fun k => (s.core.units.get k).isBusy) +
          (if s.core.bus.isEmpty then 0 else 1) ∧
      ((s.core.tick s.queue s.memory).fault = none → s.tick.core.bus.isEmpty = true) ∧
      (s.core.window.isEmpty = true → s.core.isIdle = true) := by
  have hc := h.consistent
  refine ⟨fun k t ht => ?_, fun tag e he hready => ?_, fun k t ht => ⟨fun hrun => ?_, ?_⟩,
    fun x r hr => hc.running_of_carries hr, fun k w hw => ?_, hc.running_eq, fun hok => ?_,
    hc.isIdle⟩
  · obtain ⟨number, e, hserve, hrest⟩ := hc.serves ht
    exact ⟨e, hserve.get?_tag, hrest⟩
  · obtain ⟨number, hnumber, rfl⟩ := ReorderBuffer.get?_eq_some_iff.mp he
    obtain ⟨k, t, hserve⟩ := hc.served hnumber hready
    refine ⟨k, ⟨t, hserve.station, hserve.tag⟩, fun l ⟨u, hu, hutag⟩ => ?_⟩
    exact hc.slot_inj hu hserve.station (hutag.trans hserve.tag.symm)
  · obtain ⟨x, r, hr, rfl⟩ := hc.carries_of_running ht hrun
    obtain ⟨u, hu, hutag, -⟩ := hc.running_of_carries hr
    obtain rfl := Option.some.inj (ht.symm.trans hu)
    exact ⟨x, ⟨r, hr, rfl, hutag.symm⟩, fun y ⟨r', hr', hslot, _⟩ => hc.holder_inj hr' hr hslot⟩
  · rintro ⟨x, ⟨r, hr, rfl, -⟩, -⟩
    obtain ⟨u, hu, -, hrun⟩ := hc.running_of_carries hr
    obtain rfl := Option.some.inj (ht.symm.trans hu)
    exact hrun
  · have hunit : s.core.completion? k = some w.completion := by rw [Core.completion?, hw]; rfl
    obtain ⟨t, ht, -⟩ := hc.running_of_carries (Core.carries_unit hunit)
    exact ⟨t, ht, hc.own_unit hunit ht⟩
  · cases hrun : s.core.halted with
    | true =>
      change (s.core.tick s.queue s.memory).core.bus.isEmpty = true
      rw [Core.tick, hrun]
      exact h.bus_of_halted hrun
    | false => exact Core.tick_bus hrun hok

/-- The first cycle of an addition: it has started, and one place has its result. -/
theorem nothing_lost_started :
    let s := ((System.new { aluLatency := 3 } 4 (.empty 0 16)).offer 0x00500093 0 7).tick
    ∃! x, ∃ r, s.core.carries x = some r ∧ r.slot = 0 ∧ r.tag = 0 := by
  intro s
  obtain ⟨-, -, hrunning, -⟩ := nothing_lost (Reachable.new.offer 0x00500093 0 7).tick
  obtain ⟨t, ht, htag, hrun⟩ :
      ∃ t, s.core.stations.get? 0 = some t ∧ t.tag = 0 ∧ t.running = true := ⟨_, rfl, rfl, rfl⟩
  have hunique := (hrunning 0 t ht).mp hrun
  rw [htag] at hunique
  exact hunique

end System.Reachable

end OutOfOrder
