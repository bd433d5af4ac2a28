import OutOfOrder.Proofs.Freezing
import OutOfOrder.Proofs.Guards

/-!
# Publication moves one result and loses none

In every cycle the units that have finished ask for the bus, and at most one of them gets it. Its
result is then on the bus and nowhere else, and those that have lost keep theirs and will ask again.
This is so under every policy, and also if a cycle that failed has left a result on the bus.

Who may lose how often depends on the policy. When the oldest instruction has precedence, the one at
the head of the reorder buffer never loses: serial numbers follow the order of the buffer, so nobody
who asks is older. It is on the bus as soon as it has finished and the bus is free, and since nothing
can stop it any more unless the cycle fails, it has retired when the cycle ends.

## Main definitions

* `Core.finished` — the units that ask for the bus
* `Core.HandsOver` — one unit has handed over its result, and nothing else has changed

## Main results

* `Core.publish_of_quiet`, `publish_handsOver`, `HandsOver.stalls` — one round of arbitration
* `Request.oldest?_le` — under the third policy nobody who asks is older than the winner
* `Snapshot.OnTrack.winner_of_head` — so the head of the reorder buffer wins
* `System.Reachable.publishes_one` — both together, for the whole cycle
-/

namespace OutOfOrder

/-! ### Arbitration -/

/-- Nobody who asks is older than the one that is chosen for its age. -/
theorem Request.oldest?_le {rs : List Request} {r : Request} (h : oldest? rs = some r) :
    ∀ x ∈ rs, r.uuid ≤ x.uuid := by
  induction rs generalizing r with
  | nil => cases h
  | cons a rs ih =>
    rw [oldest?] at h
    split at h
    · next hnone =>
      obtain rfl := Option.some.inj h
      rw [eq_nil_of_oldest? hnone]
      exact List.forall_mem_singleton.mpr (Nat.le_refl _)
    · next s hs =>
      refine List.forall_mem_cons.mpr ?_
      split at h
      · next hlt =>
        obtain rfl := Option.some.inj h
        exact ⟨Nat.le_of_lt hlt, ih hs⟩
      · next hle =>
        obtain rfl := Option.some.inj h
        exact ⟨Nat.le_refl _, fun x hx => Nat.le_trans (Nat.le_of_not_lt hle) (ih hs x hx)⟩

namespace Arbiter

variable {a b : Arbiter} {rs : List Request} {k : UnitKind}

/-- A policy is for ever. -/
theorem policy_of_grant (h : a.grant rs = some (k, b)) : b.policy = a.policy := by
  obtain ⟨l, -, he⟩ := Option.map_eq_some_iff.mp h
  split at he
  all_goals
    obtain ⟨-, rfl⟩ := Prod.mk.inj he
    rfl

theorem oldest?_of_grant (hpolicy : a.policy = .oldestFirst) (h : a.grant rs = some (k, b)) :
    ∃ r, Request.oldest? rs = some r ∧ r.unit = k := by
  obtain ⟨l, hl, he⟩ := Option.map_eq_some_iff.mp h
  rw [hpolicy] at he
  obtain ⟨rfl, -⟩ := Prod.mk.inj he
  rw [winner?, hpolicy] at hl
  exact Option.map_eq_some_iff.mp hl

end Arbiter

/-! ### One round -/

namespace Core

variable {c : Core} {q : IssueQueue} {m : Memory} {k : UnitKind} {o : Completion}

/-- The units that have finished, in their fixed order. -/
def finished (c : Core) : List UnitKind := UnitKind.all.filter fun k => (c.units.get k).isDone

/-- Unit `k` has handed over its result `o` to the bus, which was free. This has made core `c` the
core `d`, and nothing else has changed. -/
structure HandsOver (c : Core) (k : UnitKind) (o : Completion) (d : Core) : Prop where
  free : c.bus.current = none
  finished : (c.units.get k).output? = some o
  /-- The unit is empty. -/
  emptied : d.units.get k = { c.units.get k with work := none }
  /-- The others keep what they have. -/
  kept : ∀ l, l ≠ k → d.units.get l = c.units.get l
  /-- The bus has the result, and where it belongs. -/
  onBus : d.bus.current =
    some { result := o.result, tag := o.tag, slot := o.slot, redirect := o.redirect }
  /-- The arbiter has decided so. -/
  granted : c.arbiter.grant c.requests = some (k, d.arbiter)
  rest : d = { c with units := d.units, bus := d.bus, arbiter := d.arbiter }

/-- Those that ask are those that have finished. -/
theorem map_unit_requests (c : Core) : c.requests.map Request.unit = c.finished := by
  have hall : ∀ ks : List UnitKind, (ks.filterMap fun k => (c.units.get k).output?.map fun o =>
      ({ unit := k, uuid := o.uuid } : Request)).map Request.unit =
        ks.filter fun k => (c.units.get k).isDone := by
    intro ks
    induction ks with
    | nil => rfl
    | cons k ks ih =>
      rw [List.filterMap_cons, List.filter_cons, FunctionalUnit.isDone]
      cases (c.units.get k).output? with
      | none => exact ih
      | some o => exact congrArg (k :: ·) ih
  exact hall UnitKind.all

theorem mem_finished_iff : k ∈ c.finished ↔ ∃ o, (c.units.get k).output? = some o := by
  have hall : k ∈ UnitKind.all := by cases k <;> decide
  rw [finished, List.mem_filter, and_iff_right hall, FunctionalUnit.isDone,
    Option.isSome_iff_exists]

theorem nodup_finished (c : Core) : c.finished.Nodup :=
  List.Pairwise.filter _ (show UnitKind.all.Nodup by decide)

/-- If the bus is taken or nobody has finished, nothing happens. -/
theorem publish_of_quiet (h : c.bus.isEmpty = false ∨ c.finished = []) :
    c.publish = { core := c, events := [] } := by
  rw [publish]
  split
  · next hempty =>
    have hnone : c.requests = [] := by
      rw [← List.map_eq_nil_iff (f := Request.unit), c.map_unit_requests]
      exact h.resolve_left (by rw [hempty]; decide)
    have hgrant : c.arbiter.grant c.requests = none := by
      rw [Option.eq_none_iff_forall_ne_some, hnone]
      rintro ⟨k, b⟩ hb
      obtain ⟨r, hr, -⟩ := Arbiter.mem_of_grant hb
      cases hr
    rw [hgrant]
    rfl
  · rfl

/-- The unit that is granted the bus hands over its result, and the others are told. -/
theorem publish_of_grant {b : Arbiter} (hempty : c.bus.isEmpty = true)
    (hgrant : c.arbiter.grant c.requests = some (k, b)) :
    ∃ o, c.HandsOver k o c.publish.core ∧
      c.publish.events = (c.requests.filter fun r => r.unit != k).map fun r => .held r k := by
  obtain ⟨o, ho⟩ := output?_of_grant hgrant
  have hclear : (c.units.get k).clear? = some (o, { c.units.get k with work := none }) := by
    rw [FunctionalUnit.clear?, ho]
    rfl
  have hpublish : c.publish =
      { core := ({ c with arbiter := b } : Core).publishing k o
        events := (c.requests.filter fun r => r.unit != k).map fun r => .held r k } := by
    rw [publish, if_pos hempty, hgrant]
    dsimp only
    rw [hclear]
    rfl
  rw [hpublish]
  refine ⟨o, ?_, rfl⟩
  exact
    { free := Option.isNone_iff_eq_none.mp hempty
      finished := ho
      emptied := by
        rw [publishing, Units.get_set, if_pos rfl]
      kept := fun l hl => by
        rw [publishing, Units.get_set, if_neg (Ne.symm hl)]
      onBus := rfl
      granted := hgrant
      rest := rfl }

/-- If the bus is free and somebody has finished, somebody hands over a result. -/
theorem publish_handsOver (hempty : c.bus.isEmpty = true) (h : c.finished ≠ []) :
    ∃ k o, c.HandsOver k o c.publish.core := by
  cases hgrant : c.arbiter.grant c.requests with
  | none =>
    refine absurd ?_ h
    rw [← c.map_unit_requests, Arbiter.eq_nil_of_grant hgrant]
    rfl
  | some x =>
    obtain ⟨o, ho, -⟩ := publish_of_grant hempty hgrant
    exact ⟨x.1, o, ho⟩

/-- Everybody else who has finished is reported once. -/
theorem HandsOver.stalls (h : c.HandsOver k o c.publish.core) :
    c.publish.events.map Event.stall? =
      List.replicate (c.finished.length - 1) (some .busContention) := by
  have hempty : c.bus.isEmpty = true := Option.isNone_iff_eq_none.mpr h.free
  obtain ⟨-, -, hevents⟩ := publish_of_grant hempty h.granted
  have hmem : k ∈ c.finished := mem_finished_iff.mpr ⟨o, h.finished⟩
  have hcount : (c.requests.filter fun r => r.unit != k).length = c.finished.length - 1 := by
    calc (c.requests.filter fun r => r.unit != k).length
        = ((c.requests.filter fun r => r.unit != k).map Request.unit).length :=
          (List.length_map _).symm
      _ = (c.finished.filter (· != k)).length := by
          rw [← c.map_unit_requests, List.filter_map]
          rfl
      _ = (c.finished.erase k).length := by rw [c.nodup_finished.erase_eq_filter]
      _ = c.finished.length - 1 := List.length_erase_of_mem hmem
  rw [hevents, List.map_map, ← hcount]
  exact List.map_eq_replicate_iff.mpr fun _ _ => rfl

/-! ### The policy -/

theorem policy_publish (c : Core) : c.publish.core.arbiter.policy = c.arbiter.policy := by
  rw [publish]
  split
  · split
    · rfl
    · next hgrant =>
      have hpolicy := Arbiter.policy_of_grant hgrant
      split
      · exact hpolicy
      · exact hpolicy
  · rfl

theorem arbiter_issue (c : Core) (q : IssueQueue) : (c.issue q).core.arbiter = c.arbiter := by
  obtain ⟨_, _, _, heq⟩ := c.issue_eq q
  rw [heq]

/-- A cycle keeps the policy. -/
theorem policy_tick (c : Core) (q : IssueQueue) (m : Memory) :
    (c.tick q m).core.arbiter.policy = c.arbiter.policy := by
  have hdispatched : (c.dispatched q m).core.arbiter.policy = c.arbiter.policy := by
    obtain ⟨_, _, _, hdispatch⟩ := dispatchEach_eq
      (c.beginCycle.issue q).core.advanceUnits.publish.core m
      (c.beginCycle.issue q).core.advanceUnits.publish.core.stations.dispatchable
    rw [dispatched, dispatch, hdispatch]
    dsimp only
    rw [policy_publish]
    exact congrArg Arbiter.policy (arbiter_issue c.beginCycle q)
  cases hrun : c.halted with
  | true => rw [tick, if_pos hrun]
  | false =>
    cases hfault : (c.dispatched q m).fault with
    | some fault => rw [(tick_of_fault hrun hfault).2, hdispatched]
    | none =>
      obtain ⟨_, _, _, _, hwoken⟩ := (c.dispatched q m).core.wakeUp_eq
      have hpolicy : (c.dispatched q m).core.wakeUp.core.arbiter.policy = c.arbiter.policy := by
        rw [hwoken]
        exact hdispatched
      rw [(tick_of_ok hrun hfault).2, endCycle]
      dsimp only
      rcases (c.dispatched q m).core.wakeUp.core.retire_window with heq | ⟨tag, e, w, -, heq⟩
      · rw [heq, hpolicy]
      · obtain ⟨_, _, hretiring⟩ := (c.dispatched q m).core.wakeUp.core.retiring_eq tag e w
        rw [heq, hretiring]
        exact hpolicy

/-- What is reported at the end of a cycle that does not fail. -/
theorem retire_events_tick (hrun : c.halted = false) (hok : (c.dispatched q m).fault = none) :
    (c.dispatched q m).core.wakeUp.core.retire.events ⊆ (c.tick q m).events := by
  rw [tick_eq_of_ok hrun hok]
  exact List.subset_append_right _ _

/-- Dispatch leaves the window and the bus alone. -/
theorem dispatch_frame (c : Core) (m : Memory) :
    (c.dispatch m).core.window = c.window ∧ (c.dispatch m).core.bus = c.bus := by
  obtain ⟨_, _, _, heq⟩ := c.dispatchEach_eq m c.stations.dispatchable
  rw [dispatch, heq]
  exact ⟨rfl, rfl⟩

end Core

/-! ### The head of the reorder buffer -/

namespace Snapshot

variable {s : Snapshot} {c : Core} {q : IssueQueue} {m : Memory} {start : Sequential}
  {is : List Instruction} {n : Nat} {k l : UnitKind} {o p : Completion} {tag : Tag} {e : Entry}

/-- A unit works for a station, and this one for an entry. -/
theorem OnTrack.exists_serves_of_output? (hs : s.OnTrack start is n)
    (ho : (s.core.units.get k).output? = some o) :
    ∃ t i f, s.core.Serves o.slot t i f ∧ t.tag = o.tag ∧ t.uuid = o.uuid := by
  have hc := hs.sound.consistent
  have hcompletion := Core.completion?_of_output? ho
  obtain ⟨t, ht, htag, -⟩ := hc.running_of_carries (Core.carries_unit hcompletion)
  obtain ⟨i, f, hserve, -⟩ := hc.serves ht
  exact ⟨t, i, f, hserve, htag, (hc.own_unit hcompletion ht).2⟩

/-- The head of the window is older than what any other unit has finished. -/
theorem OnTrack.uuid_lt_of_head (hs : s.OnTrack start is n) (hnum : Numbered is)
    (hhead : s.core.window.nth? s.core.window.departed = some e)
    (ho : (s.core.units.get k).output? = some o)
    (htag : o.tag = s.core.window.place s.core.window.departed)
    (hp : (s.core.units.get l).output? = some p) (hne : l ≠ k) : o.uuid < p.uuid := by
  have hc := hs.sound.consistent
  obtain ⟨t, i, f, ht, httag, htuuid⟩ := hs.exists_serves_of_output? ho
  obtain ⟨u, j, g, hu, -, huuuid⟩ := hs.exists_serves_of_output? hp
  obtain rfl : i = s.core.window.departed :=
    ReorderBuffer.place_inj ht.entry hhead (ht.tag.symm.trans (httag.trans htag))
  rw [← htuuid, ← huuuid]
  rcases Nat.eq_or_lt_of_le (ReorderBuffer.bounds_of_nth? hu.entry).1 with heq | hlt
  · -- one entry has one station, and one holder has its result
    subst heq
    have hslot : o.slot = p.slot :=
      hc.slot_inj ht.station hu.station (ht.tag.trans hu.tag.symm)
    have hholder : Holder.unit k = .unit l :=
      hc.holder_inj (Core.carries_unit (Core.completion?_of_output? ho))
        (Core.carries_unit (Core.completion?_of_output? hp)) hslot
    exact absurd (Holder.unit.inj hholder).symm hne
  · exact hs.uuid_lt hnum ht hu hlt

/-- **The head of the reorder buffer wins** when the oldest instruction has precedence. -/
theorem OnTrack.winner_of_head {b : Arbiter} (hs : s.OnTrack start is n) (hnum : Numbered is)
    (hpolicy : s.core.arbiter.policy = .oldestFirst)
    (hhead : s.core.window.nth? s.core.window.departed = some e)
    (ho : (s.core.units.get k).output? = some o)
    (htag : o.tag = s.core.window.place s.core.window.departed)
    (hgrant : s.core.arbiter.grant s.core.requests = some (l, b)) : l = k := by
  obtain ⟨r, hr, rfl⟩ := Arbiter.oldest?_of_grant hpolicy hgrant
  obtain ⟨l, -, hl⟩ := List.mem_filterMap.mp (Arbiter.oldest?_mem hr)
  obtain ⟨p, hp, rfl⟩ := Option.map_eq_some_iff.mp hl
  by_contra hne
  have hlt := hs.uuid_lt_of_head hnum hhead ho htag hp hne
  have hasks : { unit := k, uuid := o.uuid } ∈ s.core.requests :=
    List.mem_filterMap.mpr ⟨k, by cases k <;> decide, by rw [ho]; rfl⟩
  exact Nat.not_le_of_lt hlt (Request.oldest?_le hr _ hasks)

/-- What is on the bus for the head of the window arrives, and lets it retire. -/
theorem retire_of_bus {r : Broadcast} (hc : c.Consistent) (hbus : c.bus.current = some r)
    (hhead : c.window.nth? c.window.departed = some e)
    (htag : r.tag = c.window.place c.window.departed) :
    c.wakeUp.core.window.get? r.tag = some { e with ready := true, result := r.result } ∧
      .commit r.tag { e with ready := true, result := r.result } ∈ c.wakeUp.core.retire.events ∧
      c.wakeUp.core.retire.core.retired = c.wakeUp.core.retired + 1 := by
  obtain ⟨t, i, f, hserve, httag, -, hw⟩ := hc.delivering_completes hbus
  obtain rfl : i = c.window.departed :=
    ReorderBuffer.place_inj hserve.entry hhead (hserve.tag.symm.trans (httag.trans htag))
  have hwoken : c.wakeUp.core = c.delivering r := by
    rw [Core.wakeUp, Bus.take?, hbus]
    rfl
  have hdone : (c.delivering r).window.nth? (c.delivering r).window.departed =
      some { e with ready := true, result := r.result } := by
    rw [hw.departed, hw.nth?, if_pos rfl, hhead]
    rfl
  rw [hwoken]
  refine ⟨?_, ?_⟩
  · rw [htag, ← hw.place, ← hw.departed]
    exact ReorderBuffer.get?_place hdone
  · rw [Core.retire]
    cases hcommit : (c.delivering r).window.commit? with
    | none =>
      have hunready := ReorderBuffer.unready_of_commit? hcommit hdone
      cases hunready
    | some x =>
      obtain ⟨tag, g, w⟩ := x
      have hleft := ReorderBuffer.left_of_commit? hcommit
      obtain rfl := Option.some.inj (hleft.oldest.symm.trans hdone)
      obtain rfl : tag = r.tag := by
        rw [hleft.tag_eq, hw.place, hw.departed, htag]
      exact ⟨List.mem_cons_self, (c.delivering r).retiring_retired _ _ w⟩

end Snapshot

namespace System.Reachable

variable {st : CoreSettings} {n : Nat} {m : Memory} {s : System}

theorem policy_eq (h : Reachable st n m s) : s.core.arbiter.policy = st.policy := by
  induction h with
  | new => rfl
  | @push t _ i _ ih =>
    obtain ⟨queue, accepted, -, heq⟩ := t.push_eq i
    rw [heq]
    exact ih
  | @tick t _ ih => exact (t.core.policy_tick t.queue t.memory).trans ih

/-- When the oldest instruction has precedence, the head of the reorder buffer gets the free bus as
soon as it has finished, and retires in the same cycle unless this fails. -/
theorem head_retires (h : Reachable st n m s) (hpolicy : st.policy = .oldestFirst)
    (hnum : Numbered s.accepted) (hrun : s.core.halted = false)
    (hok : (s.core.tick s.queue s.memory).fault = none) (hbus : s.core.bus.isEmpty = true)
    {c : Core} (hc : c = (s.core.beginCycle.issue s.queue).core.advanceUnits) {d : Core}
    (hd : d = (c.publish.core.dispatch s.memory).core) {e : Entry} {k : UnitKind} {o : Completion}
    (hhead : c.window.nth? c.window.departed = some e) (ho : (c.units.get k).output? = some o)
    (htag : o.tag = c.window.place c.window.departed) :
    let done : Entry := { e with ready := true, result := o.result }
    c.HandsOver k o c.publish.core ∧ d.wakeUp.core.window.get? o.tag = some done ∧
      .commit o.tag done ∈ (s.core.tick s.queue s.memory).events ∧
      s.tick.core.retired = s.core.retired + 1 := by
  intro done
  have htrack : Snapshot.OnTrack { memory := m } s.accepted s.accepted.length
      ⟨c, (s.core.beginCycle.issue s.queue).queue, s.memory⟩ := by
    rw [hc]
    exact (h.onTrack (List.prefix_refl _) hnum).steps hnum
      ((Snapshot.journal_beginCycle.trans Snapshot.journal_issue).trans
        Snapshot.journal_advanceUnits).steps
  have hissue := s.core.beginCycle.issue_eq s.queue
  have harbiter : c.arbiter.policy = .oldestFirst := by
    obtain ⟨_, _, _, heq⟩ := hissue
    rw [hc, heq]
    exact h.policy_eq.trans hpolicy
  have hempty : c.bus.isEmpty = true := by
    obtain ⟨_, _, _, heq⟩ := hissue
    rw [hc, heq]
    exact hbus
  -- the head wins
  obtain ⟨l, p, hhands⟩ := Core.publish_handsOver hempty
    (List.ne_nil_of_mem (Core.mem_finished_iff.mpr ⟨o, ho⟩))
  obtain rfl : l = k := htrack.winner_of_head hnum harbiter hhead ho htag hhands.granted
  obtain rfl : p = o := Option.some.inj (hhands.finished.symm.trans ho)
  -- and nothing stops it on its way
  have hwindow : d.window = c.window := by
    rw [hd, (c.publish.core.dispatch_frame s.memory).1, hhands.rest]
  have hdbus : d.bus.current = some p.broadcast := by
    rw [hd, (c.publish.core.dispatch_frame s.memory).2]
    exact hhands.onBus
  have hconsistent : d.Consistent := by
    rw [hd]
    exact (htrack.steps hnum
      (Snapshot.journal_publish.trans Snapshot.dispatches_dispatch.journal).steps).sound.consistent
  obtain ⟨hready, hcommit, hretired⟩ := Snapshot.retire_of_bus hconsistent hdbus
    (by rw [hwindow]; exact hhead) (by rw [hwindow]; exact htag)
  have hdispatched : d = (s.core.dispatched s.queue s.memory).core := by
    rw [hd, hc]
    rfl
  have hfault : (s.core.dispatched s.queue s.memory).fault = none :=
    (Core.fault_tick hrun).symm.trans hok
  rw [hdispatched] at hcommit hretired
  refine ⟨hhands, hready, Core.retire_events_tick hrun hfault hcommit, ?_⟩
  calc s.tick.core.retired
      = (s.core.dispatched s.queue s.memory).core.wakeUp.core.retire.core.retired := by
        rw [System.tick, (Core.tick_of_ok hrun hfault).2, Core.endCycle]
    _ = s.core.retired + 1 := by
        rw [hretired, (s.core.counts_wakeUp s.queue s.memory).2.1]

/-- A cycle that retires an instruction retires no other one. -/
theorem committed_of_commit (h : Reachable st n m s) {tag : Tag} {e : Entry}
    (he : .commit tag e ∈ (s.core.tick s.queue s.memory).events) :
    s.tick.committed = s.committed ++ [e.instruction] := by
  have hmem : e.instruction ∈
      (s.core.tick s.queue s.memory).events.filterMap Event.committed? :=
    List.mem_filterMap.mpr ⟨_, he, rfl⟩
  have hadded : s.tick.committed =
      s.committed ++ (s.core.tick s.queue s.memory).events.filterMap Event.committed? :=
    List.filterMap_append
  obtain ⟨j, hj⟩ : ∃ j,
      (s.core.tick s.queue s.memory).events.filterMap Event.committed? = [j] :=
    List.length_eq_one_iff.mp
      (Nat.le_antisymm h.length_committed_tick_le (List.length_pos_of_mem hmem))
  rw [hj] at hmem hadded
  rw [hadded, List.mem_singleton.mp hmem]

/-- **Publication moves one result and loses none.** Whatever state a core is in and whatever its
policy is: if the bus is taken or nobody has finished, nothing changes and nothing is reported.
Otherwise one of the finished units hands over its result, and each of the others is reported as
held back.

And when the oldest instruction has precedence, the one at the head of the reorder buffer never
loses. If its unit has finished in a cycle that finds the bus free and does not fail, then in this
cycle it is published, marked as ready and retired. (A core that has halted lets no time pass for
its units.) -/
theorem publishes_one (h : Reachable st n m s) :
    (∀ c : Core,
      (c.bus.isEmpty = false ∨ c.finished = [] → c.publish.core = c ∧ c.publish.events = []) ∧
      (c.bus.isEmpty = true → c.finished ≠ [] →
        ∃ k o, k ∈ c.finished ∧ c.HandsOver k o c.publish.core ∧
          c.publish.events.map Event.stall? =
            List.replicate (c.finished.length - 1) (some .busContention))) ∧
    (st.policy = .oldestFirst → (s.accepted.Pairwise fun i j => i.uuid < j.uuid) →
      s.core.halted = false → (s.core.tick s.queue s.memory).fault = none →
      s.core.bus.isEmpty = true →
      let c := (s.core.beginCycle.issue s.queue).core.advanceUnits
      let d := (s.core.dispatched s.queue s.memory).core
      ∀ tag e k o, c.window.toList[0]? = some (tag, e) → (c.units.get k).output? = some o →
        o.tag = tag →
        let done : Entry := { e with ready := true, result := o.result }
        c.HandsOver k o c.publish.core ∧ d.wakeUp.core.window.get? tag = some done ∧
          .commit tag done ∈ (s.core.tick s.queue s.memory).events ∧
          s.tick.committed = s.committed ++ [e.instruction] ∧
          s.tick.core.retired = s.core.retired + 1) := by
  refine ⟨fun c => ⟨fun hquiet => ?_, fun hempty hfinished => ?_⟩, ?_⟩
  · rw [Core.publish_of_quiet hquiet]
    exact ⟨rfl, rfl⟩
  · obtain ⟨k, o, hhands⟩ := Core.publish_handsOver hempty hfinished
    exact ⟨k, o, Core.mem_finished_iff.mpr ⟨o, hhands.finished⟩, hhands, hhands.stalls⟩
  · intro hpolicy hnum hrun hok hbus c d tag e k o hhead ho htag done
    obtain ⟨hentry, hplace⟩ := ReorderBuffer.nth?_of_toList hhead
    rw [Nat.add_zero] at hentry hplace
    subst htag
    obtain ⟨hhands, hready, hcommit, hretired⟩ :=
      h.head_retires hpolicy hnum hrun hok hbus (c := c) rfl (d := d) rfl hentry ho hplace.symm
    have hcommitted := h.committed_of_commit hcommit
    exact ⟨hhands, hready, hcommit, hcommitted, hretired⟩

/-- A load and a sum finish in the same cycle: the load is the older one, and retires. -/
theorem publishes_one_contended :
    let s := (((System.new {} 4 (.empty 0 16)).offer 0x00002083 0 0).offer
      0x00500113 4 1).tick.tick
    (s.core.beginCycle.issue s.queue).core.advanceUnits.finished = [.alu, .memory] ∧
      ∃ e, s.core.window.toList[0]? = some (0, e) ∧ e.instruction.unit = .memory ∧
        s.tick.committed = s.committed ++ [e.instruction] := by
  intro s
  have h : Reachable {} 4 (.empty 0 16) s :=
    ((Reachable.new.offer 0x00002083 0 0).offer 0x00500113 4 1).tick.tick
  obtain ⟨e, o, hhead, hunit, hissued, ho, htag⟩ : ∃ e o,
      s.core.window.toList[0]? = some (0, e) ∧ e.instruction.unit = .memory ∧
      (s.core.beginCycle.issue s.queue).core.advanceUnits.window.toList[0]? = some (0, e) ∧
      ((s.core.beginCycle.issue s.queue).core.advanceUnits.units.get .memory).output? = some o ∧
      o.tag = 0 := ⟨_, _, rfl, rfl, rfl, rfl, rfl⟩
  obtain ⟨-, -, -, hcommitted, -⟩ :=
    (publishes_one h).2 rfl (by decide) rfl rfl rfl 0 e .memory o hissued ho htag
  exact ⟨rfl, e, hhead, hunit, hcommitted⟩

end System.Reachable

end OutOfOrder
