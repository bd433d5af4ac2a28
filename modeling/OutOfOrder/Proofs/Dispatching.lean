import OutOfOrder.Proofs.Freezing

/-!
# Dispatch serves the oldest of each unit

The slots that may start are listed once, before the first visit, and the list is worked through
while units fill up, memory changes and stations start. That it is stale does no harm. A station
that may start still may when its turn comes, since what starts in the meantime changes no other
station. The first station of the list that finds its unit free keeps the unit busy for all that
follow; so each unit takes one station, and as the list is by age, the oldest one. And what it
computes does not depend on what has started before: only one station of the list can be a load or
store, only one can access control and status registers, and nobody else has anything to do with
either.

## Main definitions

* `Snapshot.Round` — everything that working through a list of slots can do
* `Event.started?` — what an event says a unit has started on
* `Stations.first?` — the first of some slots that is for a unit
* `Core.Starts`, `Core.Idle` — a unit has taken a station, or none
* `Core.Chosen` — a station may start on its free unit, and is the oldest one that may

## Main results

* `Snapshot.round_of_eligible` — a list of slots that may start is worked through in this way
* `Snapshot.Round.unit`, `Round.slot`, `Round.stalls` — what has become of each unit and of each
  station, and what is reported
* `Snapshot.OnTrack.first?_iff` — the first one for a unit is the oldest one
* `System.Reachable.dispatch_serves_oldest` — all of it together
-/

namespace OutOfOrder

/-- The completion that an event says a unit has started on. -/
def Event.started? : Event → Option Completion
  | dispatch _ o => some o
  | _ => none

theorem Core.filterMap_started?_sideEffects (c : Core) (m : Memory) (i : Instruction)
    (a b : Word) : (c.sideEffects m i a b).filterMap Event.started? = [] := by
  rw [sideEffects]
  cases i.unit <;> rfl

theorem Core.filterMap_stall?_sideEffects (c : Core) (m : Memory) (i : Instruction)
    (a b : Word) : (c.sideEffects m i a b).filterMap Event.stall? = [] := by
  rw [sideEffects]
  cases i.unit <;> rfl

/-- What an instruction does is the same in another memory, unless it is a load or store, and with
other control and status registers, unless it accesses them. -/
theorem Instruction.compute_elsewhere {i : Instruction} {a b : Word} {m m' : Memory}
    {f f' : CsrFile} {x : Effect} (h : i.compute a b m f = .ok x)
    (hm : i.unit = .memory → m' = m) (hf : i.unit = .system → f' = f) :
    ∃ y, i.compute a b m' f' = .ok y ∧ y.result = x.result ∧ y.redirect = x.redirect ∧
      (i.unit = .memory → y.memory = x.memory) ∧ (i.unit = .system → y.csrs = x.csrs) := by
  have hother : ∀ {u v : UnitKind} {p : Prop}, i.unit = u → u ≠ v → i.unit = v → p :=
    fun hu hne hv => absurd (hu.symm.trans hv) hne
  rcases compute_cases h with ⟨hunit, rfl⟩ | ⟨hunit, rfl⟩ | ⟨hunit, value, after, hls, rfl⟩ |
    ⟨hunit, rfl⟩
  · exact ⟨⟨i.arithmetic a b, none, m', f'⟩, by rw [compute, hunit], rfl, rfl,
      hother hunit (by decide), hother hunit (by decide)⟩
  · exact ⟨⟨i.link, some (i.target a b), m', f'⟩, by rw [compute, hunit], rfl, rfl,
      hother hunit (by decide), hother hunit (by decide)⟩
  · have hy : i.compute a b m' f' = .ok ⟨value, none, after, f'⟩ := by
      rw [compute, hunit, hm hunit]
      dsimp only
      rw [hls]
      rfl
    exact ⟨_, hy, rfl, rfl, fun _ => rfl, hother hunit (by decide)⟩
  · rw [hf hunit]
    exact ⟨⟨(i.accessCsr a f).1, none, m', (i.accessCsr a f).2⟩, by rw [compute, hunit], rfl, rfl,
      hother hunit (by decide), fun _ => rfl⟩

/-! ### Working through a list -/

namespace Snapshot

/-- What becomes of a list of slots that is worked through, until a station fails. -/
inductive Round : Snapshot → List Slot → Core.Dispatched → Prop where
  /-- Nothing is left to do. -/
  | nil {s : Snapshot} : Round s [] { core := s.core, memory := s.memory, events := [] }
  /-- The unit of the first station is busy. -/
  | stall {s : Snapshot} {k : Slot} {ks : List Slot} {t : Station} {d : Core.Dispatched}
      (ht : s.core.stations.Eligible k t) (hbusy : (s.core.units.get t.unit).work ≠ none)
      (hlater : Round s ks d) :
      Round s (k :: ks) { d with events := [.stall .unitBusy] ++ d.events }
  /-- The first station fails, and the others are not visited. -/
  | fail {s : Snapshot} {k : Slot} {ks : List Slot} {t : Station} {e : Entry} {a b : Word}
      {fault : MemoryError} (h : s.Startable k t e a b) (hunit : e.instruction.unit = t.unit)
      (hfault : e.instruction.compute a b s.memory s.core.csrs = .error fault) :
      Round s (k :: ks)
        { core := s.core, memory := s.memory
          events := s.core.sideEffects s.memory e.instruction a b, fault := some fault }
  /-- The first station starts. -/
  | start {s : Snapshot} {k : Slot} {ks : List Slot} {t : Station} {e : Entry} {a b : Word}
      {x : Effect} {d : Core.Dispatched} (h : s.Startable k t e a b)
      (hunit : e.instruction.unit = t.unit)
      (hx : e.instruction.compute a b s.memory s.core.csrs = .ok x) (hnot : k ∉ ks)
      (hlater : Round ⟨s.core.starting k t x, s.queue, x.memory⟩ ks d) :
      Round s (k :: ks)
        { d with
          events := s.core.sideEffects s.memory e.instruction a b ++
            [.dispatch e.instruction (Core.completion k t x)] ++ d.events }

variable {s : Snapshot} {ks : List Slot} {d : Core.Dispatched}

/-- A list of slots that may start is worked through in this way. -/
theorem round_of_eligible (hc : s.core.Consistent) (hnodup : ks.Nodup)
    (hks : ∀ k ∈ ks, ∃ t, s.core.stations.Eligible k t) :
    s.Round ks (s.core.dispatchEach s.memory ks) := by
  induction ks generalizing s with
  | nil => exact .nil
  | cons k ks ih =>
    obtain ⟨t, ht⟩ := hks k List.mem_cons_self
    have hvisit := visit_of_eligible hc ht
    have hnot := (List.nodup_cons.mp hnodup).1
    obtain ⟨hnodup, hks⟩ := eligible_dispatchAt (m := s.memory) hnodup hks
    rw [Core.dispatchEach]
    dsimp only
    generalize s.core.dispatchAt s.memory k = d at hvisit hks
    cases hvisit with
    | stall hbusy => exact .stall ht hbusy (ih hc hnodup hks)
    | fail h hfault => exact .fail h (h.unit_eq hc).symm hfault
    | @start e a b x h hx =>
      have hc' : (s.core.starting k t x).Consistent :=
        hc.step (.start h.eligible h.free h.entry h.src1 h.src2 hx)
      exact .start h (h.unit_eq hc).symm hx hnot
        (ih (s := ⟨s.core.starting k t x, s.queue, x.memory⟩) hc' hnodup hks)

/-- Dispatch is one round over all that may start. -/
theorem round_dispatch (hc : s.core.Consistent) :
    s.Round s.core.stations.dispatchable (s.core.dispatch s.memory) :=
  round_of_eligible hc (Stations.nodup_dispatchable _) fun _ hk => Stations.mem_dispatchable.mp hk

/-- Each slot of the list has started or is reported as stalled. -/
theorem Round.stalls (h : s.Round ks d) (hok : d.fault = none) :
    ∃ n, d.events.filterMap Event.stall? = List.replicate n .unitBusy ∧
      n + (d.events.filterMap Event.started?).length = ks.length := by
  induction h with
  | nil => exact ⟨0, rfl, rfl⟩
  | @stall s k ks t d ht hbusy hlater ih =>
    obtain ⟨n, hstalls, hcount⟩ := ih hok
    refine ⟨n + 1, ?_, ?_⟩
    · rw [List.replicate_succ, ← hstalls]
      rfl
    · rw [List.length_cons, ← hcount, Nat.add_right_comm]
      rfl
  | fail h hunit hfault => cases hok
  | @start s k ks t e a b x d h hunit hx hnot hlater ih =>
    obtain ⟨n, hstalls, hcount⟩ := ih hok
    dsimp only
    refine ⟨n, ?_, ?_⟩
    · rw [List.filterMap_append, List.filterMap_append, Core.filterMap_stall?_sideEffects, hstalls]
      rfl
    · rw [List.filterMap_append, List.filterMap_append, Core.filterMap_started?_sideEffects,
        List.length_cons, ← hcount]
      rfl

end Snapshot

/-! ### The first station for a unit -/

namespace Stations

variable {p : Stations} {j l : Slot} {t u : Station} {ks : List Slot} {k : UnitKind}

/-- The first of some slots whose station is for a unit. -/
def first? (p : Stations) (ks : List Slot) (k : UnitKind) : Option Slot :=
  ks.find? fun l => (p.get? l).any fun t => t.unit == k

theorem first?_cons (ht : p.get? j = some t) :
    p.first? (j :: ks) k = if t.unit = k then some j else p.first? ks k := by
  rw [first?, List.find?_cons, ht, Option.any_some]
  by_cases hk : t.unit = k
  · rw [if_pos hk, beq_iff_eq.mpr hk]
  · rw [if_neg hk, beq_eq_false_iff_ne.mpr hk]
    rfl

/-- A station that starts does not change its unit. -/
theorem first?_markRunning (ht : p.get? j = some t) :
    (p.markRunning j t).first? ks k = p.first? ks k := by
  rw [first?, first?]
  congr 1
  funext l
  rw [get?_markRunning ht]
  split
  · next hl =>
    rw [hl, ht]
    rfl
  · rfl

theorem mem_of_first? (h : p.first? ks k = some l) : l ∈ ks := List.mem_of_find?_eq_some h

end Stations

/-! ### What has become of the units and the stations -/

namespace Core

variable {c : Core} {m : Memory} {d : Dispatched} {l : Slot} {t : Station} {e : Entry}
  {a b : Word} {x : Effect} {k : UnitKind}

/-- Dispatch has started station `t` in slot `l`, which belongs to entry `e`, with the operands `a`
and `b` and the effect `x`, and nothing else on its unit. -/
structure Starts (c : Core) (m : Memory) (d : Dispatched) (l : Slot) (t : Station) (e : Entry)
    (a b : Word) (x : Effect) : Prop where
  entry : c.window.get? t.tag = some e
  /-- The instruction is one for the unit. -/
  unit : e.instruction.unit = t.unit
  src1 : t.src1 = .ready a
  src2 : t.src2 = .ready b
  /-- What it does is what it does in the state at the beginning of dispatch. -/
  computed : e.instruction.compute a b m c.csrs = .ok x
  /-- It has started once, -/
  once : (d.events.filterMap Event.started?).filter (fun o => o.slot = l) =
    [{ result := x.result, tag := t.tag, slot := l, uuid := t.uuid, redirect := x.redirect }]
  /-- is marked as running, -/
  running : d.core.stations.get? l = some { t with running := true }
  /-- and its unit begins with what it has computed. -/
  occupied : d.core.units.get t.unit =
    { c.units.get t.unit with
      work := some
        { completion :=
            { result := x.result, tag := t.tag, slot := l, uuid := t.uuid, redirect := x.redirect }
          remaining := (c.units.get t.unit).latency } }
  /-- Memory is what a load or store has made of it. -/
  memory : t.unit = .memory → d.memory = x.memory
  /-- The control and status registers are what an access has made of them. -/
  csrs : t.unit = .system → d.core.csrs = x.csrs

/-- Dispatch has started nothing on a unit. -/
structure Idle (c : Core) (m : Memory) (d : Dispatched) (k : UnitKind) : Prop where
  unit : d.core.units.get k = c.units.get k
  memory : k = .memory → d.memory = m
  csrs : k = .system → d.core.csrs = c.csrs

end Core

namespace Snapshot

variable {s : Snapshot} {ks : List Slot} {d : Core.Dispatched}

/-- A station that is not the first one for its unit, or finds its unit busy, is left alone. -/
theorem Round.slot (h : s.Round ks d) (hok : d.fault = none) {l : Slot}
    (hl : ∀ t, s.core.stations.get? l = some t → (s.core.units.get t.unit).work = none →
      s.core.stations.first? ks t.unit ≠ some l) :
    d.core.stations.get? l = s.core.stations.get? l ∧
      ∀ o ∈ d.events.filterMap Event.started?, o.slot ≠ l := by
  induction h with
  | nil => exact ⟨rfl, List.forall_mem_nil _⟩
  | @stall s j ks u d hu hbusy hlater ih =>
    refine ih hok fun t ht hfree => ?_
    have hne : u.unit ≠ t.unit := fun heq => hbusy (heq ▸ hfree)
    have hfirst := hl t ht hfree
    rwa [Stations.first?_cons hu.get, if_neg hne] at hfirst
  | fail h hunit hfault => cases hok
  | @start s j ks u e a b x d h hunit hx hnot hlater ih =>
    have hu := h.eligible.get
    have hlj : l ≠ j := by
      rintro rfl
      exact hl u hu h.free (by rw [Stations.first?_cons hu, if_pos rfl])
    have hget : (s.core.starting j u x).stations.get? l = s.core.stations.get? l := by
      rw [Core.Consistent.get?_starting hu, if_neg hlj]
    obtain ⟨hsame, hstarted⟩ := ih hok fun t ht hfree => by
      rw [hget] at ht
      dsimp only [Core.starting] at hfree ⊢
      rw [Units.get_set] at hfree
      split at hfree
      · cases hfree
      · next hne =>
        have hfirst := hl t ht hfree
        rwa [Stations.first?_cons hu, if_neg hne, ← Stations.first?_markRunning hu] at hfirst
    refine ⟨hsame.trans hget, ?_⟩
    dsimp only
    rw [List.filterMap_append, List.filterMap_append, Core.filterMap_started?_sideEffects]
    exact List.forall_mem_cons.mpr ⟨Ne.symm hlj, hstarted⟩

/-- Another unit that has started before makes no difference. -/
theorem starts_of_starting {j l : Slot} {t u : Station} {e f : Entry} {a b a' b' : Word}
    {x y : Effect} (hunit : f.instruction.unit = u.unit)
    (hx : f.instruction.compute a' b' s.memory s.core.csrs = .ok x) (hne : u.unit ≠ t.unit)
    (hlj : l ≠ j) (hlater : (s.core.starting j u x).Starts x.memory d l t e a b y) :
    ∃ z, s.core.Starts s.memory
      { d with
        events := s.core.sideEffects s.memory f.instruction a' b' ++
          [.dispatch f.instruction (Core.completion j u x)] ++ d.events } l t e a b z := by
  obtain ⟨hmemory, hcsrs⟩ := Instruction.compute_frame hx
  have helse : ∀ v, e.instruction.unit = v → f.instruction.unit ≠ v := fun v hv hv' =>
    hne (hunit.symm.trans (hv'.trans (hv.symm.trans hlater.unit)))
  obtain ⟨z, hz, hresult, hredirect, hzmemory, hzcsrs⟩ := Instruction.compute_elsewhere
    hlater.computed (fun hv => (hmemory (helse .memory hv)).symm)
    fun hv => (hcsrs (helse .system hv)).symm
  have hoccupied := hlater.occupied
  dsimp only [Core.starting] at hoccupied
  rw [Units.get_set, if_neg hne] at hoccupied
  refine ⟨z, ?_⟩
  exact
    { entry := hlater.entry
      unit := hlater.unit
      src1 := hlater.src1
      src2 := hlater.src2
      computed := hz
      once := by
        have hother : ¬decide ((Core.completion j u x).slot = l) = true := by
          rw [decide_eq_true_eq]
          exact Ne.symm hlj
        rw [List.filterMap_append, List.filterMap_append, Core.filterMap_started?_sideEffects,
          hresult, hredirect, ← hlater.once]
        exact List.filter_cons_of_neg hother
      running := hlater.running
      occupied := by rw [hoccupied, hresult, hredirect]
      memory := fun hv => (hlater.memory hv).trans (hzmemory (hlater.unit.trans hv)).symm
      csrs := fun hv => (hlater.csrs hv).trans (hzcsrs (hlater.unit.trans hv)).symm }

/-- A free unit takes the first station of the list that is for it, and a busy one takes none. -/
theorem Round.unit (h : s.Round ks d) (hok : d.fault = none) (k : UnitKind) :
    (∀ l, (s.core.units.get k).work = none → s.core.stations.first? ks k = some l →
      ∃ t e a b x, t.unit = k ∧ s.core.stations.Eligible l t ∧
        s.core.Starts s.memory d l t e a b x) ∧
      ((s.core.units.get k).work ≠ none ∨ s.core.stations.first? ks k = none →
        s.core.Idle s.memory d k) := by
  induction h with
  | nil => exact ⟨fun _ _ hl => (by cases hl), fun _ => ⟨rfl, fun _ => rfl, fun _ => rfl⟩⟩
  | @stall s j ks u d hu hbusy hlater ih =>
    obtain ⟨hstarts, hidle⟩ := ih hok
    rw [Stations.first?_cons hu.get]
    refine ⟨fun l hfree hl => ?_, fun hnone => ?_⟩
    · have hne : u.unit ≠ k := fun heq => hbusy (heq ▸ hfree)
      rw [if_neg hne] at hl
      obtain ⟨t, e, a, b, x, hunit, ht, hstart⟩ := hstarts l hfree hl
      exact ⟨t, e, a, b, x, hunit, ht,
        { hstart with once := hstart.once }⟩
    · have hidle' : s.core.Idle s.memory d k := by
        refine hidle (hnone.imp_right fun hnone => ?_)
        split at hnone
        · cases hnone
        · exact hnone
      exact { hidle' with }
  | fail h hunit hfault => cases hok
  | @start s j ks u e a b x d h hunit hx hnot hlater ih =>
    obtain ⟨hstarts, hidle⟩ := ih hok
    have hu := h.eligible.get
    have hget : (s.core.starting j u x).units.get k =
        if u.unit = k then (s.core.units.get u.unit).begin (Core.completion j u x)
        else s.core.units.get k := Units.get_set _ _ _ _
    obtain ⟨hmemory, hcsrs⟩ := Instruction.compute_frame hx
    rw [Stations.first?_cons hu]
    by_cases hk : u.unit = k
    · -- it is the first one, and the unit is busy for all that follow
      subst hk
      rw [if_pos rfl] at hget
      have hlast : Core.Idle (s.core.starting j u x) x.memory d u.unit :=
        hidle (.inl (by rw [hget]; exact Option.some_ne_none _))
      refine ⟨fun l _ hl => ?_, fun hnone => ?_⟩
      · rw [if_pos rfl] at hl
        obtain rfl := Option.some.inj hl
        obtain ⟨hslot, hstarted⟩ := hlater.slot hok (l := j) fun t _ _ hfirst =>
          hnot (Stations.mem_of_first? hfirst)
        refine ⟨u, e, a, b, x, rfl, h.eligible, ?_⟩
        exact
          { entry := h.entry
            unit := hunit
            src1 := h.src1
            src2 := h.src2
            computed := hx
            once := by
              rw [List.filterMap_append, List.filterMap_append,
                Core.filterMap_started?_sideEffects]
              have hothers : (d.events.filterMap Event.started?).filter (fun o => o.slot = j) = [] :=
                List.filter_eq_nil_iff.mpr fun o ho => by
                  rw [decide_eq_true_eq]
                  exact hstarted o ho
              have hself : decide ((Core.completion j u x).slot = j) = true := decide_eq_true rfl
              rw [List.nil_append, List.filter_append, hothers, List.append_nil]
              exact List.filter_cons_of_pos (p := fun o : Completion => o.slot = j) hself
            running := by
              rw [hslot, Core.Consistent.get?_starting hu, if_pos rfl]
            occupied := hlast.unit.trans hget
            memory := hlast.memory
            csrs := hlast.csrs }
      · rw [if_pos rfl] at hnone
        exact absurd h.free (hnone.resolve_right (Option.some_ne_none _))
    · -- the other units go on as if it had not started
      rw [if_neg hk] at hget
      rw [if_neg hk, ← Stations.first?_markRunning hu]
      refine ⟨fun l hfree hl => ?_, fun hnone => ?_⟩
      · obtain ⟨t, f, a', b', y, rfl, ht, hstart⟩ := hstarts l (by rw [hget]; exact hfree) hl
        have hlj : l ≠ j := by
          rintro rfl
          exact hnot (Stations.mem_of_first? hl)
        obtain ⟨z, hz⟩ := starts_of_starting hunit hx hk hlj hstart
        exact ⟨t, f, a', b', z, rfl, (ht.of_markRunning hu).2, hz⟩
      · have hlast := hidle (by rw [hget]; exact hnone)
        have helse : ∀ v, k = v → e.instruction.unit ≠ v := fun v hv hv' =>
          hk (hunit.symm.trans (hv'.trans hv.symm))
        exact ⟨hlast.unit.trans hget, fun hv => (hlast.memory hv).trans (hmemory (helse _ hv)),
          fun hv => (hlast.csrs hv).trans (hcsrs (helse _ hv))⟩

end Snapshot

/-! ### The oldest station for a unit -/

/-- Station `t` in slot `l` may start on its free unit, and all others that may start on it are
younger. -/
structure Core.Chosen (c : Core) (l : Slot) (t : Station) : Prop where
  eligible : c.stations.Eligible l t
  free : (c.units.get t.unit).work = none
  oldest : ∀ j u, c.stations.Eligible j u → u.unit = t.unit → j ≠ l → t.uuid < u.uuid

namespace Snapshot.OnTrack

variable {s : Snapshot} {start : Sequential} {is : List Instruction} {n : Nat} {k : UnitKind}
  {l : Slot} {t : Station}

/-- **The first one for a unit is the oldest one**, since those that may start are listed by age. -/
theorem first?_iff (hs : s.OnTrack start is n) (hnum : Numbered is) :
    s.core.stations.first? s.core.stations.dispatchable k = some l ↔
      ∃ t, s.core.stations.Eligible l t ∧ t.unit = k ∧
        ∀ j u, s.core.stations.Eligible j u → u.unit = k → j ≠ l → t.uuid < u.uuid := by
  have hfirst : ∀ {l}, s.core.stations.first? s.core.stations.dispatchable k = some l →
      ∃ t, s.core.stations.Eligible l t ∧ t.unit = k ∧
        ∀ j u, s.core.stations.Eligible j u → u.unit = k → j ≠ l → t.uuid < u.uuid := by
    intro l hl
    obtain ⟨hunit, js, ls, hlist, hjs⟩ := List.find?_eq_some_iff_append.mp hl
    have hmem : ∀ {j}, j ∈ s.core.stations.dispatchable ↔ ∃ u, s.core.stations.Eligible j u :=
      Stations.mem_dispatchable
    have hsorted := s.core.stations.pairwise_dispatchable
    rw [hlist] at hmem hsorted
    obtain ⟨t, ht⟩ := hmem.mp (List.mem_append_right js List.mem_cons_self)
    rw [ht.get, Option.any_some, beq_iff_eq] at hunit
    refine ⟨t, ht, hunit, fun j u hu huunit hne => ?_⟩
    rcases List.mem_append.mp (hmem.mpr ⟨u, hu⟩) with hj | hj
    · -- before it there is nobody for the unit
      have hother := hjs j hj
      rw [hu.get, Option.any_some, beq_iff_eq.mpr huunit] at hother
      cases hother
    · have hle : t.uuid ≤ u.uuid :=
        (List.pairwise_cons.mp (List.pairwise_append.mp hsorted).2.1).1 j
          ((List.mem_cons.mp hj).resolve_left hne) t u ht.get hu.get
      exact Nat.lt_of_le_of_ne hle fun heq =>
        hne (hs.slot_eq_of_uuid hnum hu.get ht.get heq.symm)
  refine ⟨hfirst, fun ⟨t, ht, hunit, holdest⟩ => ?_⟩
  cases hl : s.core.stations.first? s.core.stations.dispatchable k with
  | none =>
    have hother := List.find?_eq_none.mp hl l (Stations.mem_dispatchable.mpr ⟨t, ht⟩)
    rw [ht.get, Option.any_some, beq_iff_eq] at hother
    exact absurd hunit hother
  | some j =>
    obtain ⟨u, hu, huunit, hyounger⟩ := hfirst hl
    by_contra hne
    have hjl : j ≠ l := fun heq => hne (congrArg some heq)
    exact Nat.lt_asymm (holdest j u hu huunit hjl) (hyounger l t ht hunit (Ne.symm hjl))

/-- On an ordered unit one station may start at most, and it is older than all others. -/
theorem uuid_lt_of_ordered (hs : s.OnTrack start is n) (hnum : Numbered is)
    (ht : s.core.stations.Eligible l t) (hord : t.unit.isOrdered = true) {j : Slot} {u : Station}
    (hu : s.core.stations.get? j = some u) (hunit : u.unit = t.unit) (hne : j ≠ l) :
    t.uuid < u.uuid ∧ ¬s.core.stations.Eligible j u := by
  refine ⟨?_, fun helig => hne (hs.eligible_inj hnum helig ht hunit.symm (hunit ▸ hord))⟩
  exact Nat.lt_of_le_of_ne (ht.uuid_le hu hunit hord) fun heq =>
    hne (hs.slot_eq_of_uuid hnum hu ht.get heq.symm)

end Snapshot.OnTrack

/-! ### Dispatch in a history -/

namespace System.Reachable

variable {st : CoreSettings} {n : Nat} {m : Memory} {s : System}

/-- **Dispatch serves the oldest of each unit.** Take a dispatch that does not fail, and list the
slots that may start when it begins; each is listed once. Every unit that is free starts on the
oldest station of the list that is for it, if there is one, and computes it once; every other unit
does nothing. All other stations are left alone and do not start. Everybody on the list who does not
start is reported as stalled. Nothing of the core changes but units, stations and control and status
registers. And of the loads and stores one may start at most, as of the accesses to control and
status registers; it is older than all others in the pool, and its unit is free. -/
theorem dispatch_serves_oldest (h : Reachable st n m s)
    (hnum : s.accepted.Pairwise fun i j => i.uuid < j.uuid)
    (hok : (s.snapshot.published.core.dispatch s.memory).fault = none) :
    let c := s.snapshot.published.core
    let d := c.dispatch s.memory
    let listed := c.stations.dispatchable
    let started := d.events.filterMap Event.started?
    (listed.Nodup ∧ ∀ l, l ∈ listed ↔ ∃ t, c.stations.Eligible l t) ∧
      (∀ k,
        (∃ l t e a b x, t.unit = k ∧ c.Chosen l t ∧ c.Starts s.memory d l t e a b x) ∨
          ((c.units.get k).work ≠ none ∨ ∀ l t, c.stations.Eligible l t → t.unit ≠ k) ∧
            c.Idle s.memory d k) ∧
      (∀ l, (∀ t, ¬c.Chosen l t) →
        d.core.stations.get? l = c.stations.get? l ∧ ∀ o ∈ started, o.slot ≠ l) ∧
      (d.events.filterMap Event.stall? =
          List.replicate (listed.length - started.length) .unitBusy ∧
        started.length ≤ listed.length) ∧
      (∃ csrs units stations, d.core = { c with csrs, units, stations }) ∧
      ∀ l t, c.stations.Eligible l t → t.unit.isOrdered = true →
        (c.units.get t.unit).work = none ∧
          ∀ j u, c.stations.get? j = some u → u.unit = t.unit → j ≠ l →
            t.uuid < u.uuid ∧ ¬c.stations.Eligible j u := by
  intro c d listed started
  have htrack : s.snapshot.published.OnTrack { memory := m } s.accepted s.accepted.length :=
    (h.onTrack (List.prefix_refl _) hnum).published hnum
  have hround : s.snapshot.published.Round listed d :=
    Snapshot.round_dispatch htrack.sound.consistent
  refine ⟨⟨c.stations.nodup_dispatchable, fun l => Stations.mem_dispatchable⟩, fun k => ?_,
    fun l hl => ?_, ?_, c.dispatchEach_eq s.memory listed, fun l t ht hord =>
      ⟨htrack.free_of_eligible hnum ht hord, fun j u hu hunit hne =>
        htrack.uuid_lt_of_ordered hnum ht hord hu hunit hne⟩⟩
  · obtain ⟨hstarts, hidle⟩ := hround.unit hok k
    by_cases hfree : (c.units.get k).work = none
    · cases hfirst : c.stations.first? listed k with
      | none =>
        refine .inr ⟨.inr fun l t ht hunit => ?_, hidle (.inr hfirst)⟩
        have hother := List.find?_eq_none.mp hfirst l (Stations.mem_dispatchable.mpr ⟨t, ht⟩)
        rw [ht.get, Option.any_some, beq_iff_eq] at hother
        exact hother hunit
      | some l =>
        obtain ⟨t, e, a, b, x, hunit, ht, hstart⟩ := hstarts l hfree hfirst
        obtain ⟨t', ht', -, holdest⟩ := (htrack.first?_iff hnum).mp hfirst
        obtain rfl := Option.some.inj (ht.get.symm.trans ht'.get)
        subst hunit
        exact .inl ⟨l, t, e, a, b, x, rfl, ⟨ht, hfree, holdest⟩, hstart⟩
    · exact .inr ⟨.inl hfree, hidle (.inl hfree)⟩
  · refine hround.slot hok fun t ht hfree hfirst => ?_
    obtain ⟨t', ht', -, holdest⟩ := (htrack.first?_iff hnum).mp hfirst
    obtain rfl := Option.some.inj (ht.symm.trans ht'.get)
    exact hl t ⟨ht', hfree, holdest⟩
  · obtain ⟨k, hstalls, hcount⟩ := hround.stalls hok
    have hk : k = listed.length - started.length := Nat.eq_sub_of_add_eq hcount
    exact ⟨hk ▸ hstalls, hcount ▸ Nat.le_add_left _ _⟩

/-- Two sums wait for the same load: when it has arrived both may start, the older one does, and the
other is stalled. -/
theorem dispatch_serves_oldest_waiting :
    let s := ((((System.new {} 4 (.empty 0 16)).offer 0x00002083 0 0).offer
      0x00108113 4 1).offer 0x00208193 8 2).tick.tick.tick
    let c := s.snapshot.published.core
    let d := c.dispatch s.memory
    c.stations.dispatchable = [1, 2] ∧
      (∃ l t, t.unit = .alu ∧ c.Chosen l t ∧
        d.core.stations.get? l = some { t with running := true }) ∧
      d.events.filterMap Event.stall? = [.unitBusy] := by
  intro s c d
  have h : Reachable {} 4 (.empty 0 16) s :=
    (((Reachable.new.offer 0x00002083 0 0).offer 0x00108113 4 1).offer
      0x00208193 8 2).tick.tick.tick
  obtain ⟨⟨-, hlisted⟩, hunits, -, ⟨hstalls, -⟩, -, -⟩ :=
    dispatch_serves_oldest h (by decide) (by decide)
  have hboth : c.stations.dispatchable = [1, 2] := by decide
  have hone : (d.events.filterMap Event.started?).length = 1 := by decide
  refine ⟨hboth, ?_, ?_⟩
  · rcases hunits .alu with ⟨l, t, _, _, _, _, hunit, hchosen, hstart⟩ | ⟨hbusy | hnobody, -⟩
    · exact ⟨l, t, hunit, hchosen, hstart.running⟩
    · exact absurd (show (c.units.get .alu).work = none by decide) hbusy
    · obtain ⟨t, ht⟩ := (hlisted 1).mp (by decide)
      have hunit : (c.stations.get? 1).map Station.unit = some .alu := by decide
      rw [ht.get] at hunit
      exact absurd (Option.some.inj hunit) (hnobody 1 t ht)
  · rw [hboth, hone] at hstalls
    exact hstalls

end System.Reachable

end OutOfOrder
