import OutOfOrder.Proofs.Pool
import Mathlib.Data.List.Count
import Mathlib.Data.Set.Card

/-!
# The laws of the pool of stations

The stations are looked at through any history of operations, with any tags, serial numbers and
slots, in use or not. What each operation answers and changes is said slot by slot; in between the
list of the stations that may start is always in the order of their age.

Whether one station may start depends on all others of its unit, so every operation on one slot can
concern the others. If no two stations have the same serial number it comes down to one comparison:
of the stations of an ordered unit the oldest is the only one that is not locked, whether it runs or
not.

## Main definitions

* `Stations.Operation`, `performAll` — a history of operations
* `Stations.Delivers` — what a broadcast changes, and how many operands it reaches
* `Stations.IsPool` — the laws

## Main results

* `Stations.ncard_waiting` — how many operands wait for a tag
* `Stations.running_performAll` — a station that has started stays until it is released
* `Stations.Eligible.slot_eq`, `isLocked_eq_false_iff` — who may start on an ordered unit
* `Stations.obeys_pool_laws` — every pool obeys the laws, after any history
-/

namespace OutOfOrder

/-- Both stations are those of one instruction. -/
structure Station.Same (s t : Station) : Prop where
  tag : t.tag = s.tag
  uuid : t.uuid = s.uuid
  unit : t.unit = s.unit

namespace Stations

variable {p q : Stations} {k l : Slot} {s t : Station} {tag : Tag} {value : Word}

/-! ### Histories -/

/-- What can be done to a pool of stations. -/
inductive Operation where
  | allocate (s : Station)
  | start (slot : Slot)
  | broadcast (tag : Tag) (value : Word)
  | release (slot : Slot)

/-- The pool after an operation. A new station has not started. What is refused changes nothing. -/
def perform (p : Stations) : Operation → Stations
  | .allocate s => ((p.allocate? { s with running := false }).map Prod.snd).getD p
  | .start slot => (p.start? slot).getD p
  | .broadcast tag value => p.broadcast tag value
  | .release slot => p.release slot

/-- The pool after some operations. -/
def performAll (p : Stations) (ops : List Operation) : Stations := ops.foldl perform p

/-! ### Starting -/

theorem start?_eq_some_iff :
    p.start? k = some q ↔ ∃ s, p.get? k = some s ∧ s.running = false ∧ q = p.markRunning k s := by
  rw [start?]
  split
  · next hfree => simp [hfree]
  · next s hs =>
    simp only [hs, Option.some.injEq, exists_eq_left']
    cases hrun : s.running with
    | false => simp [eq_comm]
    | true => simp

theorem start?_eq_none_iff :
    p.start? k = none ↔ ∀ s, p.get? k = some s → s.running = true := by
  rw [start?]
  split
  · next hfree => simp [hfree]
  · next s hs =>
    cases hrun : s.running with
    | false => simp [hs, hrun]
    | true => simp [hs, hrun]

/-! ### Broadcasts -/

/-- The operands that wait for a tag, by slot. -/
def waiting (p : Stations) (tag : Tag) : Set (Slot × Source) :=
  { w | ∃ s, p.get? w.1 = some s ∧ s.operand w.2 = .pending tag }

/-- The operands of a station that wait for a tag. -/
def waitingIn (tag : Tag) (s : Slot × Station) : List (Slot × Source) :=
  ([.first, .second].filter fun x => s.2.operand x = .pending tag).map fun x => (s.1, x)

theorem length_waitingIn (tag : Tag) (s : Slot × Station) :
    (waitingIn tag s).length = s.2.operands.count (.pending tag) := by
  have hoperands : s.2.operands = [Source.first, Source.second].map s.2.operand := rfl
  rw [waitingIn, List.length_map, hoperands, List.count, List.countP_map,
    List.countP_eq_length_filter]
  rfl

theorem mem_waitingIn_iff {w : Slot × Source} {s : Slot × Station} :
    w ∈ waitingIn tag s ↔ w.1 = s.1 ∧ s.2.operand w.2 = .pending tag := by
  obtain ⟨k, x⟩ := w
  cases x <;> simp [waitingIn, and_comm, eq_comm]

/-- **As many operands are counted as wait.** -/
theorem ncard_waiting (p : Stations) (tag : Tag) : (p.waiting tag).ncard = p.waiters tag := by
  have hnodup : (p.toList.flatMap (waitingIn tag)).Nodup := by
    refine List.nodup_flatMap.mpr ⟨fun s _ => ?_, ?_⟩
    · have hsources : [Source.first, Source.second].Nodup := by decide
      exact (hsources.filter _).map fun x y hxy => (Prod.mk.inj hxy).2
    · refine (List.pairwise_map.mp p.nodup_slots).imp fun hne w hw hw' => hne ?_
      exact (mem_waitingIn_iff.mp hw).1.symm.trans (mem_waitingIn_iff.mp hw').1
  have hmem : p.waiting tag = { w | w ∈ p.toList.flatMap (waitingIn tag) } := by
    refine Set.ext fun w => ?_
    change (∃ s, p.get? w.1 = some s ∧ s.operand w.2 = .pending tag) ↔ w ∈ p.toList.flatMap _
    simp only [List.mem_flatMap, Prod.exists, mem_toList_iff, mem_waitingIn_iff]
    constructor
    · rintro ⟨s, hs, hx⟩
      exact ⟨w.1, s, hs, rfl, hx⟩
    · rintro ⟨k, s, hs, rfl, hx⟩
      exact ⟨s, hs, hx⟩
  have hlength : (p.toList.flatMap (waitingIn tag)).length = p.waiters tag := by
    rw [waiters, List.length_flatMap, List.count_flatMap]
    exact congrArg List.sum (List.map_congr_left fun s _ => length_waitingIn tag s)
  rw [hmem, ← List.coe_toFinset, Set.ncard_coe_finset, List.toFinset_card_of_nodup hnodup, hlength]

/-- The pool `q` is `p` after a broadcast that has reached `woken` operands. -/
structure Delivers (p q : Stations) (tag : Tag) (value : Word) (woken : Nat) : Prop where
  capacity : q.capacity = p.capacity
  woken : woken = (p.waiting tag).ncard
  /-- Operands that wait for the tag have the value now, and nothing else changes. -/
  get? : ∀ k s, p.get? k = some s → ∃ t, q.get? k = some t ∧ s.Same t ∧ t.running = s.running ∧
    ∀ x, t.operand x = if s.operand x = .pending tag then .ready value else s.operand x
  get?_none : ∀ k, p.get? k = none → q.get? k = none
  /-- Nobody waits for the tag any more. -/
  waiting : q.waiting tag = ∅

theorem delivers_broadcast (p : Stations) (tag : Tag) (value : Word) :
    p.Delivers (p.broadcast tag value) tag value (p.waiters tag) where
  capacity := List.length_map _
  woken := (p.ncard_waiting tag).symm
  get? k s hs := by
    refine ⟨s.wake tag value, by rw [get?_broadcast, hs]; rfl, ⟨rfl, rfl, rfl⟩, rfl, fun x => ?_⟩
    rw [Station.operand_wake, Operand.wake]
  get?_none k hk := by rw [get?_broadcast, hk]; rfl
  waiting := by
    refine Set.eq_empty_iff_forall_notMem.mpr fun w hw => ?_
    obtain ⟨t, ht, hx⟩ := hw
    rw [get?_broadcast] at ht
    obtain ⟨s, -, rfl⟩ := Option.map_eq_some_iff.mp ht
    rw [Station.operand_wake] at hx
    exact (Operand.wake_eq_pending_iff.mp hx).2 rfl

/-! ### Running -/

/-- A station that has started stays as it is in all operations but one. -/
theorem running_perform {op : Operation} (h : p.get? k = some s) (hrun : s.running = true)
    (hop : op ≠ .release k) :
    ∃ t, (p.perform op).get? k = some t ∧ s.Same t ∧ t.running = true := by
  have hsame : ∃ t, p.get? k = some t ∧ s.Same t ∧ t.running = true := ⟨s, h, ⟨rfl, rfl, rfl⟩, hrun⟩
  cases op with
  | allocate u =>
    rw [perform]
    cases halloc : p.allocate? { u with running := false } with
    | none => exact hsame
    | some x =>
      obtain ⟨l, q⟩ := x
      obtain ⟨hfree, hget⟩ := get?_allocate halloc
      have hne : k ≠ l := by
        rintro rfl
        rw [hfree] at h
        cases h
      have hk : q.get? k = p.get? k := by rw [hget, if_neg hne]
      simpa [hk] using hsame
  | start l =>
    rw [perform]
    cases hstart : p.start? l with
    | none => exact hsame
    | some q =>
      obtain ⟨u, hu, hwaiting, rfl⟩ := start?_eq_some_iff.mp hstart
      have hne : k ≠ l := by
        rintro rfl
        rw [Option.some.inj (h.symm.trans hu), hwaiting] at hrun
        cases hrun
      rw [Option.getD_some, get?_markRunning hu, if_neg hne]
      exact hsame
  | broadcast tag value =>
    refine ⟨s.wake tag value, ?_, ⟨rfl, rfl, rfl⟩, hrun⟩
    rw [perform, get?_broadcast, h]
    rfl
  | release l =>
    have hne : k ≠ l := by
      rintro rfl
      exact hop rfl
    rw [perform, get?_release, if_neg hne]
    exact hsame

/-- **A station that has started stays until it is released.** -/
theorem running_performAll (h : p.get? k = some s) (hrun : s.running = true)
    (ops : List Operation) (hops : Operation.release k ∉ ops) :
    ∃ t, (p.performAll ops).get? k = some t ∧ s.Same t ∧ t.running = true := by
  induction ops generalizing p s with
  | nil => exact ⟨s, h, ⟨rfl, rfl, rfl⟩, hrun⟩
  | cons op ops ih =>
    rw [List.mem_cons, not_or] at hops
    obtain ⟨t, ht, hst, htrun⟩ := running_perform h hrun (Ne.symm hops.1)
    obtain ⟨u, hu, htu, hurun⟩ := ih ht htrun hops.2
    exact ⟨u, hu, ⟨htu.tag.trans hst.tag, htu.uuid.trans hst.uuid, htu.unit.trans hst.unit⟩, hurun⟩

/-! ### Locks -/

/-- No two stations have the same serial number. -/
def Distinct (p : Stations) : Prop :=
  ∀ k l s t, p.get? k = some s → p.get? l = some t → s.uuid = t.uuid → k = l

theorem distinct_of_nodup (h : (p.toList.map fun s => s.2.uuid).Nodup) : p.Distinct := by
  intro k l s t hs ht heq
  have hsame := List.inj_on_of_nodup_map h (mem_toList_iff.mpr hs) (mem_toList_iff.mpr ht) heq
  exact (Prod.mk.inj hsame).1

/-- If serial numbers are distinct, the stations of an ordered unit are locked, but for the one that
is older than all others. -/
theorem isLocked_eq_false_iff (hp : p.Distinct) (hs : p.get? k = some s)
    (hord : s.unit.isOrdered = true) : p.isLocked k = false ↔
      ∀ l t, l ≠ k → p.get? l = some t → t.unit = s.unit → s.uuid < t.uuid := by
  rw [← Bool.not_eq_true, isLocked_iff hs]
  constructor
  · intro h l t hne ht hunit
    have hle : s.uuid ≤ t.uuid := Nat.le_of_not_lt fun hlt => h ⟨hord, l, t, ht, hunit, hlt⟩
    exact Nat.lt_of_le_of_ne hle fun heq => hne (hp l k t s ht hs heq.symm)
  · rintro h ⟨-, l, t, ht, hunit, hlt⟩
    have hne : l ≠ k := by
      rintro rfl
      rw [Option.some.inj (hs.symm.trans ht)] at hlt
      exact Nat.lt_irrefl _ hlt
    exact Nat.lt_asymm hlt (h l t hne ht hunit)

/-- If serial numbers are distinct, one station of an ordered unit may start, or none. -/
theorem Eligible.slot_eq (hs : p.Eligible k s) (ht : p.Eligible l t) (hp : p.Distinct)
    (hunit : t.unit = s.unit) (hord : s.unit.isOrdered = true) : k = l := by
  refine hp k l s t hs.get ht.get (Nat.le_antisymm ?_ ?_)
  · exact hs.uuid_le ht.get hunit hord
  · exact ht.uuid_le hs.get hunit.symm (hunit ▸ hord)

/-! ### The laws -/

/-- The laws of a pool. -/
structure IsPool (p : Stations) : Prop where
  /-- The list of those who may start has the slots in use that have not started, have both
  operands and are not locked, -/
  mem_dispatchable : ∀ k, k ∈ p.dispatchable ↔ ∃ s, p.get? k = some s ∧ s.running = false ∧
    (∀ x, ∃ v, s.operand x = .ready v) ∧ p.isLocked k = false
  /-- each once, -/
  nodup_dispatchable : p.dispatchable.Nodup
  /-- by age, and by slot where the age is the same. -/
  pairwise_dispatchable : p.dispatchable.Pairwise fun k l => ∀ s t,
    p.get? k = some s → p.get? l = some t → s.uuid < t.uuid ∨ s.uuid = t.uuid ∧ k < l
  /-- Program order locks a station of an ordered unit behind an older one, -/
  isLocked_iff : ∀ k s, p.get? k = some s → (p.isLocked k = true ↔
    s.unit.isOrdered = true ∧ ∃ l t, p.get? l = some t ∧ t.unit = s.unit ∧ t.uuid < s.uuid)
  /-- and never one of another unit. -/
  isLocked_of_unit : ∀ k s, p.get? k = some s → s.unit = .alu ∨ s.unit = .branch →
    p.isLocked k = false
  /-- A new station gets the lowest free slot, and there is no room only if there is none. -/
  allocate? : ∀ s,
    match p.allocate? s with
    | none => ∀ k, k < p.capacity → ∃ t, p.get? k = some t
    | some (l, q) => l < p.capacity ∧ p.get? l = none ∧ (∀ k, k < l → ∃ t, p.get? k = some t) ∧
        q.capacity = p.capacity ∧ ∀ k, q.get? k = if k = l then some s else p.get? k
  /-- Starting a station changes this station, and is refused if there is none or it runs. -/
  start? : ∀ l,
    match p.start? l with
    | none => ∀ s, p.get? l = some s → s.running = true
    | some q => ∃ s, p.get? l = some s ∧ s.running = false ∧ q.capacity = p.capacity ∧
        ∀ k, q.get? k = if k = l then some { s with running := true } else p.get? k
  /-- A broadcast reaches the operands that wait for it. -/
  broadcast : ∀ tag value, p.Delivers (p.broadcast tag value) tag value (p.waiters tag)
  /-- A release frees one slot. -/
  release : ∀ l, (p.release l).capacity = p.capacity ∧
    ∀ k, (p.release l).get? k = if k = l then none else p.get? k
  /-- What runs stays, and runs, until it is released. -/
  running : ∀ k s ops, p.get? k = some s → s.running = true → Operation.release k ∉ ops →
    ∃ t, (p.performAll ops).get? k = some t ∧ s.Same t ∧ t.running = true
  /-- If serial numbers are distinct, a load, store or access to a register is not locked exactly if
  it is the oldest of its unit in the pool, -/
  isLocked_eq_false_iff : p.Distinct → ∀ k s, p.get? k = some s →
    s.unit = .memory ∨ s.unit = .system → (p.isLocked k = false ↔
      ∀ l t, l ≠ k → p.get? l = some t → t.unit = s.unit → s.uuid < t.uuid)
  /-- and at most one of either unit may start. -/
  eq_of_mem_dispatchable : p.Distinct → ∀ k l s t, k ∈ p.dispatchable → l ∈ p.dispatchable →
    p.get? k = some s → p.get? l = some t → s.unit = .memory ∨ s.unit = .system →
    t.unit = s.unit → k = l

theorem isOrdered_of_unit {u : UnitKind} (h : u = .memory ∨ u = .system) : u.isOrdered = true := by
  rcases h with rfl | rfl <;> rfl

/-- **Every pool obeys the laws.** -/
theorem isPool (p : Stations) : p.IsPool where
  mem_dispatchable k := by
    rw [Stations.mem_dispatchable]
    refine exists_congr fun s => ⟨fun h => ⟨h.get, h.waiting, h.operands, h.unlocked⟩, ?_⟩
    rintro ⟨hget, hwaiting, hoperands, hunlocked⟩
    exact ⟨hget, hwaiting, hoperands, hunlocked⟩
  nodup_dispatchable := p.nodup_dispatchable
  pairwise_dispatchable := p.pairwise_slots_dispatchable
  isLocked_iff _ _ := Stations.isLocked_iff
  isLocked_of_unit k s hs hunit := by
    rw [← Bool.not_eq_true, Stations.isLocked_iff hs]
    rintro ⟨hord, -⟩
    rcases hunit with hunit | hunit <;> simp [hunit, UnitKind.isOrdered] at hord
  allocate? s := by
    split
    · next hnone => exact isFull_iff.mp (allocate?_eq_none_iff.mp hnone)
    · next l q hsome =>
      obtain ⟨hfree, hget⟩ := get?_allocate hsome
      have hroom : l < p.capacity := by
        rw [← capacity_allocate hsome]
        exact lt_of_get? (by rw [hget, if_pos rfl])
      exact ⟨hroom, hfree, fun k hk => get?_of_lt_allocate hsome hk, capacity_allocate hsome, hget⟩
  start? l := by
    split
    · next hnone => exact start?_eq_none_iff.mp hnone
    · next q hsome =>
      obtain ⟨s, hs, hwaiting, rfl⟩ := start?_eq_some_iff.mp hsome
      exact ⟨s, hs, hwaiting, List.length_set, fun k => get?_markRunning hs⟩
  broadcast := p.delivers_broadcast
  release l := ⟨List.length_set, fun k => get?_release l⟩
  running _ _ ops h hrun hops := running_performAll h hrun ops hops
  isLocked_eq_false_iff hp _ _ hs hunit :=
    Stations.isLocked_eq_false_iff hp hs (isOrdered_of_unit hunit)
  eq_of_mem_dispatchable hp k l s t hk hl hs ht hunit hsame := by
    obtain ⟨s', hks⟩ := Stations.mem_dispatchable.mp hk
    obtain ⟨t', hlt⟩ := Stations.mem_dispatchable.mp hl
    obtain rfl := Option.some.inj (hs.symm.trans hks.get)
    obtain rfl := Option.some.inj (ht.symm.trans hlt.get)
    exact hks.slot_eq hlt hp hsame (isOrdered_of_unit hunit)

theorem capacity_perform (p : Stations) (op : Operation) :
    (p.perform op).capacity = p.capacity := by
  cases op with
  | allocate s =>
    rw [perform]
    cases halloc : p.allocate? { s with running := false } with
    | none => rfl
    | some x => exact capacity_allocate halloc
  | start l =>
    rw [perform]
    cases hstart : p.start? l with
    | none => rfl
    | some q =>
      obtain ⟨s, -, -, rfl⟩ := start?_eq_some_iff.mp hstart
      exact List.length_set
  | broadcast tag value => exact List.length_map _
  | release l => exact List.length_set

theorem capacity_performAll (p : Stations) (ops : List Operation) :
    (p.performAll ops).capacity = p.capacity := by
  induction ops generalizing p with
  | nil => rfl
  | cons op ops ih => exact (ih _).trans (p.capacity_perform op)

/-- **The laws of the pool.** For every capacity, zero included, and after every history of
operations with any slots, tags and serial numbers. -/
theorem obeys_pool_laws (capacity : Nat) (ops : List Operation) :
    ((empty capacity).performAll ops).capacity = capacity ∧
      ((empty capacity).performAll ops).IsPool :=
  ⟨((empty capacity).capacity_performAll ops).trans List.length_replicate, isPool _⟩

/-- A load waits for its address, and a younger one that has its address waits for the first. When
the address comes the older load may start, and the addition that has started keeps running. -/
theorem obeys_pool_laws_loads :
    let older : Station :=
      { tag := 3, uuid := 5, unit := .memory, src1 := .pending 9, src2 := .ready 0 }
    let younger : Station :=
      { tag := 4, uuid := 6, unit := .memory, src1 := .ready 8, src2 := .ready 0 }
    let addition : Station :=
      { tag := 5, uuid := 7, unit := .alu, src1 := .ready 1, src2 := .ready 2 }
    let p := (empty 3).performAll
      [.allocate younger, .allocate older, .allocate addition, .start 2]
    p.Distinct ∧ p.dispatchable = [] ∧ (p.broadcast 9 64).dispatchable = [1] ∧
      (∀ l t, l ≠ 1 → p.get? l = some t → t.unit = .memory → 5 < t.uuid) ∧
      (p.waiting 9).ncard = 1 ∧
      ∃ t, (p.performAll [.broadcast 9 64, .release 1]).get? 2 = some t ∧ addition.Same t ∧
        t.running = true := by
  intro older younger addition p
  obtain ⟨-, hpool⟩ := obeys_pool_laws 3
    [.allocate younger, .allocate older, .allocate addition, .start 2]
  have hdistinct : p.Distinct := distinct_of_nodup (by decide)
  have holder : p.get? 1 = some older := by decide
  have hrunning : p.get? 2 = some { addition with running := true } := by decide
  obtain ⟨t, ht, hsame, hrun⟩ := hpool.running 2 _ [.broadcast 9 64, .release 1] hrunning rfl
    (by simp)
  exact ⟨hdistinct, by decide, by decide,
    (hpool.isLocked_eq_false_iff hdistinct 1 older holder (.inl rfl)).mp (by decide),
    (hpool.broadcast 9 64).woken.symm.trans (by decide), t, ht,
    ⟨hsame.tag, hsame.uuid, hsame.unit⟩, hrun⟩

end Stations

end OutOfOrder
