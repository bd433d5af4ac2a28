import OutOfOrder.Instruction.Basic
import OutOfOrder.Stations
import Mathlib.Tactic.ByContra

/-!
# The stations of the pool, by slot

What the operations on the reservation stations do is said slot by slot, with `Stations.get?` as
the only view of the pool. Who may start depends on the other stations too, but only on their units
and serial numbers; so starting one station neither locks nor unlocks another, and a list of
stations that may start stays one while it is worked through.

The two operands of a station are treated alike. `Source` tells them apart.

## Main definitions

* `Source`, `Station.operand`, `Instruction.uses`, `Instruction.source` — the two operands
* `Stations.Eligible` — what `isEligible` tests, spelled out

## Main results

* `Stations.get?_allocate`, `get?_markRunning`, `get?_broadcast`, `get?_release`
* `Stations.mem_dispatchable`, `nodup_dispatchable`, `pairwise_dispatchable`,
  `Stations.Eligible.dispatchable_eq` — who may start is listed once, and by age
* `Stations.Eligible.uuid_le` — on an ordered unit it is the oldest
* `Stations.Eligible.markRunning`, `of_markRunning` — starting one station leaves the others as they
  were
* `Stations.Eligible.allocate`, `of_allocate` — and so does a new station that is younger
* `Stations.Eligible.deliver` — and so does a delivery
-/

namespace OutOfOrder

/-! ### Sources -/

/-- Which operand of an instruction. -/
inductive Source where
  | first
  | second
deriving DecidableEq, Repr

/-- An operand of a station. -/
def Station.operand (s : Station) : Source → Operand
  | .first => s.src1
  | .second => s.src2

/-- Does the instruction read this source register? -/
def Instruction.uses (i : Instruction) : Source → Bool
  | .first => i.control.usesRs1
  | .second => i.control.usesRs2

/-- A source register, in use or not. -/
def Instruction.source (i : Instruction) : Source → Reg
  | .first => i.rs1
  | .second => i.rs2

namespace Operand

theorem wake_eq_pending_iff {tag k : Tag} {value : Word} {o : Operand} :
    o.wake tag value = pending k ↔ o = pending k ∧ k ≠ tag := by
  rw [wake]
  split
  · next h =>
    subst h
    simp only [pending.injEq]
    constructor
    · intro h
      simp at h
    · rintro ⟨rfl, hne⟩
      exact absurd rfl hne
  · next h =>
    constructor
    · rintro rfl
      exact ⟨rfl, fun he => h (by rw [he])⟩
    · exact And.left

theorem wake_eq_ready_iff {tag : Tag} {value v : Word} {o : Operand} :
    o.wake tag value = ready v ↔ o = ready v ∨ o = pending tag ∧ v = value := by
  rw [wake]
  split
  · next h =>
    subst h
    simp [eq_comm]
  · next h => simp [h]

theorem value?_eq_some_iff {o : Operand} {v : Word} : o.value? = some v ↔ o = ready v := by
  cases o <;> simp [value?]

end Operand

namespace Station

theorem operand_wake (s : Station) (tag : Tag) (value : Word) (x : Source) :
    (s.wake tag value).operand x = (s.operand x).wake tag value := by
  cases x <;> rfl

theorem operandsReady_iff {s : Station} :
    s.operandsReady = true ↔ ∀ x, ∃ v, s.operand x = .ready v := by
  have isReady_iff : ∀ o : Operand, o.isReady = true ↔ ∃ v, o = .ready v := by
    intro o
    cases o <;> simp [Operand.isReady, Operand.value?]
  rw [operandsReady, Bool.and_eq_true, isReady_iff, isReady_iff]
  constructor
  · rintro ⟨h1, h2⟩ x
    cases x with
    | first => exact h1
    | second => exact h2
  · intro h
    exact ⟨h .first, h .second⟩

/-- A station that waits for nothing does not listen. -/
theorem wake_of_ready {s : Station} (h : ∀ x, ∃ v, s.operand x = .ready v) (tag : Tag)
    (value : Word) : s.wake tag value = s := by
  obtain ⟨a, ha⟩ : ∃ v, s.src1 = .ready v := h .first
  obtain ⟨b, hb⟩ : ∃ v, s.src2 = .ready v := h .second
  have hready : ∀ v, (Operand.ready v).wake tag value = .ready v := fun v =>
    Operand.wake_eq_ready_iff.mpr (.inl rfl)
  rw [wake, ha, hb, hready, hready, ← ha, ← hb]

end Station

/-! ### The operations -/

namespace Stations

variable {p q : Stations} {k l : Slot} {s t : Station}

theorem get?_set (i : Slot) (o : Option Station) (hi : i < p.slots.length) :
    (Stations.mk (p.slots.set i o)).get? k = if k = i then o else p.get? k := by
  rw [get?, List.getElem?_set]
  by_cases h : i = k
  · subst h
    rw [if_pos rfl, if_pos rfl, if_pos hi]
    rfl
  · rw [if_neg h, if_neg (Ne.symm h)]
    rfl

theorem lt_of_get? (h : p.get? k = some s) : k < p.slots.length := by
  by_contra hk
  rw [get?, List.getElem?_eq_none (Nat.le_of_not_lt hk)] at h
  simp at h

/-- A new station comes into a slot that was free. -/
theorem get?_allocate (h : p.allocate? s = some (l, q)) :
    p.get? l = none ∧ ∀ k, q.get? k = if k = l then some s else p.get? k := by
  obtain ⟨i, hi, he⟩ := Option.map_eq_some_iff.mp h
  obtain ⟨rfl, rfl⟩ := Prod.mk.inj he
  obtain ⟨hlt, hfree, -⟩ := List.findIdx?_eq_some_iff_getElem.mp hi
  refine ⟨?_, fun k => get?_set i (some s) hlt⟩
  rw [get?, List.getElem?_eq_getElem hlt]
  exact Option.isNone_iff_eq_none.mp hfree

/-- All slots below the one that a new station gets are in use. -/
theorem get?_of_lt_allocate (h : p.allocate? s = some (l, q)) (hk : k < l) :
    ∃ t, p.get? k = some t := by
  obtain ⟨i, hi, he⟩ := Option.map_eq_some_iff.mp h
  obtain ⟨rfl, -⟩ := Prod.mk.inj he
  obtain ⟨hlt, -, hlower⟩ := List.findIdx?_eq_some_iff_getElem.mp hi
  have hk' : k < p.slots.length := Nat.lt_trans hk hlt
  obtain ⟨t, ht⟩ := Option.ne_none_iff_exists'.mp
    (mt Option.isNone_iff_eq_none.mpr (hlower k hk))
  exact ⟨t, by rw [get?, List.getElem?_eq_getElem hk', ht]; rfl⟩

/-- A new station makes the pool no larger. -/
theorem capacity_allocate (h : p.allocate? s = some (l, q)) : q.capacity = p.capacity := by
  obtain ⟨i, -, he⟩ := Option.map_eq_some_iff.mp h
  obtain ⟨-, rfl⟩ := Prod.mk.inj he
  exact List.length_set

theorem allocate?_eq_none_iff : p.allocate? s = none ↔ p.isFull = true := by
  simp [allocate?, isFull, List.findIdx?_eq_none_iff, List.all_eq_true]

theorem isFull_iff : p.isFull = true ↔ ∀ k, k < p.capacity → ∃ s, p.get? k = some s := by
  rw [isFull, List.all_eq_true, capacity]
  constructor
  · intro h k hk
    obtain ⟨s, hs⟩ := Option.isSome_iff_exists.mp (h p.slots[k] (List.getElem_mem hk))
    exact ⟨s, by rw [get?, List.getElem?_eq_getElem hk, hs]; rfl⟩
  · intro h o ho
    obtain ⟨k, hk, rfl⟩ := List.mem_iff_getElem.mp ho
    obtain ⟨s, hs⟩ := h k hk
    rw [get?, List.getElem?_eq_getElem hk, Option.join_some] at hs
    rw [hs]
    rfl

theorem get?_markRunning (h : p.get? l = some s) :
    (p.markRunning l s).get? k = if k = l then some { s with running := true } else p.get? k :=
  get?_set l _ (lt_of_get? h)

theorem get?_broadcast (tag : Tag) (value : Word) :
    (p.broadcast tag value).get? k = (p.get? k).map (Station.wake tag value) := by
  rw [get?, get?, broadcast, List.getElem?_map]
  cases p.slots[k]? <;> rfl

theorem get?_release (l : Slot) :
    (p.release l).get? k = if k = l then none else p.get? k := by
  by_cases hl : l < p.slots.length
  · exact get?_set l none hl
  · have hset : p.slots.set l none = p.slots := List.set_eq_of_length_le (Nat.le_of_not_lt hl)
    rw [release, hset]
    split
    · next h =>
      subst h
      rw [get?, List.getElem?_eq_none (Nat.le_of_not_lt hl)]
      rfl
    · rfl

@[simp] theorem get?_empty (n : Nat) : (empty n).get? k = none := by
  rw [get?, empty, List.getElem?_replicate]
  split <;> rfl

theorem isEmpty_of_get? (h : ∀ k, p.get? k = none) : p.isEmpty = true := by
  rw [isEmpty, List.all_eq_true]
  intro o ho
  obtain ⟨i, hi⟩ := List.mem_iff_getElem?.mp ho
  have hi' := h i
  rw [get?, hi] at hi'
  exact Option.isNone_iff_eq_none.mpr hi'

/-! ### Who may start -/

theorem mem_toList_iff : (k, s) ∈ p.toList ↔ p.get? k = some s := by
  rw [toList, List.mem_filterMap, get?]
  constructor
  · rintro ⟨⟨o, i⟩, hmem, ho⟩
    obtain ⟨t, ht, he⟩ := Option.map_eq_some_iff.mp ho
    obtain ⟨rfl, rfl⟩ := Prod.mk.inj he
    have hget : p.slots[i]? = some o := List.mem_zipIdx_iff_getElem?.mp hmem
    rw [hget, Option.join_some]
    exact ht
  · intro h
    have hget : p.slots[k]? = some (some s) := Option.join_eq_some_iff.mp h
    exact ⟨(some s, k), List.mem_zipIdx_iff_getElem?.mpr hget, rfl⟩

/-- A locked station has an older one of the same ordered unit in the pool. -/
theorem isLocked_iff (h : p.get? k = some s) :
    p.isLocked k = true ↔
      s.unit.isOrdered = true ∧ ∃ l t, p.get? l = some t ∧ t.unit = s.unit ∧ t.uuid < s.uuid := by
  rw [isLocked, h]
  simp only [Bool.and_eq_true, List.any_eq_true, Prod.exists, mem_toList_iff, Station.isBehind,
    beq_iff_eq, decide_eq_true_eq]

/-- The station in a slot may start. -/
structure Eligible (p : Stations) (k : Slot) (s : Station) : Prop where
  get : p.get? k = some s
  waiting : s.running = false
  operands : ∀ x, ∃ v, s.operand x = .ready v
  unlocked : p.isLocked k = false

/-- Of the stations of an ordered unit only the oldest may start. -/
theorem Eligible.uuid_le (h : p.Eligible k s) (ht : p.get? l = some t) (hunit : t.unit = s.unit)
    (hord : s.unit.isOrdered = true) : s.uuid ≤ t.uuid := by
  by_contra hlt
  have hlocked := (isLocked_iff h.get).mpr ⟨hord, l, t, ht, hunit, Nat.lt_of_not_le hlt⟩
  rw [h.unlocked] at hlocked
  cases hlocked

theorem isEligible_iff : p.isEligible k = true ↔ ∃ s, p.Eligible k s := by
  rw [isEligible]
  constructor
  · intro h
    split at h
    · simp at h
    · next s hs =>
      simp only [Bool.and_eq_true, Bool.not_eq_true'] at h
      exact ⟨s, hs, h.1.1, Station.operandsReady_iff.mp h.1.2, h.2⟩
  · rintro ⟨s, hs⟩
    rw [hs.get]
    simp [hs.waiting, hs.unlocked, Station.operandsReady_iff.mpr hs.operands]

/-- The lock looks at units and serial numbers only, and more stations lock more. -/
theorem isLocked_mono (hs : p.get? k = some s) (ht : q.get? k = some t) (hunit : t.unit = s.unit)
    (huuid : t.uuid = s.uuid) (hkept : ∀ {j u}, p.get? j = some u →
      ∃ v, q.get? j = some v ∧ v.unit = u.unit ∧ v.uuid = u.uuid)
    (h : p.isLocked k = true) : q.isLocked k = true := by
  obtain ⟨hord, j, u, hu, huunit, huuuid⟩ := (isLocked_iff hs).mp h
  obtain ⟨v, hv, hvunit, hvuuid⟩ := hkept hu
  refine (isLocked_iff ht).mpr ⟨hunit ▸ hord, j, v, hv, ?_, ?_⟩
  · rw [hvunit, huunit, hunit]
  · rw [hvuuid, huuid]
    exact huuuid

theorem unlocked_mono (h : q.isLocked k = false)
    (hmono : p.isLocked k = true → q.isLocked k = true) : p.isLocked k = false := by
  cases hlocked : p.isLocked k with
  | false => rfl
  | true =>
    rw [hmono hlocked] at h
    cases h

/-- Starting one station changes no unit and no serial number. -/
theorem get?_of_markRunning (ht : p.get? l = some t) :
    (∀ {j u}, p.get? j = some u →
      ∃ v, (p.markRunning l t).get? j = some v ∧ v.unit = u.unit ∧ v.uuid = u.uuid) ∧
      ∀ {j u}, (p.markRunning l t).get? j = some u →
        ∃ v, p.get? j = some v ∧ v.unit = u.unit ∧ v.uuid = u.uuid := by
  refine ⟨fun {j u} hu => ?_, fun {j u} hu => ?_⟩
  · rw [get?_markRunning ht]
    split
    · next hj =>
      obtain rfl := Option.some.inj (ht.symm.trans (hj ▸ hu))
      exact ⟨_, rfl, rfl, rfl⟩
    · exact ⟨u, hu, rfl, rfl⟩
  · rw [get?_markRunning ht] at hu
    split at hu
    · next hj =>
      obtain rfl := Option.some.inj hu
      exact ⟨t, by rw [hj, ht], rfl, rfl⟩
    · exact ⟨u, hu, rfl, rfl⟩

/-- Starting one station leaves the others as they were, -/
theorem Eligible.markRunning (h : p.Eligible k s) (ht : p.get? l = some t) (hne : k ≠ l) :
    (p.markRunning l t).Eligible k s := by
  have hk : (p.markRunning l t).get? k = some s := by
    rw [get?_markRunning ht, if_neg hne, h.get]
  exact ⟨hk, h.waiting, h.operands, unlocked_mono h.unlocked
    (isLocked_mono hk h.get rfl rfl (get?_of_markRunning ht).2)⟩

/-- and lets none of them start that could not start before. -/
theorem Eligible.of_markRunning (h : (p.markRunning l t).Eligible k s) (ht : p.get? l = some t) :
    k ≠ l ∧ p.Eligible k s := by
  have hget := h.get
  rw [get?_markRunning ht] at hget
  split at hget
  · obtain rfl := Option.some.inj hget
    cases h.waiting
  · next hne =>
    exact ⟨hne, hget, h.waiting, h.operands, unlocked_mono h.unlocked
      (isLocked_mono hget h.get rfl rfl (get?_of_markRunning ht).1)⟩

/-- A younger station locks nobody. -/
theorem Eligible.allocate (h : p.Eligible k t) (hq : p.allocate? s = some (l, q))
    (huuid : t.uuid < s.uuid) : q.Eligible k t := by
  obtain ⟨hfree, hget⟩ := get?_allocate hq
  have hk : k ≠ l := by
    rintro rfl
    cases hfree.symm.trans h.get
  have hk' : q.get? k = some t := by rw [hget, if_neg hk, h.get]
  refine ⟨hk', h.waiting, h.operands, ?_⟩
  by_contra hlocked
  obtain ⟨hord, j, u, hu, hunit, hlt⟩ := (isLocked_iff hk').mp (Bool.of_not_eq_false hlocked)
  rw [hget] at hu
  split at hu
  · obtain rfl := Option.some.inj hu
    exact Nat.lt_asymm hlt huuid
  · have := (isLocked_iff h.get).mpr ⟨hord, j, u, hu, hunit, hlt⟩
    rw [h.unlocked] at this
    cases this

/-- It lets nobody start that could not start before, but perhaps itself. -/
theorem Eligible.of_allocate (h : q.Eligible k t) (hq : p.allocate? s = some (l, q)) :
    t = s ∨ p.Eligible k t := by
  obtain ⟨hfree, hget⟩ := get?_allocate hq
  have hk := h.get
  rw [hget] at hk
  split at hk
  · exact .inl (Option.some.inj hk).symm
  · refine .inr ⟨hk, h.waiting, h.operands, unlocked_mono h.unlocked
      (isLocked_mono hk h.get rfl rfl fun {j u} hu => ⟨u, ?_, rfl, rfl⟩)⟩
    rw [hget, if_neg, hu]
    rintro rfl
    rw [hfree] at hu
    cases hu

/-- A delivery and a slot that becomes free leave those who may start as they were. -/
theorem Eligible.deliver (h : p.Eligible k s) (hne : k ≠ l) (tag : Tag) (value : Word) :
    ((p.broadcast tag value).release l).Eligible k s := by
  have hk : ((p.broadcast tag value).release l).get? k = some s := by
    rw [get?_release, if_neg hne, get?_broadcast, h.get, Option.map_some,
      Station.wake_of_ready h.operands]
  refine ⟨hk, h.waiting, h.operands, unlocked_mono h.unlocked
    (isLocked_mono hk h.get rfl rfl fun {j u} hu => ?_)⟩
  rw [get?_release] at hu
  split at hu
  · cases hu
  · rw [get?_broadcast] at hu
    obtain ⟨v, hv, rfl⟩ := Option.map_eq_some_iff.mp hu
    exact ⟨v, hv, rfl, rfl⟩

/-! ### The list of those who may start -/

theorem perm_insertByAge (s : Slot × Station) (l : List (Slot × Station)) :
    (insertByAge s l).Perm (s :: l) := by
  induction l with
  | nil => exact .rfl
  | cons t l ih =>
    rw [insertByAge]
    split
    · exact .rfl
    · exact (ih.cons t).trans (.swap s t l)

theorem perm_foldr_insertByAge (l : List (Slot × Station)) : (l.foldr insertByAge []).Perm l := by
  induction l with
  | nil => exact .rfl
  | cons s l ih => exact (perm_insertByAge s _).trans (ih.cons s)

theorem isOlder_iff {a b : Slot × Station} : isOlder a b = true ↔
    a.2.uuid < b.2.uuid ∨ a.2.uuid = b.2.uuid ∧ a.1 ≤ b.1 := by
  simp [isOlder]

theorem isOlder_trans {a b c : Slot × Station} (hab : isOlder a b = true)
    (hbc : isOlder b c = true) : isOlder a c = true := by
  rw [isOlder_iff] at hab hbc ⊢
  rcases hab with hab | ⟨hab, hle⟩
  · rcases hbc with hbc | ⟨hbc, -⟩
    · exact .inl (Nat.lt_trans hab hbc)
    · exact .inl (hbc ▸ hab)
  · rcases hbc with hbc | ⟨hbc, hle'⟩
    · exact .inl (hab ▸ hbc)
    · exact .inr ⟨hab.trans hbc, Nat.le_trans hle hle'⟩

theorem isOlder_of_not {a b : Slot × Station} (h : ¬isOlder a b = true) : isOlder b a = true := by
  rw [isOlder_iff, not_or, not_and] at h
  rw [isOlder_iff]
  rcases Nat.lt_or_eq_of_le (Nat.le_of_not_lt h.1) with hlt | heq
  · exact .inl hlt
  · exact .inr ⟨heq, Nat.le_of_lt (Nat.lt_of_not_le (h.2 heq.symm))⟩

/-- The oldest come first. -/
theorem pairwise_insertByAge {l : List (Slot × Station)} (s : Slot × Station)
    (h : l.Pairwise fun s t => isOlder s t = true) :
    (insertByAge s l).Pairwise fun s t => isOlder s t = true := by
  induction l with
  | nil => exact List.pairwise_singleton _ s
  | cons t l ih =>
    obtain ⟨hfirst, hrest⟩ := List.pairwise_cons.mp h
    rw [insertByAge]
    split
    · next holder =>
      refine List.pairwise_cons.mpr ⟨fun u hu => ?_, h⟩
      rcases List.mem_cons.mp hu with rfl | hu
      · exact holder
      · exact isOlder_trans holder (hfirst u hu)
    · next holder =>
      refine List.pairwise_cons.mpr ⟨fun u hu => ?_, ih hrest⟩
      rcases List.mem_cons.mp ((perm_insertByAge s l).mem_iff.mp hu) with rfl | hu
      · exact isOlder_of_not holder
      · exact hfirst u hu

theorem pairwise_foldr_insertByAge (l : List (Slot × Station)) :
    (l.foldr insertByAge []).Pairwise fun s t => isOlder s t = true := by
  induction l with
  | nil => exact .nil
  | cons s l ih => exact pairwise_insertByAge s ih

theorem nodup_slots (p : Stations) : (p.toList.map Prod.fst).Nodup := by
  have hidx : (p.slots.zipIdx.map Prod.snd).Nodup := by
    rw [List.zipIdx_map_snd]
    exact List.nodup_range'
  rw [List.Nodup, List.pairwise_map] at hidx
  rw [List.Nodup, toList, List.pairwise_map, List.pairwise_filterMap]
  refine hidx.imp fun hne x hx y hy => ?_
  obtain ⟨_, -, rfl⟩ := Option.map_eq_some_iff.mp hx
  obtain ⟨_, -, rfl⟩ := Option.map_eq_some_iff.mp hy
  exact hne

theorem mem_dispatchable : k ∈ p.dispatchable ↔ ∃ s, p.Eligible k s := by
  rw [dispatchable, List.mem_map]
  constructor
  · rintro ⟨⟨l, s⟩, hmem, rfl⟩
    have := (perm_foldr_insertByAge _).mem_iff.mp hmem
    exact isEligible_iff.mp (List.mem_filter.mp this).2
  · rintro ⟨s, hs⟩
    refine ⟨(k, s), (perm_foldr_insertByAge _).mem_iff.mpr ?_, rfl⟩
    exact List.mem_filter.mpr ⟨mem_toList_iff.mpr hs.get, isEligible_iff.mpr ⟨s, hs⟩⟩

theorem nodup_dispatchable (p : Stations) : p.dispatchable.Nodup := by
  rw [dispatchable, ((perm_foldr_insertByAge _).map Prod.fst).nodup_iff]
  exact (nodup_slots p).sublist (List.filter_sublist.map Prod.fst)

/-- The list goes by age, and of two stations of the same age the lower slot comes first. -/
theorem pairwise_slots_dispatchable (p : Stations) : p.dispatchable.Pairwise fun k l =>
    ∀ s t, p.get? k = some s → p.get? l = some t → s.uuid < t.uuid ∨ s.uuid = t.uuid ∧ k < l := by
  have hnodup := p.nodup_dispatchable
  rw [List.Nodup, dispatchable, List.pairwise_map] at hnodup
  rw [dispatchable, List.pairwise_map]
  refine (hnodup.and (pairwise_foldr_insertByAge _)).imp_of_mem fun {a b} ha hb hab s t hs ht => ?_
  have hget : ∀ {x : Slot × Station},
      x ∈ (p.toList.filter fun s => p.isEligible s.1).foldr insertByAge [] →
        p.get? x.1 = some x.2 := fun hx =>
    mem_toList_iff.mp (List.mem_filter.mp ((perm_foldr_insertByAge _).mem_iff.mp hx)).1
  obtain rfl := Option.some.inj (hs.symm.trans (hget ha))
  obtain rfl := Option.some.inj (ht.symm.trans (hget hb))
  exact (isOlder_iff.mp hab.2).imp_right fun hage => ⟨hage.1, Nat.lt_of_le_of_ne hage.2 hab.1⟩

theorem pairwise_dispatchable (p : Stations) : p.dispatchable.Pairwise fun k l =>
    ∀ s t, p.get? k = some s → p.get? l = some t → s.uuid ≤ t.uuid := by
  refine p.pairwise_slots_dispatchable.imp fun hlt s t hs ht => ?_
  rcases hlt s t hs ht with hlt | ⟨heq, -⟩
  · exact Nat.le_of_lt hlt
  · exact Nat.le_of_eq heq

/-- Before a station that may start, the list has those that are older, and no younger ones. -/
theorem Eligible.dispatchable_eq (h : p.Eligible k s) : ∃ ks ls, p.dispatchable = ks ++ k :: ls ∧
    ks.Nodup ∧ (∀ l ∈ ks, l ≠ k ∧ ∃ t, p.Eligible l t ∧ t.uuid ≤ s.uuid) ∧
      ∀ l t, p.Eligible l t → t.uuid < s.uuid → l ∈ ks := by
  obtain ⟨ks, ls, hslots⟩ := List.append_of_mem (mem_dispatchable.mpr ⟨s, h⟩)
  have hnodup := p.nodup_dispatchable
  have hsorted := p.pairwise_dispatchable
  have hmem : ∀ {l}, l ∈ p.dispatchable ↔ ∃ t, p.Eligible l t := mem_dispatchable
  rw [hslots] at hnodup hsorted hmem
  obtain ⟨hks, -, hdisjoint⟩ := List.nodup_append.mp hnodup
  obtain ⟨-, hlater, hearlier⟩ := List.pairwise_append.mp hsorted
  refine ⟨ks, ls, hslots, hks, fun l hl => ?_, fun l t ht hlt => ?_⟩
  · obtain ⟨t, ht⟩ := hmem.mp (List.mem_append_left _ hl)
    exact ⟨hdisjoint l hl k List.mem_cons_self, t, ht,
      hearlier l hl k List.mem_cons_self t s ht.get h.get⟩
  · refine (List.mem_append.mp (hmem.mpr ⟨t, ht⟩)).resolve_right fun hl => ?_
    rcases List.mem_cons.mp hl with rfl | hl
    · obtain rfl := Option.some.inj (ht.get.symm.trans h.get)
      exact Nat.lt_irrefl _ hlt
    · exact Nat.not_le_of_lt hlt ((List.pairwise_cons.mp hlater).1 l hl s t h.get ht.get)

end Stations

end OutOfOrder
