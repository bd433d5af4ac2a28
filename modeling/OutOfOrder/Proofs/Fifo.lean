import OutOfOrder.Proofs.Admission
import Mathlib.Data.List.Induction

/-!
# The reorder buffer is a bounded queue

What the reorder buffer does is compared here with books that forget nothing: a list of all
instructions that have ever entered, how many of them have left, and the last result that was
delivered to each. An instruction is known by its number in this list, which is never used again.
The buffer has the part of the list that has not left yet, with the results of these instructions,
after any history of operations, in whatever order the results come and however often the places
have been used before.

The same history can be played on a ring of places, with a head and a tail that are counted around
the ring. It never gets into trouble, and ends in the ring that the buffer describes: the places in
use are the ones from the head to the tail. What an operation answers there is what it answers on
the buffer.

## Main definitions

* `ReorderBuffer.Operation`, `performAll` — a history of operations, on the buffer and on the ring
* `Ledger`, `Ledger.present` — the books, and what should be present by them
* `ReorderBuffer.IsQueue` — what one operation answers and changes, seen on the list of entries
* `Ring.IsWindow` — the places in use follow one another from the head to the tail
* `Ring.AnswersLike` — every operation on the ring answers as it does on a reorder buffer

## Main results

* `Ledger.describes_performAll` — the books agree with the buffer after any history
* `ReorderBuffer.isQueue`, `isWindow`, `ring_answersLike` — every buffer is a queue, and its ring
  has no gaps and answers like it
* `ReorderBuffer.refines_fifo` — all of this together
-/

namespace OutOfOrder

namespace ReorderBuffer

/-! ### Histories -/

/-- What can be done to a reorder buffer. -/
inductive Operation where
  | allocate (instruction : Instruction)
  | markReady (tag : Tag) (result : Word)
  | commit

/-- The buffer after an operation. One that is refused changes nothing. -/
def perform (b : ReorderBuffer) : Operation → ReorderBuffer
  | .allocate i => ((b.allocate? i).map Prod.snd).getD b
  | .markReady tag result => (b.markReady? tag result).getD b
  | .commit => (b.commit?.map fun x => x.2.2).getD b

/-- The buffer after some operations. -/
def performAll (b : ReorderBuffer) (ops : List Operation) : ReorderBuffer := ops.foldl perform b

end ReorderBuffer

namespace Ring

/-- A ring with all places free. -/
def empty (capacity : Nat) : Ring :=
  { places := List.replicate capacity none, head := 0, tail := 0, count := 0 }

/-- The ring after an operation, if nothing has gone wrong. -/
def perform (r : Ring) : ReorderBuffer.Operation → Except Breach Ring
  | .allocate i => (r.enter i).map fun x => (x.map Prod.snd).getD r
  | .markReady tag result => .ok ((r.markReady? tag result).getD r)
  | .commit => r.leave.map fun x => (x.map fun y => y.2.2).getD r

/-- The ring after some operations. -/
def performAll (r : Ring) (ops : List ReorderBuffer.Operation) : Except Breach Ring :=
  ops.foldlM perform r

/-- As many places are in use as are counted. They follow one another around the ring, from the head
on, and the tail comes after them. -/
structure IsWindow (r : Ring) (capacity : Nat) : Prop where
  length_places : r.places.length = capacity
  tail_eq : r.tail = (r.head + r.count) % capacity
  isSome_get?_iff : ∀ tag,
    (r.get? tag).isSome = true ↔ ∃ k, k < r.count ∧ tag = (r.head + k) % capacity

/-- Whatever is done to the ring, it answers like the reorder buffer `b`. What it leaves behind is
the ring of what `b` leaves behind, and nothing goes wrong on the way. -/
structure AnswersLike (r : Ring) (b : ReorderBuffer) : Prop where
  isFull : r.isFull = b.isFull
  next? : r.next? = b.nextTag?
  get? : ∀ tag, r.get? tag = b.get? tag
  readyValue? : ∀ tag, r.readyValue? tag = b.readyValue? tag
  entries : r.entries = .ok b.toList
  enter : ∀ i, r.enter i = .ok ((b.allocate? i).map fun x => (x.1, x.2.ring))
  markReady? : ∀ tag v, r.markReady? tag v = (b.markReady? tag v).map ReorderBuffer.ring
  leave : r.leave = .ok (b.commit?.map fun x => (x.1, x.2.1, x.2.2.ring))

end Ring

/-! ### The books -/

/-- All that has ever happened to a bounded queue. -/
structure Ledger where
  capacity : Nat
  /-- All instructions that have entered, the first one first. -/
  entered : List Instruction := []
  /-- How many of them have left. -/
  left : Nat := 0
  /-- The result that was last delivered to the instruction of a number. -/
  delivered : Nat → Option Word := fun _ => none

namespace Ledger

/-- The books after an operation. An instruction enters if fewer than `capacity` are present, a
result is for the instruction that is present and whose number has this place, and the first one
that is present leaves if it has a result. -/
def record (l : Ledger) : ReorderBuffer.Operation → Ledger
  | .allocate i =>
    if l.entered.length < l.left + l.capacity then { l with entered := l.entered ++ [i] } else l
  | .markReady tag result =>
    { l with
      delivered := fun n =>
        if l.left ≤ n ∧ n < l.entered.length ∧ n % l.capacity = tag then some result
        else l.delivered n }
  | .commit =>
    if l.left < l.entered.length ∧ (l.delivered l.left).isSome = true then
      { l with left := l.left + 1 }
    else l

/-- The books after some operations. -/
def recordAll (l : Ledger) (ops : List ReorderBuffer.Operation) : Ledger := ops.foldl record l

/-- What instruction `i` looks like in the queue, if it was the `n`-th to enter. -/
def entry (l : Ledger) (n : Nat) (i : Instruction) : Entry :=
  { instruction := i, ready := (l.delivered n).isSome, result := (l.delivered n).getD 0 }

/-- What is present by the books: those that have entered and have not left, each with its place. -/
def present (l : Ledger) : List (Tag × Entry) :=
  (l.entered.drop l.left).mapIdx fun k i => ((l.left + k) % l.capacity, l.entry (l.left + k) i)

/-- The books are those of the reorder buffer `b`. -/
structure Describes (l : Ledger) (b : ReorderBuffer) : Prop where
  capacity : b.capacity = l.capacity
  departed : b.departed = l.left
  next : b.next = l.entered.length
  nth? : ∀ n, b.nth? n = if l.left ≤ n then l.entered[n]?.map (l.entry n) else none
  /-- Nobody has a result who has not entered. -/
  delivered : ∀ n, l.entered.length ≤ n → l.delivered n = none

end Ledger

namespace ReorderBuffer

variable {b c : ReorderBuffer} {i : Instruction} {tag : Tag} {e : Entry} {result : Word}

/-! ### One operation -/

/-- The first entry leaves exactly if there is one and its result has arrived. -/
theorem isSome_commit?_iff :
    b.commit?.isSome = true ↔ ∃ e, b.nth? b.departed = some e ∧ e.ready = true := by
  constructor
  · intro h
    obtain ⟨⟨tag, e, c⟩, hcommit⟩ := Option.isSome_iff_exists.mp h
    exact ⟨e, (left_of_commit? hcommit).oldest, (left_of_commit? hcommit).ready⟩
  · rintro ⟨e, he, hready⟩
    cases hcommit : b.commit? with
    | some x => rfl
    | none =>
      rw [unready_of_commit? hcommit he] at hready
      cases hready

theorem mem_toList_iff : (tag, e) ∈ b.toList ↔ b.get? tag = some e := by
  rw [get?_eq_some_iff]
  constructor
  · intro h
    obtain ⟨k, hk⟩ := List.mem_iff_getElem?.mp h
    exact ⟨b.departed + k, nth?_of_toList hk⟩
  · rintro ⟨n, hn, rfl⟩
    obtain ⟨k, -, hk⟩ := exists_getElem?_toList hn
    exact List.mem_of_getElem? hk

theorem readyValue?_eq_some_iff :
    b.readyValue? tag = some result ↔
      ∃ e, b.get? tag = some e ∧ e.ready = true ∧ e.result = result := by
  rw [readyValue?, Option.bind_eq_some_iff]
  refine exists_congr fun e => and_congr_right fun _ => ?_
  cases e.ready <;> simp

/-- Every entry has a place of its own. -/
theorem nodup_tags (b : ReorderBuffer) : (b.toList.map Prod.fst).Nodup := by
  rw [List.Nodup, List.pairwise_map, List.pairwise_iff_getElem]
  intro j k hj hk hjk heq
  obtain ⟨hm, hmplace⟩ := nth?_of_toList (List.getElem?_eq_getElem hj)
  obtain ⟨hn, hnplace⟩ := nth?_of_toList (List.getElem?_eq_getElem hk)
  have := place_inj hm hn (hmplace.trans (heq.trans hnplace.symm))
  omega

theorem length_toList (b : ReorderBuffer) : b.toList.length = b.length := List.length_mapIdx

/-- A result that arrives changes one entry. -/
theorem toList_of_markReady? (h : b.markReady? tag result = some c) :
    c.toList = b.toList.map fun u =>
      if u.1 = tag then (tag, { u.2 with ready := true, result }) else u := by
  have hget : (b.get? tag).isSome = true := by
    rw [markReady?] at h
    split at h
    · assumption
    · cases h
  obtain ⟨e, he⟩ := Option.isSome_iff_exists.mp hget
  obtain ⟨n, hn, rfl⟩ := get?_eq_some_iff.mp he
  obtain ⟨d, hd, hcompleted⟩ := exists_completed result hn
  obtain rfl : d = c := Option.some.inj (hd.symm.trans h)
  refine List.ext_getElem? fun k => ?_
  rw [getElem?_toList, List.getElem?_map, getElem?_toList, hcompleted.departed, hcompleted.nth?,
    hcompleted.place]
  by_cases hk : b.departed + k = n
  · rw [if_pos hk, hk, hn]
    simp
  · rw [if_neg hk]
    cases hm : b.nth? (b.departed + k) with
    | none => rfl
    | some f =>
      have hne : b.place (b.departed + k) ≠ b.place n := fun hplace => hk (place_inj hm hn hplace)
      simp [hne]

/-- The entry that leaves is the first one. -/
theorem toList_of_commit? (h : b.commit? = some (tag, e, c)) : b.toList = (tag, e) :: c.toList := by
  have hleft := left_of_commit? h
  refine List.ext_getElem? fun k => ?_
  cases k with
  | zero =>
    rw [getElem?_toList, Nat.add_zero, hleft.oldest, hleft.tag_eq]
    rfl
  | succ k =>
    rw [List.getElem?_cons_succ, getElem?_toList, getElem?_toList, hleft.departed, hleft.nth?,
      hleft.place, if_neg (by omega), show b.departed + (k + 1) = b.departed + 1 + k by omega]

/-- What one operation answers and changes, seen on the list of entries. -/
structure IsQueue (b : ReorderBuffer) : Prop where
  nodup : (b.toList.map Prod.fst).Nodup
  get? : ∀ tag e, b.get? tag = some e ↔ (tag, e) ∈ b.toList
  readyValue? : ∀ tag v,
    b.readyValue? tag = some v ↔ ∃ e, (tag, e) ∈ b.toList ∧ e.ready = true ∧ e.result = v
  /-- An instruction enters if there is room: behind all others, without a result, and at the place
  that was announced, where nobody stood. -/
  allocate? : ∀ i,
    match b.allocate? i with
    | none => b.toList.length = b.capacity ∧ b.nextTag? = none
    | some (tag, c) =>
      b.toList.length < b.capacity ∧ b.nextTag? = some tag ∧ b.get? tag = none ∧
        c.toList = b.toList ++ [(tag, { instruction := i })]
  /-- A result can be delivered to a place in use, and changes the entry that stands there. -/
  markReady? : ∀ tag v,
    match b.markReady? tag v with
    | none => b.get? tag = none
    | some c =>
      (b.get? tag).isSome = true ∧
        c.toList = b.toList.map fun u =>
          if u.1 = tag then (tag, { u.2 with ready := true, result := v }) else u
  /-- The first entry leaves if there is one and it has its result. -/
  commit? :
    match b.commit? with
    | none => ∀ tag e, b.toList.head? = some (tag, e) → e.ready = false
    | some (tag, e, c) => e.ready = true ∧ b.toList = (tag, e) :: c.toList

/-- **Every reorder buffer is a queue.** -/
theorem isQueue (b : ReorderBuffer) : b.IsQueue where
  nodup := b.nodup_tags
  get? _ _ := mem_toList_iff.symm
  readyValue? tag v := by simp only [mem_toList_iff, readyValue?_eq_some_iff]
  allocate? i := by
    cases halloc : b.allocate? i with
    | none =>
      have hfull := allocate?_eq_none_iff.mp halloc
      refine ⟨?_, by rw [nextTag?, if_pos hfull]⟩
      rw [length_toList]
      exact beq_iff_eq.mp hfull
    | some x =>
      have hentered := entered_of_allocate? halloc
      refine ⟨?_, nextTag?_of_allocate? halloc, ?_, toList_of_allocate? halloc⟩
      · rw [allocate?] at halloc
        split at halloc
        · rwa [length_toList]
        · cases halloc
      · rw [Option.eq_none_iff_forall_ne_some]
        intro e he
        obtain ⟨n, hn, hplace⟩ := get?_eq_some_iff.mp he
        exact hentered.fresh n e hn hplace
  markReady? tag v := by
    cases hmark : b.markReady? tag v with
    | none =>
      rw [markReady?] at hmark
      split at hmark
      · cases hmark
      · next hnone => exact Option.not_isSome_iff_eq_none.mp hnone
    | some c =>
      refine ⟨?_, toList_of_markReady? hmark⟩
      rw [markReady?] at hmark
      split at hmark
      · assumption
      · cases hmark
  commit? := by
    cases hcommit : b.commit? with
    | none =>
      intro tag e he
      rw [List.head?_eq_getElem?] at he
      exact unready_of_commit? hcommit (nth?_of_toList he).1
    | some x => exact ⟨(left_of_commit? hcommit).ready, toList_of_commit? hcommit⟩

/-! ### The ring -/

/-- **The places in use follow one another.** -/
theorem isWindow (b : ReorderBuffer) : b.ring.IsWindow b.capacity where
  length_places := b.length_places
  tail_eq := by
    change b.place b.next = (b.place b.departed + b.length) % b.capacity
    rw [place, place, Nat.mod_add_mod]
    rfl
  isSome_get?_iff tag := by
    have hplace : ∀ k, (b.ring.head + k) % b.capacity = b.place (b.departed + k) := by
      intro k
      change (b.place b.departed + k) % b.capacity = _
      rw [place, place, Nat.mod_add_mod]
    simp only [ring_get?, hplace, Option.isSome_iff_exists, get?_eq_some_iff]
    constructor
    · rintro ⟨e, n, hn, rfl⟩
      have hbounds := bounds_of_nth? hn
      rw [next] at hbounds
      refine ⟨n - b.departed, ?_, by rw [Nat.add_sub_cancel' hbounds.1]⟩
      change n - b.departed < b.entries.length
      omega
    · rintro ⟨k, hk, rfl⟩
      obtain ⟨e, he⟩ := exists_nth? (b := b) (Nat.le_add_right b.departed k)
        (Nat.add_lt_add_left hk b.departed)
      exact ⟨e, _, he, rfl⟩

theorem ring_empty (capacity : Nat) : (empty capacity).ring = Ring.empty capacity := by
  have hget : ∀ tag, (empty capacity).get? tag = none := by
    intro tag
    rw [get?]
    split <;> rfl
  have hplaces :
      (List.range capacity).map (empty capacity).get? = List.replicate capacity none := by
    rw [List.map_congr_left fun tag _ => hget tag, List.map_const', List.length_range]
  have hzero : (empty capacity).place 0 = 0 := Nat.zero_mod capacity
  rw [ring, Ring.empty, Ring.mk.injEq]
  exact ⟨hplaces, hzero, hzero, rfl⟩

/-- **The ring answers like the reorder buffer** that it belongs to. -/
theorem ring_answersLike (b : ReorderBuffer) : b.ring.AnswersLike b where
  isFull := b.ring_isFull
  next? := b.ring_next?
  get? := b.ring_get?
  readyValue? := b.ring_readyValue?
  entries := b.ring_entries
  enter := b.ring_enter
  markReady? := b.ring_markReady?
  leave := b.ring_leave

/-- An operation on the ring of a reorder buffer is the operation on the buffer. -/
theorem ring_perform (b : ReorderBuffer) (op : Operation) :
    b.ring.perform op = .ok (b.perform op).ring := by
  cases op with
  | allocate i =>
    rw [Ring.perform, ring_enter, perform]
    cases b.allocate? i <;> rfl
  | markReady tag result =>
    rw [Ring.perform, ring_markReady?, perform]
    cases b.markReady? tag result <;> rfl
  | commit =>
    rw [Ring.perform, ring_leave, perform]
    cases b.commit? <;> rfl

theorem ring_performAll (b : ReorderBuffer) (ops : List Operation) :
    b.ring.performAll ops = .ok (b.performAll ops).ring := by
  induction ops generalizing b with
  | nil => rfl
  | cons op ops ih =>
    rw [Ring.performAll, List.foldlM_cons, ring_perform]
    exact ih (b.perform op)

end ReorderBuffer

/-! ### The books agree -/

namespace Ledger

open ReorderBuffer

variable {l : Ledger} {b : ReorderBuffer} {n : Nat}

theorem Describes.isSome_nth?_iff (h : l.Describes b) :
    (b.nth? n).isSome = true ↔ l.left ≤ n ∧ n < l.entered.length := by
  rw [ReorderBuffer.isSome_nth?_iff, h.departed, h.next]

theorem Describes.toList_eq (h : l.Describes b) : b.toList = l.present := by
  refine List.ext_getElem? fun k => ?_
  rw [getElem?_toList, h.departed, h.nth?, if_pos (Nat.le_add_right _ _), present,
    List.getElem?_mapIdx, List.getElem?_drop, Option.map_map, place, h.capacity]
  rfl

theorem describes_empty (capacity : Nat) :
    ({ capacity } : Ledger).Describes (ReorderBuffer.empty capacity) where
  capacity := rfl
  departed := rfl
  next := rfl
  nth? n := by
    rw [nth?_of_isEmpty rfl]
    split <;> rfl
  delivered _ _ := rfl

/-- An instruction enters the buffer and the books alike. -/
theorem Describes.allocate (h : l.Describes b) (i : Instruction) :
    (l.record (.allocate i)).Describes (b.perform (.allocate i)) := by
  have hnext : b.departed + b.entries.length = l.entered.length := h.next
  have hdeparted := h.departed
  have hcapacity := h.capacity
  rw [record, perform]
  by_cases hlt : b.entries.length < b.capacity
  · rw [if_pos (by omega)]
    cases halloc : b.allocate? i with
    | none =>
      rw [allocate?, dif_pos hlt] at halloc
      cases halloc
    | some x =>
      have hentered := entered_of_allocate? halloc
      refine
        { capacity := hentered.capacity.trans h.capacity
          departed := hentered.departed.trans h.departed
          next := ?_
          nth? := fun n => ?_
          delivered := fun n hn => h.delivered n ?_ }
      · change x.2.next = (l.entered ++ [i]).length
        rw [hentered.next, h.next, List.length_append, List.length_singleton]
      · change x.2.nth? n = if l.left ≤ n then (l.entered ++ [i])[n]?.map (l.entry n) else none
        rw [hentered.nth?, h.nth?, h.next]
        by_cases hn : n = l.entered.length
        · subst hn
          rw [if_pos rfl, if_pos (by omega), List.getElem?_concat_length, Option.map_some, entry,
            h.delivered _ (Nat.le_refl _)]
          rfl
        · have hsame : (l.entered ++ [i])[n]? = l.entered[n]? := by
            rcases Nat.lt_or_gt_of_ne hn with hlt | hgt
            · exact List.getElem?_append_left hlt
            · rw [List.getElem?_eq_none (by simp; omega), List.getElem?_eq_none (by omega)]
          rw [if_neg hn, hsame]
      · change (l.entered ++ [i]).length ≤ n at hn
        rw [List.length_append] at hn
        omega
  · rw [if_neg (by omega), allocate?, dif_neg hlt]
    exact h

/-- A result for a place that is free is for nobody. -/
theorem Describes.record_of_get?_none (h : l.Describes b) {tag : Tag} (hnone : b.get? tag = none)
    (result : Word) : l.record (.markReady tag result) = l := by
  have hsame : (fun n => if l.left ≤ n ∧ n < l.entered.length ∧ n % l.capacity = tag then
      some result else l.delivered n) = l.delivered := by
    funext n
    rw [if_neg]
    rintro ⟨hlo, hhi, hplace⟩
    obtain ⟨e, he⟩ := Option.isSome_iff_exists.mp (h.isSome_nth?_iff.mpr ⟨hlo, hhi⟩)
    have hget := get?_place he
    rw [place, h.capacity, hplace, hnone] at hget
    cases hget
  rw [record, hsame]

/-- A result is delivered to the same instruction in the buffer and in the books. -/
theorem Describes.markReady (h : l.Describes b) (tag : Tag) (result : Word) :
    (l.record (.markReady tag result)).Describes (b.perform (.markReady tag result)) := by
  cases hget : b.get? tag with
  | none =>
    have hrefused : b.markReady? tag result = none := by
      rw [markReady?, hget]
      rfl
    rw [h.record_of_get?_none hget, perform, hrefused]
    exact h
  | some e =>
    obtain ⟨n, hn, rfl⟩ := get?_eq_some_iff.mp hget
    obtain ⟨c, hc, hcompleted⟩ := exists_completed result hn
    rw [perform, hc, Option.getD_some]
    have hplace : ∀ m, m % l.capacity = b.place m := fun m => by rw [place, h.capacity]
    refine
      { capacity := hcompleted.capacity.trans h.capacity
        departed := hcompleted.departed.trans h.departed
        next := hcompleted.next.trans h.next
        nth? := fun m => ?_
        delivered := fun m hm => ?_ }
    · rw [hcompleted.nth?]
      by_cases hm : m = n
      · subst hm
        have hbounds := h.isSome_nth?_iff.mp (by rw [hn]; rfl)
        have hentry := h.nth? m
        rw [if_pos hbounds.1] at hentry
        rw [if_pos rfl, hentry]
        change _ = if l.left ≤ m then l.entered[m]?.map _ else none
        rw [if_pos hbounds.1, List.getElem?_eq_getElem hbounds.2]
        simp only [Option.map_some, entry, record]
        rw [if_pos ⟨hbounds.1, hbounds.2, hplace m⟩]
        rfl
      · rw [if_neg hm, h.nth?]
        change _ = if l.left ≤ m then l.entered[m]?.map _ else none
        split
        · next hlo =>
          by_cases hhi : m < l.entered.length
          · obtain ⟨f, hf⟩ := Option.isSome_iff_exists.mp (h.isSome_nth?_iff.mpr ⟨hlo, hhi⟩)
            have hother : ¬(l.left ≤ m ∧ m < l.entered.length ∧ m % l.capacity = b.place n) :=
              fun hsame => hm (place_inj hf hn ((hplace m).symm.trans hsame.2.2))
            rw [List.getElem?_eq_getElem hhi]
            simp only [Option.map_some, entry, record]
            rw [if_neg hother]
          · rw [List.getElem?_eq_none (Nat.le_of_not_lt hhi)]
            rfl
        · rfl
    · change (if l.left ≤ m ∧ m < l.entered.length ∧ _ then _ else _) = none
      rw [if_neg fun hbounds => Nat.not_le_of_lt hbounds.2.1 hm]
      exact h.delivered m hm

/-- The first instruction leaves the buffer and the books alike. -/
theorem Describes.commit (h : l.Describes b) :
    (l.record .commit).Describes (b.perform .commit) := by
  have hready : b.commit?.isSome = true ↔
      l.left < l.entered.length ∧ (l.delivered l.left).isSome = true := by
    rw [isSome_commit?_iff, h.departed, h.nth?, if_pos (Nat.le_refl _)]
    by_cases hlt : l.left < l.entered.length
    · rw [List.getElem?_eq_getElem hlt]
      simp [entry, hlt]
    · rw [List.getElem?_eq_none (Nat.le_of_not_lt hlt)]
      simp [hlt]
  rw [record, perform]
  cases hcommit : b.commit? with
  | none =>
    rw [if_neg (mt hready.mpr (by rw [hcommit]; decide))]
    exact h
  | some x =>
    have hleft := left_of_commit? hcommit
    rw [if_pos (hready.mp (by rw [hcommit]; rfl))]
    refine
      { capacity := hleft.capacity.trans h.capacity
        departed := hleft.departed.trans (congrArg Nat.succ h.departed)
        next := hleft.next.trans h.next
        nth? := fun n => ?_
        delivered := h.delivered }
    change x.2.2.nth? n = if l.left + 1 ≤ n then l.entered[n]?.map (l.entry n) else none
    rw [hleft.nth?, h.departed, h.nth?]
    rcases Nat.lt_trichotomy n l.left with hlt | heq | hgt
    · rw [if_neg (by omega), if_neg (by omega), if_neg (by omega)]
    · rw [if_pos heq, if_neg (by omega)]
    · rw [if_neg (by omega), if_pos (by omega), if_pos (by omega)]

theorem capacity_recordAll (l : Ledger) (ops : List Operation) :
    (l.recordAll ops).capacity = l.capacity := by
  induction ops generalizing l with
  | nil => rfl
  | cons op ops ih =>
    have hrecord : (l.record op).capacity = l.capacity := by
      rw [record.eq_def]
      split
      · split <;> rfl
      · rfl
      · split <;> rfl
    exact (ih (l.record op)).trans hrecord

/-- **The books agree with the buffer** after any history. -/
theorem describes_performAll (capacity : Nat) (ops : List Operation) :
    (({ capacity } : Ledger).recordAll ops).Describes ((empty capacity).performAll ops) := by
  induction ops using List.reverseRecOn with
  | nil => exact describes_empty capacity
  | append_singleton ops op ih =>
    rw [recordAll, performAll, List.foldl_append, List.foldl_append]
    cases op with
    | allocate i => exact ih.allocate i
    | markReady tag result => exact ih.markReady tag result
    | commit => exact ih.commit

end Ledger

namespace ReorderBuffer

/-- **The reorder buffer refines a bounded queue.** For every capacity, zero included, and after
every history of operations, the buffer lists the instructions that have entered and have not left,
in the order in which they entered, each with the result that was last delivered to it. What each
operation answers and changes is what a queue with so much room would.

The same history on a ring of places never counts around a ring without places and never meets a
free place between two that are in use. It ends in a ring that has the entries one after another,
from the head to the tail, and that answers like the buffer whatever is done to it next. -/
theorem refines_fifo (capacity : Nat) (ops : List Operation) :
    let b := (empty capacity).performAll ops
    b.capacity = capacity ∧ b.toList = (({ capacity } : Ledger).recordAll ops).present ∧
      b.IsQueue ∧
      (Ring.empty capacity).performAll ops = .ok b.ring ∧ b.ring.IsWindow capacity ∧
      b.ring.count = b.toList.length ∧ b.ring.AnswersLike b := by
  intro b
  have hdescribes := Ledger.describes_performAll capacity ops
  have hcapacity : b.capacity = capacity :=
    hdescribes.capacity.trans (Ledger.capacity_recordAll { capacity } ops)
  refine ⟨hcapacity, hdescribes.toList_eq, b.isQueue, ?_, ?_, b.length_toList.symm,
    b.ring_answersLike⟩
  · rw [← ring_empty]
    exact ring_performAll _ ops
  · rw [← hcapacity]
    exact b.isWindow

/-- When head and tail are the same, the ring may be full, and its first entry need not stand at the
first place. -/
example (i j k : Instruction) :
    (Ring.empty 2).performAll [.allocate i, .allocate j, .markReady 0 7, .commit, .allocate k] =
      .ok
        { places := [some { instruction := k }, some { instruction := j }], head := 1, tail := 1
          count := 2 } := by cbv

end ReorderBuffer

end OutOfOrder
