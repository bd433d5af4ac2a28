import OutOfOrder.Core.Event
import OutOfOrder.Proofs.Window

/-!
# The window as a ring of places

The reorder buffer is kept as the list of its entries. A machine has a table of places instead, some
of them free, with two places to go on from, where the oldest entry stands and where the next one
will, and a count. Such a ring has ways to go wrong that a list has not: a place may lie beyond the
end of the table, it may be counted around a table without places, and a place that should be taken
may be free. An operation on the ring checks for each of these where it could happen, and ends with
a `Breach` instead of a result.

The ring of a reorder buffer passes all the checks, and its operations do what those of the buffer
do, whatever the capacity and whatever has happened to the buffer before.

## Main definitions

* `Breach` — what a check can find
* `lookup`, `store`, `wrap`, `increment`, `demand`, `insist` — operations with a check
* `Ring`, `ReorderBuffer.ring` — a ring of places, and the one that a reorder buffer describes

## Main results

* `ReorderBuffer.ring_get?`, `ring_enter`, `ring_markReady?`, `ring_leave`, `ring_entries` — what
  the operations do on the ring of a reorder buffer
-/

namespace OutOfOrder

/-- The tables that are looked up by number. -/
inductive Table where
  | registers
  | aliases
  | window
  | units
deriving DecidableEq, Repr

/-- What a check can find. -/
inductive Breach where
  /-- A table ends before this number. -/
  | outOfRange (table : Table) (number : Nat)
  /-- A place is counted around a ring without places. -/
  | noPlaces
  /-- A counter has no higher value. -/
  | overflow (counter : Nat)
  /-- A place between the oldest entry and the newest is free. -/
  | gap (place : Tag)
  /-- An instruction in flight has no printed form. -/
  | unprintable (instruction : Instruction)
  /-- An instruction is not in the queue, although the queue was not empty. -/
  | queueRefused
  /-- The window has no place for an instruction, although it was not full. -/
  | windowRefused
  /-- The pool has no station for an instruction, although it was not full. -/
  | stationRefused
  /-- An instruction got another place than the one announced. -/
  | placeMoved (announced tag : Tag)
  /-- A station has no instruction. -/
  | noInstruction (tag : Tag)
  /-- The bus did not take a result, although it was empty. -/
  | busRefused
  /-- A unit gave up another result than the one it offered. -/
  | otherResult (unit : UnitKind)
  /-- A unit did not start, although it was not busy. -/
  | unitRefused (unit : UnitKind)
  /-- A station that may start is already running. -/
  | startRefused (slot : Slot)
  /-- One of the contradictions that a cycle reports. -/
  | defect (defect : Defect)
deriving DecidableEq, Repr

/-! ### Operations with a check -/

section Checks

variable {α β : Type}

/-- What a table has under a number. -/
def lookup (table : Table) (xs : List α) (i : Nat) : Except Breach α :=
  match xs[i]? with
  | some x => .ok x
  | none => .error (.outOfRange table i)

/-- The table with another value under a number. -/
def store (table : Table) (xs : List α) (i : Nat) (x : α) : Except Breach (List α) :=
  if i < xs.length then .ok (xs.set i x) else .error (.outOfRange table i)

/-- The place that is reached by counting around a ring. -/
def wrap (places n : Nat) : Except Breach Nat :=
  if places = 0 then .error .noPlaces else .ok (n % places)

/-- Count one more, with 64 bits. -/
def increment (n : Nat) : Except Breach Nat :=
  if n < 0xFFFFFFFFFFFFFFFF then .ok (n + 1) else .error (.overflow n)

/-- A value that has to be there. -/
def demand (b : Breach) : Option α → Except Breach α
  | some a => .ok a
  | none => .error b

/-- A condition that has to hold. -/
def insist (b : Breach) (p : Bool) : Except Breach Unit := if p then .ok () else .error b

@[simp] theorem ok_bind (a : α) (f : α → Except Breach β) : (Except.ok a >>= f) = f a := rfl

@[simp] theorem demand_some (b : Breach) (a : α) : demand b (some a) = .ok a := rfl

@[simp] theorem insist_true (b : Breach) : insist b true = .ok () := rfl

theorem lookup_of_getElem? {table : Table} {xs : List α} {i : Nat} {x : α} (h : xs[i]? = some x) :
    lookup table xs i = .ok x := by
  rw [lookup, h]

theorem store_of_lt {table : Table} {xs : List α} {i : Nat} (h : i < xs.length) (x : α) :
    store table xs i x = .ok (xs.set i x) :=
  if_pos h

theorem wrap_of_pos {places : Nat} (h : 0 < places) (n : Nat) : wrap places n = .ok (n % places) :=
  if_neg (Nat.ne_of_gt h)

theorem increment_of_lt {n : Nat} (h : n < 0xFFFFFFFFFFFFFFFF) : increment n = .ok (n + 1) :=
  if_pos h

/-- If every check succeeds, all of them do. -/
theorem mapM_eq_ok {f : α → Except Breach β} {xs : List α} {ys : List β}
    (hlength : xs.length = ys.length)
    (h : ∀ (i : Nat) x y, xs[i]? = some x → ys[i]? = some y → f x = .ok y) :
    xs.mapM f = .ok ys := by
  induction xs generalizing ys with
  | nil =>
    obtain rfl := List.length_eq_zero_iff.mp hlength.symm
    rfl
  | cons x xs ih =>
    obtain ⟨y, ys, rfl⟩ := List.exists_cons_of_length_eq_add_one hlength.symm
    have hfirst : f x = .ok y := h 0 x y rfl rfl
    have hrest : xs.mapM f = .ok ys :=
      ih (Nat.succ.inj hlength) fun i x y hx hy => h (i + 1) x y hx hy
    rw [List.mapM_cons, hfirst, hrest]
    rfl

theorem forM_eq_ok {f : α → Except Breach PUnit} {xs : List α} (h : ∀ x ∈ xs, f x = .ok ⟨⟩) :
    forM xs f = .ok ⟨⟩ := by
  induction xs with
  | nil => rfl
  | cons x xs ih =>
    have hrest := ih fun y hy => h y (List.mem_cons_of_mem x hy)
    rw [List.forM_cons, h x List.mem_cons_self]
    exact hrest

end Checks

/-! ### The ring -/

/-- A ring of places. -/
structure Ring where
  /-- The places; a free place has no entry. -/
  places : List (Option Entry)
  /-- Where the oldest entry stands. -/
  head : Tag
  /-- Where the next entry will stand. -/
  tail : Tag
  /-- How many entries there are. -/
  count : Nat
deriving DecidableEq, Repr

namespace Ring

/-- Are all places taken? -/
def isFull (b : Ring) : Bool := b.count == b.places.length

/-- The place that the next entry will get. -/
def next? (b : Ring) : Option Tag := if b.isFull then none else some b.tail

/-- The entry at a place. -/
def get? (b : Ring) (tag : Tag) : Option Entry := b.places[tag]?.join

/-- The result of the entry at a place, if it has arrived. -/
def readyValue? (b : Ring) (tag : Tag) : Option Word :=
  (b.get? tag).bind fun e => if e.ready then some e.result else none

/-- Let an instruction enter, if there is a free place. -/
def enter (b : Ring) (i : Instruction) : Except Breach (Option (Tag × Ring)) :=
  if b.isFull then .ok none
  else do
    let places ← store .window b.places b.tail (some { instruction := i })
    let tail ← wrap b.places.length (b.tail + 1)
    return some (b.tail, { b with places, tail, count := b.count + 1 })

/-- Deliver a result to the entry at a place. -/
def markReady? (b : Ring) (tag : Tag) (result : Word) : Option Ring :=
  (b.get? tag).map fun e =>
    { b with places := b.places.set tag (some { e with ready := true, result }) }

/-- Let the oldest entry leave, if its result has arrived. -/
def leave (b : Ring) : Except Breach (Option (Tag × Entry × Ring)) :=
  if b.count = 0 then .ok none
  else do
    let e ← demand (.gap b.head) (← lookup .window b.places b.head)
    if e.ready then
      let places ← store .window b.places b.head none
      let head ← wrap b.places.length (b.head + 1)
      return some (b.head, e, { b with places, head, count := b.count - 1 })
    else return none

/-- The entries with their places, oldest first. -/
def entries (b : Ring) : Except Breach (List (Tag × Entry)) :=
  (List.range b.count).mapM fun i => do
    let place ← wrap b.places.length (b.head + i)
    let e ← demand (.gap place) (← lookup .window b.places place)
    return (place, e)

end Ring

namespace ReorderBuffer

variable {b c : ReorderBuffer} {k : Nat} {o : Option Entry} {tag : Tag} {e : Entry}

/-- The ring that a reorder buffer describes. -/
def ring (b : ReorderBuffer) : Ring where
  places := (List.range b.capacity).map b.get?
  head := b.place b.departed
  tail := b.place b.next
  count := b.length

@[simp] theorem ring_get? (b : ReorderBuffer) (tag : Tag) : b.ring.get? tag = b.get? tag := by
  rw [Ring.get?, ring]
  by_cases htag : tag < b.capacity
  · simp [htag]
  · simp [htag, get?]

@[simp] theorem ring_readyValue? (b : ReorderBuffer) (tag : Tag) :
    b.ring.readyValue? tag = b.readyValue? tag := by
  rw [Ring.readyValue?, ring_get?]
  rfl

theorem ring_isFull (b : ReorderBuffer) : b.ring.isFull = b.isFull := by
  simp [Ring.isFull, ring, isFull]

theorem length_places (b : ReorderBuffer) : b.ring.places.length = b.capacity := by
  simp [ring]

/-- A place of the ring that is in range has what the tag has. -/
theorem getElem?_places (htag : tag < b.capacity) : b.ring.places[tag]? = some (b.get? tag) := by
  simp [ring, htag]

/-- If only entry number `k` has changed, only its place has changed, provided that no other entry
stands there. -/
theorem ring_of_nth? (hcapacity : c.capacity = b.capacity)
    (hnth : ∀ n, c.nth? n = if n = k then o else b.nth? n)
    (halone : ∀ n e, b.nth? n = some e → b.place n = b.place k → n = k) :
    c.ring =
      { places := b.ring.places.set (b.place k) o, head := b.place c.departed
        tail := b.place c.next, count := c.next - c.departed } := by
  have hget : ∀ tag, c.get? tag = if tag = b.place k then o else b.get? tag := by
    intro tag
    ext e
    rw [get?_eq_some_iff]
    simp only [place_congr hcapacity, hnth]
    by_cases htag : tag = b.place k
    · rw [if_pos htag]
      subst htag
      constructor
      · rintro ⟨n, hn, hplace⟩
        split at hn
        · exact hn
        · next hne => exact absurd (halone n e hn hplace) hne
      · exact fun ho => ⟨k, by rw [if_pos rfl, ho], rfl⟩
    · rw [if_neg htag, get?_eq_some_iff]
      refine exists_congr fun n => and_congr_left fun hplace => ?_
      have hne : n ≠ k := by
        rintro rfl
        exact htag hplace.symm
      rw [if_neg hne]
  have hplaces : c.ring.places = b.ring.places.set (b.place k) o := by
    apply List.ext_getElem?
    intro tag
    simp only [ring, hcapacity, List.getElem?_set, List.length_map, List.length_range]
    by_cases htag : tag < b.capacity
    · by_cases hk : b.place k = tag
      · simp [hget, htag, hk]
      · simp [hget, htag, hk, Ne.symm hk]
    · by_cases hk : b.place k = tag
      · simp [htag, hk]
      · simp [htag, hk]
  rw [Ring.mk.injEq]
  exact ⟨hplaces, place_congr hcapacity _, place_congr hcapacity _,
    (Nat.add_sub_cancel_left ..).symm⟩

/-- The places follow one another around the ring. -/
theorem wrap_place (hcapacity : 0 < b.capacity) (n k : Nat) :
    wrap b.ring.places.length (b.place n + k) = .ok (b.place (n + k)) := by
  rw [length_places, wrap_of_pos hcapacity, place, place, Nat.mod_add_mod]

theorem allocate?_eq_none_iff {i : Instruction} : b.allocate? i = none ↔ b.isFull = true := by
  have hle := b.length_le
  rw [allocate?, isFull, beq_iff_eq, length]
  split
  · next h => simp [Nat.ne_of_lt h]
  · next h => simp [Nat.le_antisymm hle (Nat.le_of_not_lt h)]

/-- The place that is announced is the one that the next entry gets. -/
theorem nextTag?_of_allocate? {i : Instruction} (h : b.allocate? i = some (tag, c)) :
    b.nextTag? = some tag := by
  have hfull : ¬b.isFull = true := fun hfull => by
    rw [allocate?_eq_none_iff.mpr hfull] at h
    cases h
  rw [nextTag?, if_neg hfull, (entered_of_allocate? h).tag_eq]
  rfl

/-- **The ring announces a place** as the reorder buffer does. -/
theorem ring_next? (b : ReorderBuffer) : b.ring.next? = b.nextTag? := by
  rw [Ring.next?, ring_isFull]
  rfl

/-- **An instruction enters the ring** as it enters the reorder buffer, and gets the place that was
announced. -/
theorem ring_enter (b : ReorderBuffer) (i : Instruction) :
    b.ring.enter i = .ok ((b.allocate? i).map fun x => (x.1, x.2.ring)) := by
  rw [Ring.enter, ring_isFull]
  cases halloc : b.allocate? i with
  | none =>
    have hfull := allocate?_eq_none_iff.mp halloc
    rw [if_pos hfull]
    rfl
  | some x =>
    obtain ⟨tag, c⟩ := x
    have hc := entered_of_allocate? halloc
    have hfull : ¬b.isFull = true := fun h => by
      rw [allocate?_eq_none_iff.mpr h] at halloc
      cases halloc
    have hpos : 0 < b.capacity := Nat.pos_of_ne_zero fun h => hfull (by
      have hle := b.length_le
      rw [isFull, beq_iff_eq, length]
      omega)
    have hring := ring_of_nth? hc.capacity hc.nth? fun n e hn hplace =>
      absurd (hplace.trans hc.tag_eq.symm) (hc.fresh n e hn)
    have hcount : b.next + 1 - b.departed = b.ring.count + 1 := by
      rw [next, Nat.add_assoc, Nat.add_sub_cancel_left]
      rfl
    rw [hc.departed, hc.next, hcount] at hring
    have htail : b.ring.tail < b.ring.places.length := by
      rw [length_places]
      exact Nat.mod_lt _ hpos
    rw [if_neg hfull, store_of_lt htail, show b.ring.tail = b.place b.next from rfl,
      wrap_place hpos, hc.tag_eq, Option.map_some, hring]
    rfl

/-- **A result is delivered to the ring** as it is delivered to the reorder buffer. -/
theorem ring_markReady? (b : ReorderBuffer) (tag : Tag) (result : Word) :
    b.ring.markReady? tag result = (b.markReady? tag result).map ring := by
  rw [Ring.markReady?, ring_get?]
  cases hget : b.get? tag with
  | none => simp [markReady?, hget]
  | some e =>
    obtain ⟨n, hn, rfl⟩ := get?_eq_some_iff.mp hget
    obtain ⟨c, hc, hcompleted⟩ := exists_completed result hn
    have hnth : ∀ m, c.nth? m =
        if m = n then some { e with ready := true, result } else b.nth? m := by
      intro m
      rw [hcompleted.nth?, hn]
      rfl
    have hring := ring_of_nth? hcompleted.capacity hnth fun m f hm hplace =>
      place_inj hm hn hplace
    have hcount : b.next - b.departed = b.ring.count := Nat.add_sub_cancel_left ..
    rw [hcompleted.departed, hcompleted.next, hcount] at hring
    rw [hc, Option.map_some, Option.map_some, hring]
    rfl

/-- The oldest entry stays only if its result has not arrived. -/
theorem unready_of_commit? (h : b.commit? = none) (he : b.nth? b.departed = some e) :
    e.ready = false := by
  have hfirst : b.entries[0]? = some e := by
    rw [← b.nth?_departed_add 0, Nat.add_zero, he]
  rw [commit?] at h
  split at h
  · next hentries =>
    rw [hentries] at hfirst
    cases hfirst
  · next f fs hentries =>
    rw [hentries] at hfirst
    obtain rfl := Option.some.inj hfirst
    split at h
    · cases h
    · next hready => exact Bool.eq_false_iff.mpr hready

/-- **The oldest entry leaves the ring** as it leaves the reorder buffer. -/
theorem ring_leave (b : ReorderBuffer) :
    b.ring.leave = .ok (b.commit?.map fun x => (x.1, x.2.1, x.2.2.ring)) := by
  rw [Ring.leave]
  by_cases hcount : b.ring.count = 0
  · have hentries : b.entries = [] := List.length_eq_zero_iff.mp hcount
    have hcommit : b.commit? = none := by
      rw [commit?]
      split
      · rfl
      · next h => rw [h] at hentries; cases hentries
    rw [if_pos hcount, hcommit]
    rfl
  · obtain ⟨e, he⟩ := exists_nth? (b := b) (Nat.le_refl b.departed)
      (by rw [next]; exact Nat.lt_add_of_pos_right (Nat.pos_of_ne_zero hcount))
    have hplace : b.place b.departed < b.capacity := place_lt he
    have hhead : b.ring.places[b.ring.head]? = some (some e) := by
      rw [show b.ring.head = b.place b.departed from rfl, getElem?_places hplace, get?_place he]
    have hlt : b.ring.head < b.ring.places.length := by
      rw [length_places]
      exact hplace
    rw [if_neg hcount, lookup_of_getElem? hhead, ok_bind, demand_some, ok_bind]
    cases hcommit : b.commit? with
    | none =>
      have hready : e.ready = false := b.unready_of_commit? hcommit he
      rw [if_neg (by rw [hready]; exact Bool.false_ne_true)]
      rfl
    | some x =>
      obtain ⟨tag, f, c⟩ := x
      have hc := left_of_commit? hcommit
      obtain rfl := Option.some.inj (he.symm.trans hc.oldest)
      have hring := ring_of_nth? hc.capacity hc.nth? fun n f hn hplace =>
        place_inj hn he hplace
      have hcount' : b.next - (b.departed + 1) = b.ring.count - 1 := by
        rw [next, ← Nat.sub_sub, Nat.add_sub_cancel_left]
        rfl
      rw [hc.departed, hc.next, hcount'] at hring
      rw [if_pos hc.ready, store_of_lt hlt, ok_bind,
        show b.ring.head = b.place b.departed from rfl,
        wrap_place (Nat.zero_lt_of_lt hplace), ok_bind, hc.tag_eq, Option.map_some, hring]
      rfl

/-- **The ring lists its entries** as the reorder buffer does: there is no gap between them. -/
theorem ring_entries (b : ReorderBuffer) : b.ring.entries = .ok b.toList := by
  refine mapM_eq_ok (by simp [ring, length, toList]) fun i j x hi hx => ?_
  obtain ⟨hn, hplace⟩ := nth?_of_toList hx
  obtain rfl : i = j := by simpa using (List.getElem?_eq_some_iff.mp hi).2
  have hrange : b.place (b.departed + i) < b.capacity := place_lt hn
  rw [show b.ring.head = b.place b.departed from rfl, wrap_place (Nat.zero_lt_of_lt hrange),
    ok_bind, lookup_of_getElem? (getElem?_places hrange), ok_bind, get?_place hn, demand_some,
    ok_bind, hplace]
  rfl

end ReorderBuffer

end OutOfOrder
