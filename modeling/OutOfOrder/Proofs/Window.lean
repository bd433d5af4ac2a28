import OutOfOrder.ReorderBuffer

/-!
# The entries of the window, by number

The tag of an entry is a place in a ring, and places are used again and again. Whatever has to be
said about two entries, one of which may leave while the other stays, is said about their numbers
instead: entry `n` is the one that was the `n`-th to enter, and it keeps this number until it leaves
and nobody gets it afterwards. A number determines a place, and as long as both entries are present
different numbers have different places. That is all that is ever needed of the ring.

## Main definitions

* `ReorderBuffer.nth?`, `ReorderBuffer.next` — the entry of a number, and the number to come
* `ReorderBuffer.place` — the tag that goes with a number
* `ReorderBuffer.Entered`, `Completed`, `Left` — what the three operations do, by number

## Main results

* `ReorderBuffer.place_inj` — entries that are present together have different tags
* `ReorderBuffer.get?_eq_some_iff` — looking up a tag finds the entry whose number has this place
* `ReorderBuffer.entered_of_allocate?`, `exists_completed`, `left_of_commit?`
-/

namespace OutOfOrder

namespace ReorderBuffer

variable {b c : ReorderBuffer} {m n : Nat} {e f : Entry} {tag : Tag}

/-- The number that the next entry will have. -/
def next (b : ReorderBuffer) : Nat := b.departed + b.entries.length

/-- The place of the entry with a number. -/
def place (b : ReorderBuffer) (n : Nat) : Tag := n % b.capacity

/-- The entry that was the `n`-th to enter, if it is present. -/
def nth? (b : ReorderBuffer) (n : Nat) : Option Entry :=
  if b.departed ≤ n then b.entries[n - b.departed]? else none

theorem nth?_departed_add (b : ReorderBuffer) (i : Nat) :
    b.nth? (b.departed + i) = b.entries[i]? := by
  rw [nth?, if_pos (Nat.le_add_right _ _), Nat.add_sub_cancel_left]

theorem nth?_of_isEmpty (h : b.isEmpty = true) (n : Nat) : b.nth? n = none := by
  rw [nth?, List.isEmpty_iff.mp h]
  split
  · rfl
  · rfl

/-- The numbers in use are consecutive. -/
theorem isSome_nth?_iff : (b.nth? n).isSome ↔ b.departed ≤ n ∧ n < b.next := by
  rw [nth?, next]
  split
  · rw [isSome_getElem?]
    omega
  · next h =>
    constructor
    · intro hn
      simp at hn
    · intro hn
      exact absurd hn.1 h

theorem bounds_of_nth? (h : b.nth? n = some e) : b.departed ≤ n ∧ n < b.next :=
  isSome_nth?_iff.mp (by rw [h]; rfl)

theorem exists_nth? (hlo : b.departed ≤ n) (hhi : n < b.next) : ∃ e, b.nth? n = some e :=
  Option.isSome_iff_exists.mp (isSome_nth?_iff.mpr ⟨hlo, hhi⟩)

/-- Numbers less than one round of the ring apart have different places. -/
theorem mem_entries_iff : e ∈ b.entries ↔ ∃ n, b.nth? n = some e := by
  constructor
  · intro h
    obtain ⟨i, hi⟩ := List.mem_iff_getElem?.mp h
    exact ⟨b.departed + i, (b.nth?_departed_add i).trans hi⟩
  · rintro ⟨n, hn⟩
    rw [nth?] at hn
    split at hn
    · exact List.mem_of_getElem? hn
    · cases hn

theorem eq_of_place_eq (h : b.place m = b.place n) (hmn : n < m + b.capacity)
    (hnm : m < n + b.capacity) : m = n := by
  have later : ∀ {i j : Nat}, b.place i = b.place j → i ≤ j → j < i + b.capacity → i = j := by
    intro i j hij hle hlt
    have hdvd : b.capacity ∣ j - i :=
      Nat.dvd_of_mod_eq_zero (Nat.sub_mod_eq_zero_of_mod_eq hij.symm)
    have := Nat.eq_zero_of_dvd_of_lt hdvd (by omega)
    omega
  rcases Nat.le_total m n with hle | hle
  · exact later h hle hmn
  · exact (later h.symm hle hnm).symm

/-- Entries that are present together have different tags. -/
theorem place_inj (hm : b.nth? m = some e) (hn : b.nth? n = some f)
    (h : b.place m = b.place n) : m = n := by
  have hcap := b.length_le
  have hmb := bounds_of_nth? hm
  have hnb := bounds_of_nth? hn
  rw [next] at hmb hnb
  exact eq_of_place_eq h (by omega) (by omega)

/-! ### Looking up a tag -/

/-- For a place in the ring, `distance` counts from the oldest entry to it. -/
theorem place_distance (htag : tag < b.capacity) :
    b.place (b.departed + b.distance tag) = tag := by
  have hd := Nat.mod_lt b.departed (Nat.zero_lt_of_lt htag)
  rw [place, distance, Nat.add_mod, Nat.mod_mod, ← Nat.add_mod_mod, Nat.mod_mod, Nat.add_mod_mod,
    show b.departed % b.capacity + (tag + b.capacity - b.departed % b.capacity)
      = tag + b.capacity by omega, Nat.add_mod_right, Nat.mod_eq_of_lt htag]

theorem distance_lt (htag : tag < b.capacity) : b.distance tag < b.capacity :=
  Nat.mod_lt _ (Nat.zero_lt_of_lt htag)

theorem place_lt (h : b.nth? n = some e) : b.place n < b.capacity := by
  have hb := bounds_of_nth? h
  have hcap := b.length_le
  rw [next] at hb
  exact Nat.mod_lt _ (by omega)

/-- For the place of an entry, `distance` counts to this entry. -/
theorem distance_place (h : b.nth? n = some e) : b.departed + b.distance (b.place n) = n := by
  have hb := bounds_of_nth? h
  have hcap := b.length_le
  have hlt := distance_lt (place_lt h)
  rw [next] at hb
  exact eq_of_place_eq (place_distance (place_lt h)) (by omega) (by omega)

/-- Looking up a tag finds the entry whose number has this place. -/
theorem get?_eq_some_iff : b.get? tag = some e ↔ ∃ n, b.nth? n = some e ∧ b.place n = tag := by
  constructor
  · intro h
    rw [get?] at h
    split at h
    · next htag => exact ⟨_, by rw [nth?_departed_add, h], place_distance htag⟩
    · simp at h
  · rintro ⟨n, hn, rfl⟩
    rw [get?, if_pos (place_lt hn), ← nth?_departed_add, distance_place hn, hn]

theorem get?_place (h : b.nth? n = some e) : b.get? (b.place n) = some e :=
  get?_eq_some_iff.mpr ⟨n, h, rfl⟩

theorem readyValue?_place (h : b.nth? n = some e) :
    b.readyValue? (b.place n) = if e.ready then some e.result else none := by
  rw [readyValue?, get?_place h]
  rfl

/-- The list of all entries has them in the order of their numbers. -/
theorem getElem?_toList (b : ReorderBuffer) (i : Nat) :
    b.toList[i]? = (b.nth? (b.departed + i)).map fun e => (b.place (b.departed + i), e) := by
  rw [nth?_departed_add, toList, List.getElem?_mapIdx]
  rfl

theorem exists_getElem?_toList (h : b.nth? n = some e) :
    ∃ i, n = b.departed + i ∧ b.toList[i]? = some (b.place n, e) := by
  obtain ⟨i, rfl⟩ := Nat.exists_eq_add_of_le (bounds_of_nth? h).1
  exact ⟨i, rfl, by rw [getElem?_toList, h]; rfl⟩

theorem nth?_of_toList {i : Nat} {u : Tag × Entry} (h : b.toList[i]? = some u) :
    b.nth? (b.departed + i) = some u.2 ∧ b.place (b.departed + i) = u.1 := by
  rw [getElem?_toList] at h
  obtain ⟨e, he, rfl⟩ := Option.map_eq_some_iff.mp h
  exact ⟨he, rfl⟩

/-! ### The three operations -/

/-- An instruction has entered `b`, which makes it `c`. -/
structure Entered (b : ReorderBuffer) (i : Instruction) (tag : Tag) (c : ReorderBuffer) :
    Prop where
  /-- It has got the place of the next number. -/
  tag_eq : tag = b.place b.next
  capacity : c.capacity = b.capacity
  departed : c.departed = b.departed
  next : c.next = b.next + 1
  /-- It has the next number and no result, and nothing else has changed. -/
  nth? : ∀ n, c.nth? n = if n = b.next then some { instruction := i } else b.nth? n
  /-- The place was free. -/
  fresh : ∀ n e, b.nth? n = some e → b.place n ≠ tag

/-- A result has been delivered to entry `n` of `b`, which makes it `c`. -/
structure Completed (b : ReorderBuffer) (n : Nat) (result : Word) (c : ReorderBuffer) :
    Prop where
  capacity : c.capacity = b.capacity
  departed : c.departed = b.departed
  next : c.next = b.next
  nth? : ∀ m, c.nth? m =
    if m = n then (b.nth? n).map fun e => { e with ready := true, result } else b.nth? m

/-- The oldest entry, `e`, has left `b`, which makes it `c`. -/
structure Left (b : ReorderBuffer) (tag : Tag) (e : Entry) (c : ReorderBuffer) : Prop where
  tag_eq : tag = b.place b.departed
  /-- It was the oldest one, and had its result. -/
  oldest : b.nth? b.departed = some e
  ready : e.ready = true
  capacity : c.capacity = b.capacity
  departed : c.departed = b.departed + 1
  next : c.next = b.next
  nth? : ∀ n, c.nth? n = if n = b.departed then none else b.nth? n

theorem entered_of_allocate? {i : Instruction} (h : b.allocate? i = some (tag, c)) :
    b.Entered i tag c := by
  rw [allocate?] at h
  split at h
  · next hroom =>
    simp only [Option.some.injEq, Prod.mk.injEq] at h
    obtain ⟨rfl, rfl⟩ := h
    refine ⟨rfl, rfl, rfl, ?_, ?_, ?_⟩
    · simp only [next, List.length_append, List.length_singleton]
      omega
    · intro n
      change (if b.departed ≤ n then (b.entries ++ [_])[n - b.departed]? else none) = _
      rcases Nat.lt_trichotomy n b.next with hlt | rfl | hgt
      · rw [if_neg (Nat.ne_of_lt hlt), nth?]
        rw [next] at hlt
        split
        · rw [List.getElem?_append_left (by omega)]
        · rfl
      · rw [if_pos rfl]
        simp [next]
      · rw [if_neg (Nat.ne_of_gt hgt), nth?]
        rw [next] at hgt
        rw [if_pos (by omega), if_pos (by omega), List.getElem?_eq_none (by simp; omega),
          List.getElem?_eq_none (by omega)]
    · intro n e hn he
      have hb := bounds_of_nth? hn
      rw [next] at hb
      have := eq_of_place_eq (n := b.departed + b.entries.length) he (by omega) (by omega)
      omega
  · simp at h

/-- Places depend on the capacity only. -/
theorem place_congr (h : c.capacity = b.capacity) (n : Nat) : c.place n = b.place n := by
  rw [place, place, h]

theorem Entered.place {i : Instruction} (h : b.Entered i tag c) (n : Nat) :
    c.place n = b.place n :=
  place_congr h.capacity n

/-- Only one entry is new. -/
theorem Entered.before {i : Instruction} (h : b.Entered i tag c) (hn : c.nth? n = some e) :
    n = b.next ∧ e = { instruction := i } ∨ b.nth? n = some e := by
  rw [h.nth?] at hn
  split at hn
  · next heq => exact .inl ⟨heq, (Option.some.inj hn).symm⟩
  · exact .inr hn

theorem Entered.newest {i : Instruction} (h : b.Entered i tag c) :
    c.nth? b.next = some { instruction := i } := by
  rw [h.nth?, if_pos rfl]

theorem Entered.kept {i : Instruction} (h : b.Entered i tag c) (hn : b.nth? n = some e) :
    c.nth? n = some e := by
  rw [h.nth?, if_neg (Nat.ne_of_lt (bounds_of_nth? hn).2), hn]

theorem exists_completed (result : Word) (hn : b.nth? n = some e) :
    ∃ c, b.markReady? (b.place n) result = some c ∧ b.Completed n result c := by
  have hb := bounds_of_nth? hn
  have hdist := distance_place hn
  rw [markReady?, get?_place hn, if_pos (Option.isSome_some)]
  refine ⟨_, rfl, rfl, rfl, by simp [next], fun m => ?_⟩
  change (if b.departed ≤ m then (b.entries.modify _ _)[m - b.departed]? else none) = _
  rw [List.getElem?_modify]
  by_cases hmn : m = n
  · subst hmn
    have heq : b.distance (b.place m) = m - b.departed := by omega
    rw [if_pos hb.1, if_pos rfl, nth?, if_pos hb.1, heq]
    simp
  · rw [if_neg hmn, nth?]
    split
    · have hne : b.distance (b.place n) ≠ m - b.departed := by omega
      simp [hne]
    · rfl

theorem Completed.place {v : Word} (h : b.Completed n v c) (m : Nat) : c.place m = b.place m :=
  place_congr h.capacity m

/-- A result that arrives leaves the instructions alone, and of the entries all but its own. -/
theorem Completed.before {v : Word} (h : b.Completed n v c) (hm : c.nth? m = some e) :
    ∃ f, b.nth? m = some f ∧ f.instruction = e.instruction ∧ (m ≠ n → f = e) ∧
      (m = n → e.ready = true ∧ e.result = v) := by
  rw [h.nth?] at hm
  by_cases hmn : m = n
  · subst hmn
    rw [if_pos rfl] at hm
    obtain ⟨f, hf, rfl⟩ := Option.map_eq_some_iff.mp hm
    exact ⟨f, hf, rfl, fun h => absurd rfl h, fun _ => ⟨rfl, rfl⟩⟩
  · rw [if_neg hmn] at hm
    exact ⟨e, hm, rfl, fun _ => rfl, fun h => absurd h hmn⟩

theorem left_of_commit? (h : b.commit? = some (tag, e, c)) : b.Left tag e c := by
  rw [commit?] at h
  split at h
  · simp at h
  · next e' es hentries =>
    split at h
    · next hready =>
      simp only [Option.some.injEq, Prod.mk.injEq] at h
      obtain ⟨rfl, rfl, rfl⟩ := h
      refine ⟨rfl, ?_, hready, rfl, rfl, ?_, fun n => ?_⟩
      · have := b.nth?_departed_add 0
        rw [Nat.add_zero] at this
        rw [this, hentries]
        rfl
      · simp only [next, hentries, List.length_cons]
        omega
      · simp only [nth?, hentries]
        rcases Nat.lt_trichotomy n b.departed with hlt | heq | hgt
        · rw [if_neg (by omega), if_neg (by omega), if_neg (by omega)]
        · rw [if_neg (by omega), if_pos heq]
        · rw [if_pos (by omega), if_neg (by omega), if_pos (by omega),
            show n - b.departed = n - (b.departed + 1) + 1 by omega, List.getElem?_cons_succ]
    · simp at h

theorem Left.place (h : b.Left tag e c) (n : Nat) : c.place n = b.place n :=
  place_congr h.capacity n

/-- Nothing new comes in when an entry leaves. -/
theorem Left.before (h : b.Left tag e c) (hn : c.nth? n = some f) : b.nth? n = some f := by
  rw [h.nth?] at hn
  split at hn
  · simp at hn
  · exact hn

/-- An entry without a result stays. -/
theorem Left.kept (h : b.Left tag e c) (hn : b.nth? n = some f) (hf : f.ready = false) :
    n ≠ b.departed ∧ c.nth? n = some f := by
  have hne : n ≠ b.departed := by
    rintro rfl
    obtain rfl := Option.some.inj (hn.symm.trans h.oldest)
    rw [h.ready] at hf
    simp at hf
  exact ⟨hne, by rw [h.nth?, if_neg hne, hn]⟩

end ReorderBuffer

end OutOfOrder
