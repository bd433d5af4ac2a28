import OutOfOrder.Proofs.Guards

/-!
# An instruction enters as a whole or not at all

Issue changes four structures: the instruction leaves the queue, enters the reorder buffer, takes a
station and renames its destination. Both the reorder buffer and the pool of stations may have no
room for it. Then none of the four changes, and what is reported names the first of the two that is
full.

What an instruction takes along as its operands is found through the alias table. Said without this
table it is what program order asks for: the youngest instruction in flight that writes the source
register decides, and the register file if there is none. The instruction itself is not yet in
flight when it looks, so one that reads the register it writes sees its predecessor.

## Main definitions

* `ReorderBuffer.youngestWriter?` — who in flight writes a register last
* `Core.captured` — an operand as program order has it
* `Core.Admits` — an instruction has entered, and nothing else has changed

## Main results

* `Core.Renamed.operand_eq` — the alias table finds what program order asks for
* `Core.Renamed.admits` — what the three structures do, put together
* `System.Reachable.issue_whole_or_nothing` — one attempt to issue
-/

namespace OutOfOrder

/-! ### The structures -/

/-- Looking from the end of a list finds the last one that passes. -/
theorem find?_reverse_of_last {α : Type} {p : α → Bool} {l : List α} {i : Nat} {a : α}
    (hi : l[i]? = some a) (ha : p a = true)
    (hlast : ∀ (j : Nat) (b : α), i < j → l[j]? = some b → p b = false) :
    l.reverse.find? p = some a := by
  induction l generalizing i with
  | nil => simp at hi
  | cons x l ih =>
    rw [List.reverse_cons, List.find?_append]
    cases i with
    | zero =>
      obtain rfl : x = a := Option.some.inj hi
      have hnone : l.reverse.find? p = none := by
        refine List.find?_eq_none.mpr fun b hb => ?_
        obtain ⟨j, hj⟩ := List.mem_iff_getElem?.mp (List.mem_reverse.mp hb)
        rw [hlast (j + 1) b (Nat.succ_pos j) hj]
        exact Bool.false_ne_true
      rw [hnone, Option.none_or, List.find?_cons_of_pos ha]
    | succ i =>
      rw [ih hi fun j b hij hj => hlast (j + 1) b (Nat.succ_lt_succ hij) hj, Option.some_or]

namespace ReorderBuffer

variable {b c : ReorderBuffer} {i : Instruction} {tag : Tag}

/-- The youngest entry that writes a register, with its tag. -/
def youngestWriter? (b : ReorderBuffer) (r : Reg) : Option (Tag × Entry) :=
  b.toList.reverse.find? fun u => u.2.instruction.dest == some r

/-- A new entry comes last. -/
theorem toList_of_allocate? (h : b.allocate? i = some (tag, c)) :
    c.toList = b.toList ++ [(tag, { instruction := i })] := by
  rw [allocate?] at h
  split at h
  · obtain ⟨rfl, rfl⟩ := Prod.mk.inj (Option.some.inj h)
    exact List.mapIdx_concat
  · cases h

/-- A new entry is found under its tag, and the others under theirs. -/
theorem Entered.get? (h : b.Entered i tag c) (k : Tag) :
    c.get? k = if k = tag then some { instruction := i } else b.get? k := by
  have hnew : c.get? tag = some { instruction := i } :=
    get?_eq_some_iff.mpr ⟨b.next, h.newest, (h.place _).trans h.tag_eq.symm⟩
  split
  · next hk => rw [hk, hnew]
  · next hk =>
    refine Option.ext fun e => ?_
    rw [get?_eq_some_iff, get?_eq_some_iff]
    refine exists_congr fun n => ?_
    rw [h.place]
    constructor
    · rintro ⟨hn, hplace⟩
      rcases h.before hn with ⟨rfl, -⟩ | hn
      · exact absurd (hplace.symm.trans h.tag_eq.symm) hk
      · exact ⟨hn, hplace⟩
    · exact fun hn => ⟨h.kept hn.1, hn.2⟩

end ReorderBuffer

namespace Core

variable {c : Core} {i : Instruction} {tag : Tag} {slot : Slot}

/-! ### Operands -/

/-- An operand of an instruction that enters now, as program order has it: the result of the
youngest writer of its register in flight, the tag of this writer as long as there is no result, and
the committed register if nobody in flight writes it. An operand that is not in use is zero. -/
def captured (c : Core) (i : Instruction) (x : Source) : Operand :=
  if i.uses x then
    match c.window.youngestWriter? (i.source x) with
    | none => .ready (c.registers.read (i.source x))
    | some (tag, e) => if e.ready then .ready e.result else .pending tag
  else .ready 0

/-- The alias table has the youngest writer of every register. -/
theorem Renamed.youngestWriter?_eq (hr : c.Renamed) (r : Reg) :
    c.window.youngestWriter? r =
      (c.aliases.get r).bind fun tag => (c.window.get? tag).map fun e => (tag, e) := by
  cases halias : c.aliases.get r with
  | none =>
    refine List.find?_eq_none.mpr fun u hu => ?_
    rw [beq_iff_eq]
    exact hr.alias_eq_none_iff.mp halias u (List.mem_reverse.mp hu)
  | some tag =>
    obtain ⟨i, e, hi, hdest, hyounger⟩ := hr.alias_iff_toList.mp halias
    obtain ⟨he, hplace⟩ := ReorderBuffer.nth?_of_toList hi
    have hget : c.window.get? tag = some e := ReorderBuffer.get?_eq_some_iff.mpr ⟨_, he, hplace⟩
    rw [Option.bind_some, hget, Option.map_some]
    refine find?_reverse_of_last hi (beq_iff_eq.mpr hdest) fun j u hij hj => ?_
    exact beq_eq_false_iff_ne.mpr (hyounger j u hij hj)

/-- **The alias table finds what program order asks for.** -/
theorem Renamed.operand_eq (hr : c.Renamed) (i : Instruction) (x : Source) :
    c.operand (i.uses x) (i.source x) = c.captured i x := by
  rw [operand, captured]
  split
  · rw [hr.youngestWriter?_eq]
    cases halias : c.aliases.get (i.source x) with
    | none => rfl
    | some tag =>
      obtain ⟨n, hlast, hplace⟩ := hr.alias_iff.mp halias
      obtain ⟨e, he, -⟩ := hlast.writes
      have hget : c.window.get? tag = some e := hplace ▸ ReorderBuffer.get?_place he
      rw [Option.bind_some, hget, Option.map_some]
      dsimp only
      rw [ReorderBuffer.readyValue?, hget, Option.bind_some]
      cases e.ready <;> rfl
  · rfl

/-! ### Entering -/

/-- Instruction `i` has entered core `c` under `tag` and with the station `slot`, which has made the
core `d`. Nothing else has changed. -/
structure Admits (c : Core) (i : Instruction) (tag : Tag) (slot : Slot) (d : Core) : Prop where
  /-- It has got the place that was announced. -/
  announced : c.window.nextTag? = some tag
  /-- It is the youngest entry and has no result. -/
  youngest : d.window.toList =
    c.window.toList ++ [(tag, { instruction := i, ready := false, result := 0 })]
  /-- Under all other tags stands what stood there. -/
  entry : ∀ k, d.window.get? k =
    if k = tag then some { instruction := i, ready := false, result := 0 } else c.window.get? k
  /-- Its station was free, -/
  free : c.stations.get? slot = none
  /-- and is the lowest one that was. -/
  lowest : ∀ k, k < slot → ∃ t, c.stations.get? k = some t
  /-- It waits there with its operands, and the other stations are as they were. -/
  station : ∀ k, d.stations.get? k =
    if k = slot then
      some
        { tag, uuid := i.uuid, unit := i.unit, src1 := c.captured i .first
          src2 := c.captured i .second, running := false }
    else c.stations.get? k
  /-- It is the youngest writer of its destination, and the other registers have those they had. -/
  renamed : ∀ r, d.aliases.get r = if i.dest = some r then some tag else c.aliases.get r
  /-- Neither structure has grown. -/
  sizes : d.window.capacity = c.window.capacity ∧ d.stations.capacity = c.stations.capacity
  /-- Registers, units, bus and all the rest are as they were. -/
  rest : d = { c with window := d.window, stations := d.stations, aliases := d.aliases }

theorem Renamed.admits {window : ReorderBuffer} {stations : Stations} (hr : c.Renamed)
    (hi : i.dest ≠ some 0) (hwindow : c.window.allocate? i = some (tag, window))
    (hstations : c.stations.allocate? (c.stationFor i tag) = some (slot, stations)) :
    c.Admits i tag slot (c.issuing i tag window stations) := by
  have hentered := ReorderBuffer.entered_of_allocate? hwindow
  obtain ⟨hfree, hget⟩ := Stations.get?_allocate hstations
  have hstation : c.stationFor i tag =
      { tag, uuid := i.uuid, unit := i.unit, src1 := c.captured i .first
        src2 := c.captured i .second, running := false } := by
    rw [← hr.operand_eq i .first, ← hr.operand_eq i .second]
    rfl
  exact
    { announced := ReorderBuffer.nextTag?_of_allocate? hwindow
      youngest := ReorderBuffer.toList_of_allocate? hwindow
      entry := hentered.get?
      free := hfree
      lowest := fun _ hk => Stations.get?_of_lt_allocate hstations hk
      station := hstation ▸ hget
      renamed := get_aliasesWith hi
      sizes := ⟨hentered.capacity, Stations.capacity_allocate hstations⟩
      rest := rfl }

end Core

/-! ### One attempt to issue -/

namespace System.Reachable

variable {st : CoreSettings} {n : Nat} {m : Memory} {s : System}

/-- **An instruction enters as a whole or not at all.** Whatever its counters show, a core issues
from a queue of decoded instructions in one of four ways. Nothing changes: because the queue is
empty, and nothing is reported; or because the reorder buffer is full, and this is reported once; or
because only the stations are all in use, and that is. Or the instruction in front leaves the queue
and enters, with its operands as program order has them. -/
theorem issue_whole_or_nothing (h : Reachable st n m s) (csrs : CsrFile) {q : IssueQueue}
    (hq : ∀ i ∈ q.waiting, decode i.word i.pc i.uuid = .ok i) :
    let c : Core := { s.core with csrs }
    let t := c.issue q
    (t.core = c ∧ t.queue = q ∧
        (q.waiting = [] ∧ t.events = [] ∨
          q.waiting ≠ [] ∧ c.window.isFull = true ∧ t.events = [.stall .windowFull] ∨
          q.waiting ≠ [] ∧ c.window.isFull = false ∧ c.stations.isFull = true ∧
            t.events = [.stall .stationsFull])) ∨
      ∃ i rest tag slot, q.waiting = i :: rest ∧ t.queue = { q with waiting := rest } ∧
        c.window.isFull = false ∧ c.stations.isFull = false ∧ c.Admits i tag slot t.core ∧
        t.events = [.issue i tag slot (c.captured i .first) (c.captured i .second),
          .pool t.core.pool] := by
  intro c t
  have hr : c.Renamed := h.sound.renamed.congr rfl rfl rfl
  obtain ⟨size, waiting⟩ := q
  cases waiting with
  | nil => exact .inl ⟨rfl, rfl, .inl ⟨rfl, rfl⟩⟩
  | cons i rest =>
    have hi : i.Decoded := hq i List.mem_cons_self
    have hnonempty : i :: rest ≠ [] := List.cons_ne_nil i rest
    cases hwindow : c.window.allocate? i with
    | none =>
      have ht : t = { core := c, queue := ⟨size, i :: rest⟩, events := [.stall .windowFull] } := by
        simp only [t, Core.issue, IssueQueue.pop?, hwindow]
      have hfull := ReorderBuffer.allocate?_eq_none_iff.mp hwindow
      rw [ht]
      exact .inl ⟨rfl, rfl, .inr (.inl ⟨hnonempty, hfull, rfl⟩)⟩
    | some x =>
      obtain ⟨tag, window⟩ := x
      have hroom : c.window.isFull = false := by
        rw [← Bool.not_eq_true, ← ReorderBuffer.allocate?_eq_none_iff (i := i), hwindow]
        exact Option.some_ne_none _
      cases hstations : c.stations.allocate? (c.stationFor i tag) with
      | none =>
        have ht : t = { core := c, queue := ⟨size, i :: rest⟩, events := [.stall .stationsFull] } := by
          simp only [t, Core.issue, IssueQueue.pop?, hwindow, hstations]
        have hfull := Stations.allocate?_eq_none_iff.mp hstations
        rw [ht]
        exact .inl ⟨rfl, rfl, .inr (.inr ⟨hnonempty, hroom, hfull, rfl⟩)⟩
      | some y =>
        obtain ⟨slot, stations⟩ := y
        have ht : t =
            { core := c.issuing i tag window stations, queue := { capacity := size, waiting := rest }
              events := [.issue i tag slot (c.stationFor i tag).src1 (c.stationFor i tag).src2,
                .pool (c.issuing i tag window stations).pool] } := by
          simp only [t, Core.issue, IssueQueue.pop?, hwindow, hstations]
          rfl
        have hplace : c.stations.isFull = false := by
          rw [← Bool.not_eq_true, ← Stations.allocate?_eq_none_iff (s := c.stationFor i tag),
            hstations]
          exact Option.some_ne_none _
        have hfirst : (c.stationFor i tag).src1 = c.captured i .first := hr.operand_eq i .first
        have hsecond : (c.stationFor i tag).src2 = c.captured i .second := hr.operand_eq i .second
        rw [ht, hfirst, hsecond]
        exact .inr ⟨i, rest, tag, slot, rfl, rfl, hroom, hplace,
          hr.admits hi.dest_ne_zero hwindow hstations, rfl⟩

/-- A register is incremented while its old value is still being computed: the instruction waits for
place zero, and becomes the youngest writer of the register under a tag of its own. -/
theorem issue_whole_or_nothing_increment :
    let s := ((System.new { windowSize := 2, stationCount := 2 } 4 (.empty 0 16)).offer
      0x00500093 0 0).tick
    ∃ i slot, decode 0x00108093 4 1 = .ok i ∧
      let t := s.core.issue { capacity := 1, waiting := [i] }
      t.queue.waiting = [] ∧ s.core.Admits i 1 slot t.core ∧
        s.core.captured i .first = .pending 0 := by
  intro s
  have h : Reachable { windowSize := 2, stationCount := 2 } 4 (.empty 0 16) s :=
    (Reachable.new.offer 0x00500093 0 0).tick
  obtain ⟨i, hi, huses, hsource⟩ : ∃ i, decode 0x00108093 4 1 = .ok i ∧
      i.uses .first = true ∧ i.source .first = 1 := ⟨_, rfl, rfl, rfl⟩
  have hnext : s.core.window.nextTag? = some 1 := rfl
  have hfirst : s.core.captured i .first = .pending 0 := by
    have hr : s.core.Renamed := h.sound.renamed
    rw [← hr.operand_eq, huses, hsource]
    decide
  have hq : ∀ j ∈ ({ capacity := 1, waiting := [i] } : IssueQueue).waiting,
      decode j.word j.pc j.uuid = .ok j := by
    intro j hj
    obtain rfl := List.mem_singleton.mp hj
    exact decoded_of_decode hi
  rcases issue_whole_or_nothing h s.core.csrs hq with
    ⟨-, -, ⟨hempty, -⟩ | ⟨-, hfull, -⟩ | ⟨-, -, hfull, -⟩⟩ |
    ⟨j, rest, tag, slot, hwaiting, hqueue, -, -, hadmits, -⟩
  · cases hempty
  · cases hfull
  · cases hfull
  · obtain ⟨rfl, rfl⟩ := List.cons.inj hwaiting
    obtain rfl := Option.some.inj (hadmits.announced.symm.trans hnext)
    exact ⟨i, slot, hi, congrArg IssueQueue.waiting hqueue, hadmits, hfirst⟩

end System.Reachable

end OutOfOrder
