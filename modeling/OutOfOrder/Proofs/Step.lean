import OutOfOrder.Core.History
import OutOfOrder.Proofs.Decoding
import OutOfOrder.Proofs.Pool
import Mathlib.Logic.Relation

/-!
# What can happen within a cycle

A cycle of the core is long: it issues, publishes, starts any number of instructions, delivers a
result and retires an instruction, and may stop in the middle. What it can do is said here once, as
a list of steps each of which changes the core in one way and says when it is possible.

The contradictions that the core checks for do not appear among the steps. That they never happen is
part of the claim that steps are all there is.

## Main definitions

* `Core.issuing`, `publishing`, `starting`, `delivering`, `retiring` — the core after each change
* `Snapshot` — the core with its queue and its memory, at any moment
* `Snapshot.Step` — what can happen
* `Snapshot.tick` — the snapshot after a cycle
-/

namespace OutOfOrder

namespace Core

/-- The core once an instruction has been given its tag and its station. -/
def issuing (c : Core) (i : Instruction) (tag : Tag) (window : ReorderBuffer)
    (stations : Stations) : Core :=
  { c with window, stations, aliases := c.aliasesWith i tag }

/-- The core once the result of a unit has gone to the bus. -/
def publishing (c : Core) (k : UnitKind) (o : Completion) : Core :=
  { c with
    units := c.units.set k { c.units.get k with work := none }
    bus := { current := some o.broadcast } }

/-- What a station hands to its unit. -/
def completion (slot : Slot) (s : Station) (e : Effect) : Completion :=
  { result := e.result, tag := s.tag, slot, uuid := s.uuid, redirect := e.redirect }

/-- The core once a station has started with a given effect. -/
def starting (c : Core) (slot : Slot) (s : Station) (e : Effect) : Core :=
  { c with
    csrs := e.csrs
    units := c.units.set s.unit ((c.units.get s.unit).begin (completion slot s e))
    stations := c.stations.markRunning slot s }

/-- The core once a result has been delivered. -/
def delivering (c : Core) (r : Broadcast) : Core :=
  { c with
    bus := .empty
    stations := (c.stations.broadcast r.tag r.result).release r.slot
    window := (c.window.markReady? r.tag r.result).getD c.window
    redirect := r.redirect.or c.redirect }

/-- The core once the oldest instruction has retired. -/
def retiring (c : Core) (tag : Tag) (e : Entry) (window : ReorderBuffer) : Core :=
  { c with window }.committing tag e

section Retiring

variable (c : Core) (tag : Tag) (e : Entry) (w : ReorderBuffer)

/-- Retirement changes the registers and the aliases, and of the rest only the obvious. -/
theorem retiring_eq : ∃ registers aliases, c.retiring tag e w =
    { c with
      window := w, registers, aliases, retired := c.retired + 1
      halted := c.halted || e.instruction.isExit } := by
  rw [retiring, committing]
  split
  · exact ⟨_, _, rfl⟩
  · exact ⟨_, _, rfl⟩

@[simp] theorem retiring_window : (c.retiring tag e w).window = w := by
  obtain ⟨_, _, heq⟩ := c.retiring_eq tag e w
  rw [heq]

@[simp] theorem retiring_stations : (c.retiring tag e w).stations = c.stations := by
  obtain ⟨_, _, heq⟩ := c.retiring_eq tag e w
  rw [heq]

@[simp] theorem retiring_units : (c.retiring tag e w).units = c.units := by
  obtain ⟨_, _, heq⟩ := c.retiring_eq tag e w
  rw [heq]

@[simp] theorem retiring_bus : (c.retiring tag e w).bus = c.bus := by
  obtain ⟨_, _, heq⟩ := c.retiring_eq tag e w
  rw [heq]

@[simp] theorem retiring_csrs : (c.retiring tag e w).csrs = c.csrs := by
  obtain ⟨_, _, heq⟩ := c.retiring_eq tag e w
  rw [heq]

@[simp] theorem retiring_cycle : (c.retiring tag e w).cycle = c.cycle := by
  obtain ⟨_, _, heq⟩ := c.retiring_eq tag e w
  rw [heq]

@[simp] theorem retiring_retired : (c.retiring tag e w).retired = c.retired + 1 := by
  obtain ⟨_, _, heq⟩ := c.retiring_eq tag e w
  rw [heq]

@[simp] theorem retiring_redirect : (c.retiring tag e w).redirect = c.redirect := by
  obtain ⟨_, _, heq⟩ := c.retiring_eq tag e w
  rw [heq]

@[simp] theorem retiring_halted :
    (c.retiring tag e w).halted = (c.halted || e.instruction.isExit) := by
  obtain ⟨_, _, heq⟩ := c.retiring_eq tag e w
  rw [heq]

theorem registers_retiring : (c.retiring tag e w).registers =
    match e.instruction.dest with
    | some r => c.registers.write r e.result
    | none => c.registers := by
  rw [retiring, committing]
  cases e.instruction.dest <;> rfl

theorem aliases_retiring : (c.retiring tag e w).aliases =
    match e.instruction.dest with
    | some r => c.aliases.release r tag
    | none => c.aliases := by
  rw [retiring, committing]
  cases e.instruction.dest <;> rfl

end Retiring

end Core

/-- The core with its queue and its memory. -/
structure Snapshot where
  core : Core
  queue : IssueQueue
  memory : Memory

namespace Snapshot

/-- What can happen within a cycle. -/
inductive Step : Snapshot → Snapshot → Prop where
  /-- The counters, the cycle count and the arbiter move. -/
  | count {s : Snapshot} (csrs : CsrFile) (arbiter : Arbiter) (cycle : Nat)
      (hcells : csrs.cells = s.core.csrs.cells) :
      Step s { s with core := { s.core with csrs, arbiter, cycle } }
  /-- The instruction in front of the queue is issued. -/
  | issue {s : Snapshot} {i : Instruction} {rest : IssueQueue} {tag : Tag} {slot : Slot}
      {window : ReorderBuffer} {stations : Stations} (hpop : s.queue.pop? = some (i, rest))
      (hwindow : s.core.window.allocate? i = some (tag, window))
      (hstations : s.core.stations.allocate? (s.core.stationFor i tag) = some (slot, stations)) :
      Step s { s with core := s.core.issuing i tag window stations, queue := rest }
  /-- The units work for a cycle. -/
  | advance {s : Snapshot} : Step s { s with core := s.core.advanceUnits }
  /-- A finished result goes to the free bus. -/
  | publish {s : Snapshot} {k : UnitKind} {o : Completion} (hbus : s.core.bus.current = none)
      (hdone : (s.core.units.get k).output? = some o) :
      Step s { s with core := s.core.publishing k o }
  /-- A station that may start does so on a free unit. -/
  | start {s : Snapshot} {slot : Slot} {t : Station} {entry : Entry} {a b : Word} {e : Effect}
      (ht : s.core.stations.Eligible slot t) (hfree : (s.core.units.get t.unit).work = none)
      (hentry : s.core.window.get? t.tag = some entry) (ha : t.src1 = .ready a)
      (hb : t.src2 = .ready b)
      (heffect : entry.instruction.compute a b s.memory s.core.csrs = .ok e) :
      Step s { s with core := s.core.starting slot t e, memory := e.memory }
  /-- The result on the bus is delivered. -/
  | deliver {s : Snapshot} {r : Broadcast} (hbus : s.core.bus.current = some r) :
      Step s { s with core := s.core.delivering r }
  /-- The oldest instruction retires. -/
  | retire {s : Snapshot} {tag : Tag} {e : Entry} {window : ReorderBuffer}
      (hcommit : s.core.window.commit? = some (tag, e, window)) :
      Step s { s with core := s.core.retiring tag e window }

/-- Any number of steps. -/
abbrev Steps : Snapshot → Snapshot → Prop := Relation.ReflTransGen Step

/-- The snapshot after a cycle. -/
def tick (s : Snapshot) : Snapshot :=
  let t := s.core.tick s.queue s.memory
  { core := t.core, queue := t.queue, memory := t.memory }

end Snapshot

end OutOfOrder
