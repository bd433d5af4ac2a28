import OutOfOrder.AliasTable
import OutOfOrder.Instruction.Control

/-!
# Reservation stations

An instruction that has entered the reorder buffer waits in a reservation station until both of
its operands are known and its functional unit is free, and keeps the station until its result has
been broadcast. Wake-up is by comparison: every station compares the tags it waits for with the tag
of each broadcast, so any number of operands may wait for the same result.

Loads and stores have to start in program order, and so have accesses to control and status
registers. A station of such a unit is locked as long as an older instruction for the same unit
has a station.

## Main definitions

* `Operand`, `Station`, `Stations` — the operands, one station, the pool
* `Stations.allocate?`, `Stations.start?`, `Stations.broadcast`, `Stations.release` — what happens
  to a station, in this order
* `Stations.isLocked`, `Stations.dispatchable` — who may start, the oldest first

Age is the serial number of the fetch, and of two equal numbers the lower slot counts as older.
-/

namespace OutOfOrder

/-- A source operand. -/
inductive Operand where
  /-- The value is known. -/
  | ready (value : Word)
  /-- The value will be the result of the instruction with this tag. -/
  | pending (tag : Tag)
deriving DecidableEq, Repr

namespace Operand

/-- The value, if it is known. -/
def value? : Operand → Option Word
  | ready v => some v
  | pending _ => none

/-- Is the value known? -/
def isReady (o : Operand) : Bool := o.value?.isSome

/-- The operand after a broadcast. -/
def wake (tag : Tag) (value : Word) (o : Operand) : Operand :=
  if o = pending tag then ready value else o

end Operand

/-- The place of a reservation station in the pool. -/
abbrev Slot := Nat

/-- A reservation station in use. -/
structure Station where
  /-- The place of the instruction in the reorder buffer. -/
  tag : Tag
  /-- The serial number of the instruction. -/
  uuid : Nat
  /-- The unit that will execute it. -/
  unit : UnitKind
  /-- The first operand. -/
  src1 : Operand
  /-- The second operand. -/
  src2 : Operand
  /-- Has the unit started? -/
  running : Bool := false
deriving DecidableEq, Repr

namespace Station

/-- Are both operands known? -/
def operandsReady (s : Station) : Bool := s.src1.isReady && s.src2.isReady

/-- The station after a broadcast. -/
def wake (tag : Tag) (value : Word) (s : Station) : Station :=
  { s with src1 := s.src1.wake tag value, src2 := s.src2.wake tag value }

/-- Both operands. -/
def operands (s : Station) : List Operand := [s.src1, s.src2]

/-- Must `s` wait for `other` because of program order? -/
def isBehind (s other : Station) : Bool := other.unit == s.unit && other.uuid < s.uuid

end Station

/-- A pool of reservation stations. -/
structure Stations where
  /-- The stations by slot; a free slot has none. -/
  slots : List (Option Station)

namespace Stations

/-- A pool of free slots. -/
def empty (capacity : Nat) : Stations := { slots := List.replicate capacity none }

/-- The number of slots. -/
def capacity (p : Stations) : Nat := p.slots.length

/-- The number of slots in use. -/
def length (p : Stations) : Nat := p.slots.countP Option.isSome

/-- Are all slots free? -/
def isEmpty (p : Stations) : Bool := p.slots.all Option.isNone

/-- Are all slots in use? -/
def isFull (p : Stations) : Bool := p.slots.all Option.isSome

/-- The station in a slot. -/
def get? (p : Stations) (i : Slot) : Option Station := p.slots[i]?.join

/-- Every station with its slot, by slot. -/
def toList (p : Stations) : List (Slot × Station) :=
  p.slots.zipIdx.filterMap fun (s, i) => s.map fun s => (i, s)

/-- Put a station into the lowest free slot. -/
def allocate? (p : Stations) (s : Station) : Option (Slot × Stations) :=
  (p.slots.findIdx? Option.isNone).map fun i => (i, { slots := p.slots.set i (some s) })

/-- Does program order forbid the station in a slot to start? -/
def isLocked (p : Stations) (i : Slot) : Bool :=
  match p.get? i with
  | none => false
  | some s => s.unit.isOrdered && p.toList.any fun t => s.isBehind t.2

/-- May the station in a slot start, as far as the pool knows? -/
def isEligible (p : Stations) (i : Slot) : Bool :=
  match p.get? i with
  | none => false
  | some s => !s.running && s.operandsReady && !p.isLocked i

/-- Is the first of two stations older? -/
def isOlder (s t : Slot × Station) : Bool :=
  s.2.uuid < t.2.uuid || (s.2.uuid == t.2.uuid && s.1 ≤ t.1)

/-- Put a station before the first one that is not older. -/
def insertByAge (s : Slot × Station) : List (Slot × Station) → List (Slot × Station)
  | [] => [s]
  | t :: ts => if isOlder s t then s :: t :: ts else t :: insertByAge s ts

/-- The slots of the stations that may start, the oldest first. -/
def dispatchable (p : Stations) : List Slot :=
  ((p.toList.filter fun s => p.isEligible s.1).foldr insertByAge []).map Prod.fst

/-- Mark the station `s` in a slot as started. -/
def markRunning (p : Stations) (i : Slot) (s : Station) : Stations :=
  { slots := p.slots.set i (some { s with running := true }) }

/-- Mark the station in a slot as started, unless it is already. -/
def start? (p : Stations) (i : Slot) : Option Stations :=
  match p.get? i with
  | none => none
  | some s => if s.running then none else some (p.markRunning i s)

/-- How many operands wait for a tag. -/
def waiters (p : Stations) (tag : Tag) : Nat :=
  (p.toList.flatMap fun s => s.2.operands).count (.pending tag)

/-- Deliver a result to all operands that wait for its tag. -/
def broadcast (p : Stations) (tag : Tag) (value : Word) : Stations :=
  { slots := p.slots.map (·.map (Station.wake tag value)) }

/-- Free a slot. -/
def release (p : Stations) (i : Slot) : Stations := { slots := p.slots.set i none }

end Stations

end OutOfOrder
