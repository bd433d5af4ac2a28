import OutOfOrder.Core.Event

/-!
# Issue

At most one instruction is issued in a cycle. It takes the next place in the reorder buffer and the
lowest free reservation station, finds out about its operands, and becomes the youngest writer of
its destination. If either structure is full nothing changes, and the instruction stays where it is.

An operand is looked for in three places: the result of its youngest writer in flight, if that has
arrived; otherwise the tag of that writer; and the register file if there is no writer in flight.
The instruction looks before it becomes a writer itself, so it never waits for its own result.

## Main definitions

* `Core.operand` — how a source register is resolved
* `Core.issue` — one attempt to issue
-/

namespace OutOfOrder

namespace Core

/-- How a source register is resolved. A source that is not used counts as zero. -/
def operand (c : Core) (used : Bool) (r : Reg) : Operand :=
  if used then
    match c.aliases.get r with
    | none => .ready (c.registers.read r)
    | some tag =>
      match c.window.readyValue? tag with
      | some value => .ready value
      | none => .pending tag
  else .ready 0

/-- The reservation station of an instruction that is about to be issued. -/
def stationFor (c : Core) (i : Instruction) (tag : Tag) : Station where
  tag := tag
  uuid := i.uuid
  unit := i.unit
  src1 := c.operand i.control.usesRs1 i.rs1
  src2 := c.operand i.control.usesRs2 i.rs2

/-- The alias table once an instruction with the given tag has been issued. -/
def aliasesWith (c : Core) (i : Instruction) (tag : Tag) : AliasTable :=
  match i.dest with
  | some r => c.aliases.record r tag
  | none => c.aliases

/-- What an attempt to issue leaves behind. -/
structure Issued where
  core : Core
  queue : IssueQueue
  events : List Event

/-- Issue the instruction in front of the queue, if there is one and there is room for it. -/
def issue (c : Core) (q : IssueQueue) : Issued :=
  match q.pop? with
  | none => { core := c, queue := q, events := [] }
  | some (i, rest) =>
    match c.window.allocate? i with
    | none => { core := c, queue := q, events := [.stall .windowFull] }
    | some (tag, window) =>
      let station := c.stationFor i tag
      match c.stations.allocate? station with
      | none => { core := c, queue := q, events := [.stall .stationsFull] }
      | some (slot, stations) =>
        let after := { c with window, stations, aliases := c.aliasesWith i tag }
        { core := after, queue := rest
          events := [.issue i tag slot station.src1 station.src2, .pool after.pool] }

end Core

end OutOfOrder
