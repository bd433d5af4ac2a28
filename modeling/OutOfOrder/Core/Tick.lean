import OutOfOrder.Core.Dispatch
import OutOfOrder.Core.Issue
import OutOfOrder.Core.Retire
import OutOfOrder.Core.Wakeup

/-!
# One cycle of the core

A cycle runs issue, publication, dispatch, wake-up and retirement, in this order. A core that has
halted does nothing any more.

A load or store that fails ends its cycle in dispatch. That cycle is not counted: everything up to
the failure stays done, a published result stays on the bus, and the next cycle tries again.
-/

namespace OutOfOrder

namespace Core

/-- What a cycle leaves behind. -/
structure Tick where
  core : Core
  queue : IssueQueue
  memory : Memory
  /-- What happened, in order. -/
  events : List Event
  /-- The fault that ended the cycle early. -/
  fault : Option MemoryError := none

/-- The core at the beginning of a cycle: the counters show the cycles and retirements so far. -/
def beginCycle (c : Core) : Core := { c with csrs := c.csrs.withCounters c.cycle c.retired }

/-- Let one cycle pass in every unit. -/
def advanceUnits (c : Core) : Core := { c with units := c.units.tick }

/-- The core at the end of a cycle that counts. -/
def endCycle (c : Core) : Core := { c with cycle := c.cycle + 1 }

/-- Run one cycle. -/
def tick (c : Core) (q : IssueQueue) (m : Memory) : Tick :=
  if c.halted then { core := c, queue := q, memory := m, events := [] }
  else
    let issued := c.beginCycle.issue q
    let published := issued.core.advanceUnits.publish
    let dispatched := published.core.dispatch m
    let events := .cycle c.cycle :: issued.events ++ published.events ++ dispatched.events
    match dispatched.fault with
    | some fault =>
      { core := dispatched.core, queue := issued.queue, memory := dispatched.memory, events
        fault := some fault }
    | none =>
      let woken := dispatched.core.wakeUp
      let retired := woken.core.retire
      { core := retired.core.endCycle, queue := issued.queue, memory := dispatched.memory
        events := events ++ woken.events ++ retired.events }

end Core

end OutOfOrder
