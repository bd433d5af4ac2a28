import OutOfOrder.Core.Publish

/-!
# Wake-up

The result on the bus is delivered: to every operand that waits for its tag, and to the entry of its
instruction in the reorder buffer. The reservation station of the instruction becomes free and the
bus empty. If the instruction was one of control flow, fetching can be told where to go.
-/

namespace OutOfOrder

namespace Core

/-- The contradictions between a result on the bus and the places it is meant for. -/
def broadcastDefects (c : Core) (r : Broadcast) : List Event :=
  (if (c.stations.get? r.slot).any fun s => s.tag == r.tag then []
    else [.defect (.broadcastFromElsewhere r.slot)])
    ++ if (c.window.get? r.tag).isSome then [] else [.defect (.broadcastToNobody r.tag)]

/-- Deliver the result on the bus, if there is one. -/
def wakeUp (c : Core) : Step :=
  match c.bus.take? with
  | none => c.quiet
  | some (r, bus) =>
    let after :=
      { c with
        bus
        stations := (c.stations.broadcast r.tag r.result).release r.slot
        window := (c.window.markReady? r.tag r.result).getD c.window
        redirect := r.redirect.or c.redirect }
    { core := after
      events :=
        c.broadcastDefects r ++ [.broadcast r (c.stations.waiters r.tag), .pool after.pool] }

end Core

end OutOfOrder
