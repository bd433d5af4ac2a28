import OutOfOrder.Core.Event

/-!
# Publication

Once in every cycle a finished unit may put its result on the bus. If there is still a result on the
bus, nobody gets it. The units that lose keep their results and ask again in the next cycle.

## Main definitions

* `Core.requests` — who asks for the bus
* `Core.publish` — one round of arbitration
-/

namespace OutOfOrder

namespace Core

/-- A change of the core, and what there is to report about it. -/
structure Step where
  core : Core
  events : List Event

/-- Nothing happens. -/
def quiet (c : Core) : Step := { core := c, events := [] }

/-- The finished units, in the order of `UnitKind.all`. -/
def requests (c : Core) : List Request :=
  UnitKind.all.filterMap fun k =>
    (c.units.get k).output?.map fun o => { unit := k, uuid := o.uuid }

/-- Put the result of one finished unit on the bus, if the bus is free. -/
def publish (c : Core) : Step :=
  if c.bus.isEmpty then
    match c.arbiter.grant c.requests with
    | none => c.quiet
    | some (winner, arbiter) =>
      match (c.units.get winner).clear? with
      | none => { core := { c with arbiter }, events := [.defect (.grantWithoutResult winner)] }
      | some (o, unit) =>
        { core :=
            { c with
              arbiter
              units := c.units.set winner unit
              bus := { current := some o.broadcast } }
          events :=
            (c.requests.filter fun r => r.unit != winner).map fun r => .held r winner }
  else c.quiet

end Core

end OutOfOrder
