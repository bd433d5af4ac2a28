import OutOfOrder.Core.Event
import OutOfOrder.Semantics.Effect

/-!
# Dispatch

The reservation stations that may start are visited once in every cycle, the oldest first. If its
unit is free, an instruction is computed, with all its effects on memory and on the control and
status registers, and the unit starts its countdown.

A load or store that fails ends the cycle at this point: what was done before stays done, and the
instruction keeps its station and will try again in the next cycle.

## Main definitions

* `Core.dispatchAt` — one visit
* `Core.dispatch` — all visits of a cycle
-/

namespace OutOfOrder

namespace Core

/-- What dispatching leaves behind. -/
structure Dispatched where
  core : Core
  memory : Memory
  events : List Event
  /-- The fault that ended the cycle. -/
  fault : Option MemoryError := none

/-- Report a contradiction and change nothing. -/
def refuse (c : Core) (m : Memory) (d : Defect) : Dispatched :=
  { core := c, memory := m, events := [.defect d] }

/-- What there is to report about the effects of computing an instruction. -/
def sideEffects (c : Core) (m : Memory) (i : Instruction) (a b : Word) : List Event :=
  match i.unit with
  | .memory => [.access i (i.access a b) ((m.perform (i.access a b)).map Prod.fst)]
  | .system => [.csrAccess i c.csrs.cycle c.csrs.instret]
  | _ => []

/-- Compute the instruction of a station and start its unit, which is free. -/
def start (c : Core) (m : Memory) (slot : Slot) (s : Station) (i : Instruction) (a b : Word) :
    Dispatched :=
  match i.compute a b m c.csrs with
  | .error fault => { core := c, memory := m, events := c.sideEffects m i a b, fault := some fault }
  | .ok effect =>
    let completion : Completion :=
      { result := effect.result, tag := s.tag, slot, uuid := s.uuid, redirect := effect.redirect }
    { core :=
        { c with
          csrs := effect.csrs
          units := c.units.set s.unit ((c.units.get s.unit).begin completion)
          stations := c.stations.markRunning slot s }
      memory := effect.memory
      events := c.sideEffects m i a b ++ [.dispatch i completion] }

/-- Visit the station in a slot. -/
def dispatchAt (c : Core) (m : Memory) (slot : Slot) : Dispatched :=
  match c.stations.get? slot with
  | none => c.refuse m (.startOfFreeStation slot)
  | some s =>
    if (c.units.get s.unit).isBusy then
      { core := c, memory := m, events := [.stall .unitBusy] }
    else
      match c.window.get? s.tag with
      | none => c.refuse m (.startWithoutInstruction slot)
      | some entry =>
        match s.src1.value?, s.src2.value? with
        | some a, some b => c.start m slot s entry.instruction a b
        | _, _ => c.refuse m (.startWithoutOperand slot)

/-- Visit stations one after the other, until one of them fails. -/
def dispatchEach (c : Core) (m : Memory) : List Slot → Dispatched
  | [] => { core := c, memory := m, events := [] }
  | slot :: slots =>
    let first := c.dispatchAt m slot
    match first.fault with
    | some _ => first
    | none =>
      let later := first.core.dispatchEach first.memory slots
      { later with events := first.events ++ later.events }

/-- Visit every station that may start. -/
def dispatch (c : Core) (m : Memory) : Dispatched := c.dispatchEach m c.stations.dispatchable

end Core

end OutOfOrder
