import OutOfOrder.Core.Basic
import OutOfOrder.Memory

/-!
# Events

A cycle of the core reports what happened in it as a list of events, in the order in which they
happened. Statistics, logs and traces are all made from this list, and so are the statements about
what the core does to memory.

## Main definitions

* `StallReason` — why something could not move on
* `Defect` — a contradiction in the state of the core, which never occurs
* `Event` — everything that is reported
-/

namespace OutOfOrder

/-- Why something could not move on in a cycle. -/
inductive StallReason where
  /-- The reorder buffer has no free place for the next instruction. -/
  | windowFull
  /-- The next instruction finds no free reservation station. -/
  | stationsFull
  /-- The unit of an instruction that could start is busy. -/
  | unitBusy
  /-- A finished unit did not get the bus. -/
  | busContention
deriving DecidableEq, Repr

/-- A contradiction between the structures of the core. The core checks for these where it relies
on one structure agreeing with another, and reports a contradiction instead of hiding it. -/
inductive Defect where
  /-- The bus was granted to a unit that has no result. -/
  | grantWithoutResult (unit : UnitKind)
  /-- A reservation station that may start is free. -/
  | startOfFreeStation (slot : Slot)
  /-- A reservation station that may start still waits for an operand. -/
  | startWithoutOperand (slot : Slot)
  /-- A reservation station that may start has no instruction. -/
  | startWithoutInstruction (slot : Slot)
  /-- A result comes from a reservation station that is free or has another tag. -/
  | broadcastFromElsewhere (slot : Slot)
  /-- A result is for no instruction. -/
  | broadcastToNobody (tag : Tag)
deriving DecidableEq, Repr

/-- What can happen in a cycle. -/
inductive Event where
  /-- The cycle with this number began. -/
  | cycle (number : Nat)
  /-- An instruction was given a place, a station and its operands. -/
  | issue (instruction : Instruction) (tag : Tag) (slot : Slot) (src1 src2 : Operand)
  /-- Stations were taken or freed; these are in use now. -/
  | pool (stations : List StationView)
  /-- Something could not move on. -/
  | stall (reason : StallReason)
  /-- A finished unit did not get the bus because another one did. -/
  | held (loser : Request) (winner : UnitKind)
  /-- The load/store unit made a request to memory and got an answer. -/
  | access (instruction : Instruction) (request : Access) (answer : Except MemoryError Word)
  /-- The system unit accessed a control and status register, while the counters stood so. -/
  | csrAccess (instruction : Instruction) (cycle instret : Nat)
  /-- An instruction was computed and its unit started. -/
  | dispatch (instruction : Instruction) (completion : Completion)
  /-- A result was delivered to so many operands. -/
  | broadcast (result : Broadcast) (woken : Nat)
  /-- The oldest instruction retired. -/
  | commit (tag : Tag) (entry : Entry)
  /-- The program ended in this cycle, after so many instructions. -/
  | halt (cycle retired : Nat) (pc : Word)
  /-- A contradiction was found. -/
  | defect (defect : Defect)

/-- The stall that an event amounts to. -/
def Event.stall? : Event → Option StallReason
  | stall reason => some reason
  | held _ _ => some .busContention
  | _ => none

/-- The instruction that an event says was issued. -/
def Event.issued? : Event → Option Instruction
  | issue i _ _ _ _ => some i
  | _ => none

/-- The instruction that an event says has retired. -/
def Event.committed? : Event → Option Instruction
  | commit _ e => some e.instruction
  | _ => none

/-- The traffic with memory in an event. -/
def Event.access? : Event → Option (Access × Except MemoryError Word)
  | access _ request answer => some (request, answer)
  | _ => none

end OutOfOrder
