import OutOfOrder.Bus
import OutOfOrder.Config.Basic
import OutOfOrder.Csr
import OutOfOrder.IssueQueue
import OutOfOrder.Registers
import OutOfOrder.ReorderBuffer

/-!
# The core

The core holds the committed state of the machine and everything about the instructions in flight.
Instructions are issued and retire in program order; in between they execute as soon as their
operands are known.

| structure | what it holds about an instruction in flight |
|---|---|
| the reorder buffer | the instruction, and its result once that has been broadcast |
| the reservation stations | its operands, until its result has been broadcast |
| a functional unit or the bus | its result, from the start until the broadcast |
| the alias table | its tag, if it is the youngest writer of its register |

## Main definitions

* `Core`, `Core.new` — the state, and the state before the first instruction
* `StationView`, `Core.pool` — the reservation stations as reports show them
* `Core.isIdle` — nothing is in flight
-/

namespace OutOfOrder

/-- The state of the core. -/
structure Core where
  /-- The committed registers. -/
  registers : Registers
  /-- The control and status registers. -/
  csrs : CsrFile
  /-- The youngest writer in flight of each register. -/
  aliases : AliasTable
  /-- The instructions in flight, in program order. -/
  window : ReorderBuffer
  /-- The instructions in flight that have no result yet. -/
  stations : Stations
  /-- The functional units. -/
  units : Units
  /-- The result bus. -/
  bus : Bus
  /-- Who decides about the bus. -/
  arbiter : Arbiter
  /-- How many cycles have passed. -/
  cycle : Nat
  /-- How many instructions have retired. -/
  retired : Nat
  /-- Has the instruction that ends the program retired? -/
  halted : Bool
  /-- Where control goes, if a control-flow instruction has found out and fetching does not know
  yet. -/
  redirect : Option Word

/-- A reservation station as reports show it. -/
structure StationView where
  slot : Slot
  station : Station
  /-- The instruction, if its place in the reorder buffer is taken. -/
  instruction : Option Instruction
  /-- Does program order forbid it to start? -/
  locked : Bool
deriving DecidableEq, Repr

namespace Core

/-- A core before its first instruction. -/
def new (s : CoreSettings) : Core where
  registers := .zero
  csrs := .empty
  aliases := .empty
  window := .empty s.windowSize.toNat
  stations := .empty s.stationCount.toNat
  units :=
    { alu := .idle s.aluLatency.toNat, branch := .idle s.branchLatency.toNat
      memory := .idle s.memoryLatency.toNat, system := .idle s.systemLatency.toNat }
  bus := .empty
  arbiter := .new s.policy
  cycle := 0
  retired := 0
  halted := false
  redirect := none

/-- The reservation stations in use, by slot. -/
def pool (c : Core) : List StationView :=
  c.stations.toList.map fun (slot, station) =>
    { slot, station, instruction := (c.window.get? station.tag).map Entry.instruction
      locked := c.stations.isLocked slot }

/-- Is nothing in flight? -/
def isIdle (c : Core) : Bool :=
  c.window.isEmpty && c.stations.isEmpty && c.bus.isEmpty && c.units.isIdle

/-- Where control goes, if that has become known, and the core after fetching has taken note. -/
def takeRedirect (c : Core) : Option Word × Core := (c.redirect, { c with redirect := none })

end Core

end OutOfOrder
