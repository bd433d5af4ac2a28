import OutOfOrder.Core.Event
import OutOfOrder.Text.Decimal

/-!
# Statistics

The statistics of a run are counts of what its events say: cycles, retired instructions by unit, and
stalls by reason. The rates in the report are derived from them.

## Main definitions

* `Statistics`, `Statistics.record` — the counts, and what an event adds to them
* `Statistics.ipc`, `Statistics.cpi` — instructions per cycle and cycles per instruction
* `Statistics.report` — the report
-/

namespace OutOfOrder

/-- One number for each unit. -/
structure UnitCounts where
  alu : Nat := 0
  branch : Nat := 0
  memory : Nat := 0
  system : Nat := 0
deriving DecidableEq, Repr

namespace UnitCounts

/-- The number of a unit. -/
def get (n : UnitCounts) : UnitKind → Nat
  | .alu => n.alu
  | .branch => n.branch
  | .memory => n.memory
  | .system => n.system

/-- Count one more for a unit. -/
def increment (n : UnitCounts) : UnitKind → UnitCounts
  | .alu => { n with alu := n.alu + 1 }
  | .branch => { n with branch := n.branch + 1 }
  | .memory => { n with memory := n.memory + 1 }
  | .system => { n with system := n.system + 1 }

/-- The numbers in the order of `UnitKind.all`. -/
def toList (n : UnitCounts) : List Nat := UnitKind.all.map n.get

end UnitCounts

/-- What is counted in a run. -/
structure Statistics where
  /-- How many cycles have begun. -/
  cycles : Nat := 0
  /-- How many instructions have retired. -/
  retired : Nat := 0
  /-- How many of them each unit has executed. -/
  byUnit : UnitCounts := {}
  /-- How often the reorder buffer was full. -/
  windowFull : Nat := 0
  /-- How often all reservation stations were in use. -/
  stationsFull : Nat := 0
  /-- How often an instruction that could start found its unit busy. -/
  unitBusy : Nat := 0
  /-- How often a finished unit did not get the bus. -/
  busContention : Nat := 0
  /-- The cycle in which the program ended. -/
  haltCycle : Option Nat := none
deriving DecidableEq, Repr

namespace Statistics

/-- Count the beginning of a cycle. Cycles are numbered from zero. -/
def countCycle (s : Statistics) (number : Nat) : Statistics := { s with cycles := number + 1 }

/-- Count the retirement of an instruction. -/
def countCommit (s : Statistics) (unit : UnitKind) : Statistics :=
  { s with retired := s.retired + 1, byUnit := s.byUnit.increment unit }

/-- Count a stall. -/
def countStall (s : Statistics) : StallReason → Statistics
  | .windowFull => { s with windowFull := s.windowFull + 1 }
  | .stationsFull => { s with stationsFull := s.stationsFull + 1 }
  | .unitBusy => { s with unitBusy := s.unitBusy + 1 }
  | .busContention => { s with busContention := s.busContention + 1 }

/-- Take note of the end of the program. -/
def countHalt (s : Statistics) (cycle : Nat) : Statistics := { s with haltCycle := some cycle }

/-- What an event adds to the counts. -/
def record (s : Statistics) : Event → Statistics
  | .cycle number => s.countCycle number
  | .commit _ e => s.countCommit e.instruction.unit
  | .stall reason => s.countStall reason
  | .held _ _ => s.countStall .busContention
  | .halt cycle _ _ => s.countHalt cycle
  | _ => s

/-- What a list of events adds to the counts. -/
def recordAll (s : Statistics) (es : List Event) : Statistics := es.foldl record s

/-! ### Rates -/

/-- Instructions per cycle, and zero if there was no cycle. -/
def ipc (s : Statistics) : Float :=
  if s.cycles = 0 then 0 else Float.ofNat s.retired / Float.ofNat s.cycles

/-- Cycles per instruction, and zero if there was no instruction. -/
def cpi (s : Statistics) : Float :=
  if s.retired = 0 then 0 else Float.ofNat s.cycles / Float.ofNat s.retired

/-- A part as a percentage of a whole, where a whole of zero counts as one. -/
def percentage (part whole : Nat) : Float :=
  Float.ofNat part / Float.ofNat (max whole 1) * 100

/-! ### The report -/

/-- Fill a text up with blanks to at least `width` characters. -/
def column (width : Nat) (s : String) : String :=
  s ++ String.ofList (List.replicate (width - s.length) ' ')

/-- The name of a unit in the report. -/
def unitColumn (k : UnitKind) : String :=
  "  op." ++ column 19 (String.ofList (k.name.toList.map Char.toLower))

/-- A count, and its share of a whole in per cent. -/
def share (part whole : Nat) : String :=
  toString part ++ " (" ++ Decimal.fixed 2 (percentage part whole) ++ "%)"

/-- A line across the report. -/
def rule (c : Char) : String := String.ofList (List.replicate 58 c)

/-- The counts of the stalls, with their names. -/
def stalls (s : Statistics) : List (String × Nat) :=
  [("rob_full", s.windowFull), ("rs_full", s.stationsFull), ("fu_busy", s.unitBusy),
    ("cdb", s.busContention)]

/-- The report, line by line. The time that the run took is known outside of it, in seconds, and
left out of the report if it is not known. -/
def report (s : Statistics) (seconds : Option Float) : List String :=
  ["", rule '=', "TOMASULO CORE SIMULATION STATISTICS", rule '=']
    ++ (seconds.toList.map fun t => column 25 "host_seconds" ++ Decimal.fixed 4 t ++ " s")
    ++ [column 25 "sim_cycles" ++ toString s.cycles,
      column 25 "sim_insts" ++ toString s.retired,
      column 25 "sim_ipc" ++ Decimal.fixed 4 s.ipc,
      column 25 "sim_cpi" ++ Decimal.fixed 4 s.cpi,
      rule '-', "INSTRUCTION MIX"]
    ++ (UnitKind.all.map fun k => unitColumn k ++ share (s.byUnit.get k) s.retired)
    ++ [rule '-', "STALLS"]
    ++ (s.stalls.map fun (name, n) => "  stalls." ++ column 15 name ++ share n s.cycles)
    ++ [rule '=']

end Statistics

end OutOfOrder
