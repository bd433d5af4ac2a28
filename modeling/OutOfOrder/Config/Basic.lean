import OutOfOrder.Bus
import OutOfOrder.Text.Hex

/-!
# Configurations

A configuration says how large the structures of the core are, how long the units take, which unit
gets the bus first, where memory lies, and where and for how long a program runs. Every setting has
a default.

Not every configuration can be run: a structure without any place, a unit that takes no time and
memory beyond the address space are refused.

## Main definitions

* `Config` — all settings, in three sections
* `ConfigError`, `Config.check` — the first reason to refuse a configuration
-/

namespace OutOfOrder

/-- How programs are run. -/
structure RunSettings where
  /-- Log every step of every instruction. -/
  traceInstructions : Bool := false
  /-- Where the program begins. -/
  startPc : Word := 0
  /-- After how many cycles a program that has not ended is given up. -/
  maxCycles : BitVec 64 := 10000000
deriving DecidableEq, Repr

/-- How large and how fast the core is. -/
structure CoreSettings where
  /-- The number of places of the reorder buffer. -/
  windowSize : BitVec 64 := 16
  /-- The number of reservation stations. -/
  stationCount : BitVec 64 := 8
  /-- How many decoded instructions may wait for issue. -/
  queueSize : BitVec 64 := 4
  /-- How many cycles the arithmetic unit takes. -/
  aluLatency : BitVec 32 := 1
  /-- How many cycles the branch unit takes. -/
  branchLatency : BitVec 32 := 1
  /-- How many cycles the load/store unit takes: one for the address and one for the access. -/
  memoryLatency : BitVec 32 := 2
  /-- How many cycles the system unit takes. -/
  systemLatency : BitVec 32 := 1
  /-- Which finished unit gets the bus. -/
  policy : Policy := .oldestFirst
deriving DecidableEq, Repr

/-- Where memory lies. -/
structure MemorySettings where
  /-- The address of the first byte. -/
  base : Word := 0
  /-- The number of bytes. -/
  size : BitVec 64 := 1048576
deriving DecidableEq, Repr

/-- All settings. -/
structure Config where
  run : RunSettings := {}
  core : CoreSettings := {}
  memory : MemorySettings := {}
deriving DecidableEq, Repr

/-- Why a configuration is refused. -/
inductive ConfigError where
  /-- The file cannot be read as text. -/
  | unreadable (file reason : String)
  /-- The text does not describe a configuration. -/
  | malformed
  /-- A size is zero. -/
  | zeroSize (field : String)
  /-- A latency is zero. -/
  | zeroLatency (field : String)
  /-- Memory does not fit into the address space. -/
  | outOfRange (base : Word) (size : BitVec 64)
deriving DecidableEq, Repr

/-- The error in words. -/
def ConfigError.message : ConfigError → String
  | unreadable file reason => file ++ ": " ++ reason
  | malformed => "not a configuration"
  | zeroSize field => field ++ " must be non-zero"
  | zeroLatency field => field ++ " must be at least 1"
  | outOfRange base size =>
    "memory range " ++ Hex.plain base.toNat ++ "+" ++ Hex.plain size.toNat
      ++ " exceeds the 32-bit address space"

namespace Config

/-- The settings that must not be zero because they are sizes. -/
def sizes (c : Config) : List (String × BitVec 64) :=
  [("core.rob_size", c.core.windowSize), ("core.rs_size", c.core.stationCount),
    ("core.issue_queue_size", c.core.queueSize), ("memory.size", c.memory.size)]

/-- The settings that must not be zero because they are latencies. -/
def latencies (c : Config) : List (String × BitVec 32) :=
  [("core.alu_latency", c.core.aluLatency), ("core.bru_latency", c.core.branchLatency),
    ("core.lsu_latency", c.core.memoryLatency), ("core.sfu_latency", c.core.systemLatency)]

/-- The first reason to refuse a configuration: sizes come before latencies, and both before the
place of memory. -/
def error? (c : Config) : Option ConfigError :=
  match c.sizes.find? fun s => s.2 == 0 with
  | some s => some (.zeroSize s.1)
  | none =>
    match c.latencies.find? fun l => l.2 == 0 with
    | some l => some (.zeroLatency l.1)
    | none =>
      if 0x100000000 < c.memory.base.toNat + c.memory.size.toNat then
        some (.outOfRange c.memory.base c.memory.size)
      else none

/-- A configuration, unless there is a reason to refuse it. -/
def check (c : Config) : Except ConfigError Config :=
  match c.error? with
  | some e => .error e
  | none => .ok c

end Config

end OutOfOrder
