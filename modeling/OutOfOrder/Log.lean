import OutOfOrder.Simulator

/-!
# The log

The log tells line by line what happens in a run. Every line has a level, and a run shows the lines
up to the level that is asked for. A line is written as its level, a message and named values:

```
WARN CDB contention, result held cycle=4 unit="ALU" uuid=2 winner="LSU"
```

Texts among the values are quoted. Values with an inner structure are written with the names of
their alternatives and fields, such as `Some(24)` or `[Ready(0), Pending(RobIndex(3))]`.

## Main definitions

* `Level`, `LogLine` — levels and lines
* `LogLine.ofEvent` — the line of an event of the core
* `LogLine.ofTick` — the lines of one cycle of the simulator
-/

namespace OutOfOrder

/-- How much is shown, and how important a line is. -/
inductive Level where
  /-- Nothing is shown. -/
  | off
  | error
  | warn
  | info
  | debug
  | trace
deriving DecidableEq, Repr

namespace Level

/-- Every level, the most taciturn first. -/
def all : List Level := [off, error, warn, info, debug, trace]

/-- The number of levels that are more taciturn. -/
def rank : Level → Nat
  | off => 0
  | error => 1
  | warn => 2
  | info => 3
  | debug => 4
  | trace => 5

/-- The name of a level when it is asked for. -/
def name : Level → String
  | off => "off"
  | error => "error"
  | warn => "warn"
  | info => "info"
  | debug => "debug"
  | trace => "trace"

/-- The level of a given name. -/
def ofName? (name : String) : Option Level := all.find? fun l => l.name == name

/-- The mark of a level in front of a line. -/
def mark (l : Level) : String := String.ofList (l.name.toList.map Char.toUpper)

end Level

/-- A line of the log. -/
structure LogLine where
  level : Level
  message : String
  /-- The named values, already written out. -/
  values : List (String × String)
deriving DecidableEq, Repr

namespace LogLine

/-- Is the line shown if one asks for a level? -/
def isShown (shown : Level) (l : LogLine) : Bool := l.level.rank ≤ shown.rank

/-- The line as text. -/
def text (l : LogLine) : String :=
  l.level.mark ++ " " ++ l.message
    ++ String.join (l.values.map fun (name, value) => " " ++ name ++ "=" ++ value)

/-! ### Values -/

/-- A text in quotation marks. -/
def quoted (s : String) : String := "\"" ++ s ++ "\""

/-- A structure with its fields. -/
def record (name : String) (fields : List (String × String)) : String :=
  name ++ " \x7b " ++ ", ".intercalate (fields.map fun (f, value) => f ++ ": " ++ value) ++ " \x7d"

/-- An address that may be absent. -/
def optionalWord : Option Word → String
  | none => "None"
  | some w => "Some(" ++ toString w.toNat ++ ")"

/-- An operand. -/
def operandText : Operand → String
  | .ready v => "Ready(" ++ toString v.toNat ++ ")"
  | .pending tag => "Pending(RobIndex(" ++ toString tag ++ "))"

/-- The two operands of an instruction. -/
def operandsText (a b : Operand) : String := "[" ++ operandText a ++ ", " ++ operandText b ++ "]"

/-- A configuration. -/
def configText (c : Config) : String :=
  record "Config"
    [("general", record "GeneralConfig"
      [("trace_instructions", toString c.run.traceInstructions),
        ("start_pc", toString c.run.startPc.toNat),
        ("max_cycles", toString c.run.maxCycles.toNat)]),
    ("core", record "CoreConfig"
      [("rob_size", toString c.core.windowSize.toNat),
        ("rs_size", toString c.core.stationCount.toNat),
        ("issue_queue_size", toString c.core.queueSize.toNat),
        ("alu_latency", toString c.core.aluLatency.toNat),
        ("bru_latency", toString c.core.branchLatency.toNat),
        ("lsu_latency", toString c.core.memoryLatency.toNat),
        ("sfu_latency", toString c.core.systemLatency.toNat),
        ("cdb_arbitration", c.core.policy.name)]),
    ("memory", record "MemoryConfig"
      [("base", toString c.memory.base.toNat), ("size", toString c.memory.size.toNat)])]

/-! ### Lines -/

/-- The line of an event in a cycle, if the log mentions it. -/
def ofEvent? (cycle : Nat) : Event → Option LogLine
  | .issue i tag slot src1 src2 =>
    some
      { level := .debug
        message := "issue " ++ i.text
        values :=
          [("cycle", toString cycle), ("uuid", toString i.uuid), ("rob", toString tag),
            ("rs", toString slot), ("ops", operandsText src1 src2)] }
  | .held loser winner =>
    some
      { level := .warn
        message := "CDB contention, result held"
        values :=
          [("cycle", toString cycle), ("unit", quoted loser.unit.name),
            ("uuid", toString loser.uuid), ("winner", quoted winner.name)] }
  | .dispatch i c =>
    some
      { level := .debug
        message := "dispatch " ++ i.text
        values :=
          [("cycle", toString cycle), ("uuid", toString c.uuid), ("unit", quoted i.unit.name),
            ("rob", toString c.tag), ("rs", toString c.slot),
            ("result", toString c.result.toNat)] }
  | .broadcast r woken =>
    some
      { level := .debug
        message := "broadcast"
        values :=
          [("cycle", toString cycle), ("rob", toString r.tag), ("rs", toString r.slot),
            ("result", toString r.result.toNat), ("woken", toString woken),
            ("redirect", optionalWord r.redirect)] }
  | .commit tag e =>
    some
      { level := .debug
        message := "commit " ++ e.instruction.text
        values :=
          [("cycle", toString cycle), ("uuid", toString e.instruction.uuid),
            ("rob", toString tag), ("result", toString e.result.toNat)] }
  | .halt number retired pc =>
    some
      { level := .info
        message := "halt at PC=" ++ Hex.plain pc.toNat
        values := [("cycle", toString number), ("retired", toString retired)] }
  | _ => none

/-- The line about an entry of the reorder buffer at the end of a cycle. -/
def ofEntry (cycle : Nat) (tag : Tag) (e : Entry) : LogLine where
  level := .trace
  message := "ROB " ++ e.instruction.text
  values :=
    [("cycle", toString cycle), ("rob", toString tag), ("ready", toString e.ready),
      ("result", toString e.result.toNat)]

/-- The line about a reservation station at the end of a cycle. -/
def ofStation (cycle : Nat) (v : StationView) : LogLine where
  level := .trace
  message := "RS " ++ (v.instruction.map Instruction.text).getD ""
  values :=
    [("cycle", toString cycle), ("rs", toString v.slot), ("rob", toString v.station.tag),
      ("running", toString v.station.running), ("locked", toString v.locked),
      ("ops", operandsText v.station.src1 v.station.src2)]

/-- The line about a fetched instruction. -/
def ofFetched (i : Instruction) : LogLine where
  level := .debug
  message := "fetch " ++ i.text
  values := [("uuid", toString i.uuid), ("word", Hex.word i.word)]

/-- What is in flight at the end of a cycle. -/
def ofContents (cycle : Nat) (c : Core) : List LogLine :=
  (c.window.toList.map fun (tag, e) => ofEntry cycle tag e) ++ c.pool.map (ofStation cycle)

/-- The lines of one cycle of the simulator, from the state before it and what it left behind. What
is in flight is listed at the end of every cycle of the core that counts. -/
def ofTick (before : Simulator) (t : Simulator.Tick) : List LogLine :=
  let cycle := before.core.cycle
  t.core.events.filterMap (ofEvent? cycle)
    ++ (if before.core.halted || t.core.fault.isSome then [] else ofContents cycle t.core.core)
    ++ t.fetched.toList.map ofFetched

/-- The line about the configuration. -/
def ofConfig (c : Config) : LogLine where
  level := .debug
  message := "configuration loaded"
  values := [("config", configText c)]

/-- The line about the program image. -/
def ofImage (path : String) (addr : Word) (bytes : Nat) : LogLine where
  level := .info
  message := "loaded image at " ++ Hex.plain addr.toNat
  values := [("path", path), ("bytes", toString bytes)]

end LogLine

end OutOfOrder
