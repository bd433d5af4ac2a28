import OutOfOrder.Core.Tick
import OutOfOrder.Instruction.Decode
import OutOfOrder.Statistics

/-!
# The simulator

The simulator feeds the core with the instructions of a program in memory. After each cycle of the
core it fetches at most one word, decodes it and appends it to the issue queue.

Nothing is ever fetched on a guess. After a control-flow instruction, fetching waits until the core
has found out where control goes, and after an instruction that ends the program it stops for good.

## Main definitions

* `Simulator`, `Simulator.new` — the core and everything around it, and its first state
* `SimError` — why a run fails
* `Simulator.tick` — one cycle of the core, and one attempt to fetch
* `Simulator.run` — cycles until the program ends, or a fault, or the end of the budget
-/

namespace OutOfOrder

/-- Why a run fails. -/
inductive SimError where
  /-- A fetched word is not an instruction. -/
  | decode (e : DecodeError)
  /-- An access to memory failed. -/
  | memory (e : MemoryError)
  /-- The program image cannot be read. -/
  | unreadable (reason : String)
  /-- The configuration is refused. -/
  | config (e : ConfigError)
  /-- The program has not ended after so many cycles. -/
  | cycleLimit (limit : Nat)
deriving DecidableEq, Repr

/-- The error in words. -/
def SimError.message : SimError → String
  | decode e => e.message
  | memory e => e.message
  | unreadable reason => "failed to load program image: " ++ reason
  | config e => "invalid configuration: " ++ e.message
  | cycleLimit limit => "no exit after " ++ toString limit ++ " cycles"

/-- What fetching does next. -/
inductive FetchState where
  /-- Fetch the next word. -/
  | running
  /-- Wait until a control-flow instruction has been resolved. -/
  | awaitRedirect
  /-- The program ends with the last instruction fetched. -/
  | stopped
deriving DecidableEq, Repr

/-- The core and everything around it. -/
structure Simulator where
  core : Core
  memory : Memory
  queue : IssueQueue
  statistics : Statistics
  /-- Where to fetch next. While fetching waits or has stopped, the address of the last instruction
  fetched. -/
  pc : Word
  /-- The serial number of the next instruction. -/
  nextUuid : Nat
  fetch : FetchState
  /-- How many cycles a run may take. -/
  maxCycles : Nat

namespace Simulator

/-- A simulator before its first cycle, with a memory of zeros. -/
def new (c : Config) : Except ConfigError Simulator :=
  c.check.map fun c =>
    { core := .new c.core
      memory := .empty c.memory.base c.memory.size.toNat
      queue := .empty c.core.queueSize.toNat
      statistics := {}
      pc := c.run.startPc
      nextUuid := 0
      fetch := .running
      maxCycles := c.run.maxCycles.toNat }

/-! ### Fetching -/

/-- What an attempt to fetch leaves behind. -/
structure Fetched where
  next : Simulator
  /-- The instruction that was fetched. -/
  instruction : Option Instruction := none
  fault : Option SimError := none

/-- Take note of where control goes, if the core has found out. Only a fetch that waits for it goes
there. -/
def followRedirect (s : Simulator) : Simulator :=
  match s.core.takeRedirect with
  | (none, _) => s
  | (some target, core) =>
    if s.fetch = .awaitRedirect then { s with core, pc := target, fetch := .running }
    else { s with core }

/-- The word at the fetch address, decoded. -/
def fetchWord (s : Simulator) : Except SimError Instruction :=
  match s.memory.fetch s.pc with
  | .error e => .error (.memory e)
  | .ok word =>
    match decode word s.pc s.nextUuid with
    | .error e => .error (.decode e)
    | .ok i => .ok i

/-- What fetching does after an instruction. -/
def fetchStateAfter (i : Instruction) : FetchState :=
  if i.isControlFlow then .awaitRedirect else if i.isExit then .stopped else .running

/-- The simulator once an instruction has been fetched. -/
def accept (s : Simulator) (i : Instruction) : Simulator :=
  { s with
    nextUuid := s.nextUuid + 1
    fetch := fetchStateAfter i
    pc := if fetchStateAfter i = .running then s.pc + instructionSize else s.pc
    queue := (s.queue.push? i).getD s.queue }

/-- Fetch an instruction, if fetching is not held up and the queue has room. -/
def fetchNext (s : Simulator) : Fetched :=
  let s := s.followRedirect
  if s.fetch ≠ .running ∨ s.queue.isFull then { next := s }
  else
    match s.fetchWord with
    | .error e => { next := s, fault := some e }
    | .ok i => { next := s.accept i, instruction := some i }

/-! ### Cycles -/

/-- What a cycle leaves behind. -/
structure Tick where
  next : Simulator
  /-- The cycle of the core. -/
  core : Core.Tick
  /-- The instruction that was fetched. -/
  fetched : Option Instruction := none
  fault : Option SimError := none

/-- One cycle of the core, and after it, unless it failed, one attempt to fetch. -/
def tick (s : Simulator) : Tick :=
  let t := s.core.tick s.queue s.memory
  let after :=
    { s with
      core := t.core, queue := t.queue, memory := t.memory
      statistics := s.statistics.recordAll t.events }
  match t.fault with
  | some e => { next := after, core := t, fault := some (.memory e) }
  | none =>
    let f := after.fetchNext
    { next := f.next, core := t, fetched := f.instruction, fault := f.fault }

/-! ### Runs -/

/-- How a run ended. -/
structure Run (α : Type) where
  final : Simulator
  /-- Why it failed, unless the program ended. -/
  fault : Option SimError
  /-- What was gathered on the way. -/
  gathered : α

/-- Run for at most so many cycles, and gather something from each of them. -/
def runFor {α : Type} (gather : α → Simulator → Tick → α) :
    Nat → Simulator → α → Run α
  | budget, s, a =>
    if s.core.halted then { final := s, fault := none, gathered := a }
    else
      match budget with
      | 0 => { final := s, fault := some (.cycleLimit s.maxCycles), gathered := a }
      | budget + 1 =>
        let t := s.tick
        let a := gather a s t
        match t.fault with
        | some e => { final := t.next, fault := some e, gathered := a }
        | none => runFor gather budget t.next a

/-- How many cycles are left of the budget. -/
def budget (s : Simulator) : Nat := s.maxCycles - s.core.cycle

/-- Run until the program ends, and gather something from each cycle. -/
def runGathering {α : Type} (gather : α → Simulator → Tick → α) (s : Simulator) (a : α) :
    Run α :=
  runFor gather s.budget s a

/-- Run until the program ends. -/
def run (s : Simulator) : Run Unit := s.runGathering (fun _ _ _ => ()) ()

end Simulator

end OutOfOrder
