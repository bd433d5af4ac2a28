import OutOfOrder.Config.Reader
import OutOfOrder.Log

/-!
# The command `run`

`run` loads a program image to the start of memory and runs it until it ends. It prints the
configuration in brief, and, whether the run succeeds or fails, the registers and the statistics at
its end. The log and the reason of a failure go to the error stream.

Everything but reading the files and the clock is done here, on the contents of the files.

## Main definitions

* `Command.File`, `Command.Options` — what the command is given
* `Command.Outcome` — what it prints, and its exit code
* `Command.run` — what it does
-/

namespace OutOfOrder.Command

/-- A file that was asked for: its contents, or why they cannot be read. -/
structure File where
  path : String
  contents : Except String ByteArray

/-- What the command is given. -/
structure Options where
  /-- The program image. -/
  image : File
  /-- The configuration file. -/
  config : Option File := none
  /-- Log every step of every instruction. -/
  trace : Bool := false
  /-- The cycle budget, if it is not to be that of the configuration. -/
  maxCycles : Option (BitVec 64) := none
  /-- How much is logged, if it is not to be the usual amount. -/
  level : Option Level := none

/-- What the command leaves behind. -/
structure Outcome where
  exitCode : UInt8 := 0
  /-- What is printed before the report. -/
  opening : List String := []
  /-- What the report is about, if the program was run. -/
  statistics : Option Statistics := none
  /-- What goes to the error stream. -/
  errors : List String := []

/-- All that is printed. The report states how many seconds the run took, if that is known. -/
def Outcome.output (o : Outcome) (seconds : Option Float) : List String :=
  o.opening ++ (o.statistics.toList.flatMap fun s => s.report seconds)

/-- The configuration: the defaults, what the file says, and what the command line says. -/
def configuration (o : Options) : Except ConfigError Config := do
  let written ←
    match o.config with
    | none => pure {}
    | some file =>
      match file.contents with
      | .error reason => throw (.unreadable file.path reason)
      | .ok bytes =>
        match String.fromUTF8? bytes with
        | none => throw (.unreadable file.path "stream did not contain valid UTF-8")
        | some text => Config.ofText text
  return { written with
    run := { written.run with
      traceInstructions := written.run.traceInstructions || o.trace
      maxCycles := o.maxCycles.getD written.run.maxCycles } }

/-- How much is logged: every step if the configuration says so, and otherwise what was asked for,
or warnings. -/
def logLevel (o : Options) (c : Config) : Level :=
  if c.run.traceInstructions then .debug else o.level.getD .warn

/-- The configuration in brief. -/
def summary (c : Config) : List String :=
  ["Configuration: ROB " ++ toString c.core.windowSize.toNat
      ++ "  RS " ++ toString c.core.stationCount.toNat
      ++ "  IQ " ++ toString c.core.queueSize.toNat
      ++ "  CDB " ++ c.core.policy.name,
    "  Latency ALU/BRU/LSU/SFU: " ++ toString c.core.aluLatency.toNat
      ++ "/" ++ toString c.core.branchLatency.toNat
      ++ "/" ++ toString c.core.memoryLatency.toNat
      ++ "/" ++ toString c.core.systemLatency.toNat
      ++ "  RAM: " ++ Hex.plain c.memory.base.toNat
      ++ "+" ++ toString (c.memory.size.toNat / 1024) ++ " KiB"]

/-- A register with its value. -/
def registerText (n : Nat) (value : Word) : String :=
  "x" ++ Statistics.column 2 (toString n) ++ "=" ++ Hex.word value

/-- The registers, two in each line, from number `n` on. -/
def registerLines (n : Nat) : List Word → List String
  | [] => []
  | [a] => [registerText n a]
  | a :: b :: rest =>
    (registerText n a ++ " " ++ registerText (n + 1) b) :: registerLines (n + 2) rest

/-- How a failure is announced. -/
def fatal (e : SimError) : List String := ["", "[!] FATAL: " ++ e.message]

/-- Copy a program image into memory: how many bytes it has, and the memory afterwards. -/
def loadImage (m : Memory) (addr : Word) (image : File) : Except SimError (Nat × Memory) :=
  match image.contents with
  | .error reason => .error (.unreadable reason)
  | .ok bytes =>
    match m.load addr (bytes.toList.map UInt8.toBitVec) with
    | .error e => .error (.memory e)
    | .ok after => .ok (bytes.size, after)

/-- The simulator with the image at the start of its memory. -/
def loaded (c : Config) (image : File) : Except SimError (Nat × Simulator) :=
  match Simulator.new c with
  | .error e => .error (.config e)
  | .ok s => (loadImage s.memory c.memory.base image).map fun (n, memory) => (n, { s with memory })

/-- The texts of the lines that are shown. -/
def shownTexts (shown : Level) (lines : List LogLine) : List String :=
  (lines.filter (LogLine.isShown shown)).map LogLine.text

/-- Add the lines of a cycle that are shown to the lines before, the last line first. -/
def gather (shown : Level) (before : List String) (s : Simulator) (t : Simulator.Tick) :
    List String :=
  (shownTexts shown (LogLine.ofTick s t)).reverse ++ before

/-- Run a program. -/
def run (o : Options) : Outcome :=
  match configuration o with
  | .error e => { exitCode := 1, errors := fatal (.config e) }
  | .ok c =>
    let shown := logLevel o c
    let greeting := shownTexts shown [.ofConfig c]
    match loaded c o.image with
    | .error e => { exitCode := 1, opening := summary c, errors := greeting ++ fatal e }
    | .ok (bytes, s) =>
      let r := s.runGathering (gather shown) []
      let log :=
        greeting ++ shownTexts shown [.ofImage o.image.path c.memory.base bytes]
          ++ r.gathered.reverse
      let opening :=
        summary c
          ++ ["[*] Direct execution: " ++ o.image.path ++ " (" ++ toString bytes ++ " bytes)"]
      let halted := ["", "[*] Halted after " ++ toString r.final.core.cycle ++ " cycles"]
      let registers := registerLines 0 r.final.core.registers.toList
      match r.fault with
      | none =>
        { opening := opening ++ halted ++ registers
          statistics := r.final.statistics
          errors := log }
      | some e =>
        { exitCode := 1
          opening := opening ++ registers
          statistics := r.final.statistics
          errors := log ++ fatal e }

end OutOfOrder.Command
