import OutOfOrder.Config.Basic
import OutOfOrder.Json.Value

/-!
# Configurations as JSON

A configuration is written as an object with the three sections `general`, `core` and `memory`, each
of which is an object with its settings. Sections and settings may come in any order and may be left
out, and members of other names are skipped. A section, and the configuration as a whole, may also
be written as an array of its values in their order, of which the last ones may be left out.

What is written must fit: a repeated setting is refused, and so is a number with a fraction, an
exponent or a sign, or one that is too large for its setting. Nothing may be `null`.

## Main definitions

* `Section.ofValue?` — the values that are given for the settings of a section
* `Config.ofValue?` — the configuration that a value describes
* `Config.ofText` — the configuration of a text, checked
-/

namespace OutOfOrder

open Json

/-! ### Single settings -/

/-- A truth value. -/
def readBool? : Value → Option Bool
  | .boolean b => some b
  | _ => none

/-- The number that a non-empty list of decimal digits denotes. -/
def natOfDigits? (ds : List Char) : Option Nat :=
  if ds ≠ [] ∧ ds.all Char.isDigit then
    some (ds.foldl (fun n d => n * 10 + (d.toNat - '0'.toNat)) 0)
  else none

/-- A number that `w` bits can hold. -/
def readBits? (w : Nat) : Value → Option (BitVec w)
  | .number ds =>
    (natOfDigits? ds).bind fun n =>
      let x := BitVec.ofNat w n
      if x.toNat = n then some x else none
  | _ => none

/-- A policy, given by its name, or by an object whose only member has that name and says
nothing. -/
def readPolicy? : Value → Option Policy
  | .string (some name) => Policy.ofName? name
  | .object [(some name, .null)] => Policy.ofName? name
  | _ => none

/-- A setting that may be left out. -/
def readOr {α : Type} (default : α) (read : Value → Option α) : Option Value → Option α
  | none => some default
  | some v => read v

/-! ### Sections -/

namespace Section

/-- The values of the members with a given name. -/
def valuesOf (name : String) (members : List (Option String × Value)) : List Value :=
  (members.filter fun m => m.1 == some name).map Prod.snd

/-- The only value of the members with a given name, if it is given at all. A repetition is
refused. -/
def single? (name : String) (members : List (Option String × Value)) : Option (Option Value) :=
  match valuesOf name members with
  | [] => some none
  | [v] => some (some v)
  | _ => none

/-- The values that are given for the named settings, in the order of the names. -/
def ofValue? (names : List String) : Value → Option (List (Option Value))
  | .array vs =>
    if vs.length ≤ names.length then
      some (vs.map some ++ List.replicate (names.length - vs.length) none)
    else none
  | .object members =>
    if members.all fun m => m.1.isSome then names.mapM fun name => single? name members else none
  | _ => none

end Section

/-- How programs are run. -/
def RunSettings.ofValue? (v : Value) : Option RunSettings := do
  let standard : RunSettings := {}
  match ← Section.ofValue? ["trace_instructions", "start_pc", "max_cycles"] v with
  | [traceInstructions, startPc, maxCycles] =>
    return {
      traceInstructions := ← readOr standard.traceInstructions readBool? traceInstructions
      startPc := ← readOr standard.startPc (readBits? 32) startPc
      maxCycles := ← readOr standard.maxCycles (readBits? 64) maxCycles }
  | _ => none

/-- How large and how fast the core is. -/
def CoreSettings.ofValue? (v : Value) : Option CoreSettings := do
  let standard : CoreSettings := {}
  match ← Section.ofValue? ["rob_size", "rs_size", "issue_queue_size", "alu_latency",
    "bru_latency", "lsu_latency", "sfu_latency", "cdb_arbitration"] v with
  | [windowSize, stationCount, queueSize, alu, branch, memory, system, policy] =>
    return {
      windowSize := ← readOr standard.windowSize (readBits? 64) windowSize
      stationCount := ← readOr standard.stationCount (readBits? 64) stationCount
      queueSize := ← readOr standard.queueSize (readBits? 64) queueSize
      aluLatency := ← readOr standard.aluLatency (readBits? 32) alu
      branchLatency := ← readOr standard.branchLatency (readBits? 32) branch
      memoryLatency := ← readOr standard.memoryLatency (readBits? 32) memory
      systemLatency := ← readOr standard.systemLatency (readBits? 32) system
      policy := ← readOr standard.policy readPolicy? policy }
  | _ => none

/-- Where memory lies. -/
def MemorySettings.ofValue? (v : Value) : Option MemorySettings := do
  let standard : MemorySettings := {}
  match ← Section.ofValue? ["base", "size"] v with
  | [base, size] =>
    return {
      base := ← readOr standard.base (readBits? 32) base
      size := ← readOr standard.size (readBits? 64) size }
  | _ => none

namespace Config

/-- The configuration that a value describes. -/
def ofValue? (v : Value) : Option Config := do
  match ← Section.ofValue? ["general", "core", "memory"] v with
  | [run, core, memory] =>
    return {
      run := ← readOr {} RunSettings.ofValue? run
      core := ← readOr {} CoreSettings.ofValue? core
      memory := ← readOr {} MemorySettings.ofValue? memory }
  | _ => none

/-- The configuration of a text, or the first reason to refuse it. -/
def ofText (text : String) : Except ConfigError Config :=
  match (Value.ofText? text).bind ofValue? with
  | none => .error .malformed
  | some c => c.check

end Config

end OutOfOrder
