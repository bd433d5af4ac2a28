import OutOfOrder.Command
import OutOfOrder.Command.Arguments

/-!
# The program

Reads the files that the command line names, runs the command and prints what it leaves behind.
-/

namespace OutOfOrder

/-- Why a file cannot be read, with the number of the error where the system gives one. -/
def readFailure : IO.Error → String
  | .noFileOrDirectory _ code details
  | .permissionDenied (some _) code details
  | .inappropriateType (some _) code details =>
    details ++ " (os error " ++ toString code ++ ")"
  | e => toString e

/-- Read a file. -/
def readFile (path : String) : IO Command.File := do
  try
    let contents ← IO.FS.readBinFile path
    return { path, contents := .ok contents }
  catch e => return { path, contents := .error (readFailure e) }

/-- Run the command with the files and the environment that it asks for. -/
def execute (a : Command.Arguments) : IO UInt32 := do
  let started ← IO.monoNanosNow
  let image ← readFile a.image
  let config ← a.config.mapM readFile
  let level ← IO.getEnv "RUST_LOG"
  let outcome := Command.run
    { image, config, trace := a.trace, maxCycles := a.maxCycles
      level := level.bind Level.ofName? }
  for line in outcome.errors do
    IO.eprintln line
  let ended ← IO.monoNanosNow
  for line in outcome.output (some (Float.ofNat (ended - started) / 1000000000)) do
    IO.println line
  return outcome.exitCode.toUInt32

end OutOfOrder

/-- The entry point: `run` with its options. -/
def main (args : List String) : IO UInt32 := do
  match OutOfOrder.Command.Arguments.ofList? args with
  | some a => OutOfOrder.execute a
  | none =>
    IO.eprintln "usage: run --file FILE [--config FILE] [--max-cycles N] [--trace]"
    return 2
