/-!
# Command-line arguments

`run` takes the path of a program image and, optionally, the path of a configuration, a cycle budget
and the wish to log every step:

```
run --file program.bin --config core.json --max-cycles 1000 --trace
```

An option with a value takes it from the next argument or from behind an equals sign.
-/

namespace OutOfOrder.Command

/-- What is asked for on the command line. -/
structure Arguments where
  /-- The path of the program image. -/
  image : String
  /-- The path of the configuration. -/
  config : Option String := none
  /-- Log every step of every instruction. -/
  trace : Bool := false
  /-- The cycle budget. -/
  maxCycles : Option (BitVec 64) := none

namespace Arguments

/-- Split an argument such as `--file=program.bin` at its first equals sign. -/
def split (arg : String) : List String :=
  let cs := arg.toList
  match cs.dropWhile (· ≠ '=') with
  | '=' :: value =>
    if "--".toList.isPrefixOf cs then
      [String.ofList (cs.takeWhile (· ≠ '=')), String.ofList value]
    else [arg]
  | _ => [arg]

/-- A cycle budget, in decimal. -/
def budget? (s : String) : Option (BitVec 64) :=
  if s.toList.all Char.isDigit then
    s.toNat?.bind fun n =>
      let budget := BitVec.ofNat 64 n
      if budget.toNat = n then some budget else none
  else none

/-- Read the options of `run`, given what has been read before them. Of an option that is given more
than once the last value counts. -/
def options? (image config : Option String) (trace : Bool) (maxCycles : Option (BitVec 64)) :
    List String → Option Arguments
  | [] => image.map fun image => { image, config, trace, maxCycles }
  | "--trace" :: rest => options? image config true maxCycles rest
  | name :: value :: rest =>
    if name = "--file" ∨ name = "-f" then options? (some value) config trace maxCycles rest
    else if name = "--config" ∨ name = "-c" then options? image (some value) trace maxCycles rest
    else if name = "--max-cycles" then
      match budget? value with
      | some n => options? image config trace (some n) rest
      | none => none
    else none
  | _ => none

/-- Read a command line. -/
def ofList? : List String → Option Arguments
  | "run" :: rest => options? none none false none (rest.flatMap split)
  | _ => none

end Arguments

end OutOfOrder.Command
