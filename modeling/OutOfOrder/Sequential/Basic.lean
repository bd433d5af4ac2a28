import OutOfOrder.Registers
import OutOfOrder.Semantics.Effect
import OutOfOrder.Simulator

/-!
# The sequential machine

The machine that a program is written for executes one instruction at a time: it fetches the word
at its program counter, decodes it, reads the source registers, computes, writes the destination
register and goes on. Nothing is in flight between two instructions. Everything that the core does
in another order has to come out as if this machine had done it.

## Main definitions

* `Sequential` — the state of the machine
* `Sequential.execute`, `Sequential.executeAll` — the instructions of a given list, one by one
* `Sequential.step`, `Sequential.Runs` — the instructions of the program in memory
-/

namespace OutOfOrder

/-- The state of a machine that executes one instruction at a time. -/
structure Sequential where
  registers : Registers := .zero
  csrs : CsrFile := .empty
  memory : Memory
  /-- The address of the next instruction. -/
  pc : Word := 0

namespace Sequential

/-- The value of a source register. A source that is not used counts as zero. -/
def operand (s : Sequential) (used : Bool) (r : Reg) : Word :=
  if used then s.registers.read r else 0

/-- What an instruction does in a state. -/
def effect (s : Sequential) (i : Instruction) : Except MemoryError Effect :=
  i.compute (s.operand i.control.usesRs1 i.rs1) (s.operand i.control.usesRs2 i.rs2) s.memory s.csrs

/-- The state after an instruction with the given effect. -/
def apply (s : Sequential) (i : Instruction) (e : Effect) : Sequential where
  registers :=
    match i.dest with
    | some r => s.registers.write r e.result
    | none => s.registers
  csrs := e.csrs
  memory := e.memory
  pc := e.redirect.getD i.fallThrough

/-- Execute one instruction. -/
def execute (s : Sequential) (i : Instruction) : Except MemoryError Sequential :=
  (s.effect i).map (s.apply i)

/-- Execute the instructions of a list, wherever control goes. -/
def executeAll (s : Sequential) (is : List Instruction) : Except MemoryError Sequential :=
  is.foldlM execute s

/-- The instruction at the program counter. The machine does not number instructions. -/
def fetch (s : Sequential) : Except SimError Instruction :=
  match s.memory.fetch s.pc with
  | .error e => .error (.memory e)
  | .ok word =>
    match decode word s.pc 0 with
    | .error e => .error (.decode e)
    | .ok i => .ok i

/-- Execute the instruction at the program counter: the instruction, and the state afterwards. -/
def step (s : Sequential) : Except SimError (Instruction × Sequential) :=
  match s.fetch with
  | .error e => .error e
  | .ok i =>
    match s.execute i with
    | .error e => .error (.memory e)
    | .ok after => .ok (i, after)

/-- The machine executes the given instructions one after the other. An instruction that ends the
program can only be the last of them. -/
inductive Runs : Sequential → List Instruction → Sequential → Prop where
  | nil (s : Sequential) : Runs s [] s
  | exit {s after : Sequential} {i : Instruction} (h : s.step = .ok (i, after))
      (hexit : i.isExit = true) : Runs s [i] after
  | cons {s next after : Sequential} {i : Instruction} {is : List Instruction}
      (h : s.step = .ok (i, next)) (hgoes : i.isExit = false) (hrest : Runs next is after) :
      Runs s (i :: is) after

end Sequential

end OutOfOrder
