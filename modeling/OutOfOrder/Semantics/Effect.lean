import OutOfOrder.Semantics.ControlFlow
import OutOfOrder.Semantics.LoadStore
import OutOfOrder.Semantics.SystemAccess

/-!
# What an instruction does

Given the values of its operands, an instruction has a result, perhaps a new place for control to
go, and perhaps an effect on memory or on the control and status registers. Only loads and stores
can fail.

## Main definitions

* `Effect` — result, redirection, memory and registers afterwards
* `Instruction.compute` — the effect, by the unit that executes the instruction
* `Instruction.access?` — the memory request that computing makes, if it makes one
-/

namespace OutOfOrder

/-- What is left after an instruction. -/
structure Effect where
  /-- The value for the destination register. -/
  result : Word
  /-- Where control goes, for control-flow instructions. -/
  redirect : Option Word
  /-- The memory afterwards. -/
  memory : Memory
  /-- The control and status registers afterwards. -/
  csrs : CsrFile

namespace Instruction

/-- The first arithmetic input. -/
def aluInput1 (i : Instruction) (a : Word) : Word := if i.control.aluPc then i.pc else a

/-- The second arithmetic input. -/
def aluInput2 (i : Instruction) (b : Word) : Word := if i.control.aluImm then i.imm else b

/-- The result of an arithmetic instruction. -/
def arithmetic (i : Instruction) (a b : Word) : Word :=
  i.control.alu.eval (i.aluInput1 a) (i.aluInput2 b)

/-- What an instruction does, given the values of its two operands. -/
def compute (i : Instruction) (a b : Word) (m : Memory) (f : CsrFile) :
    Except MemoryError Effect :=
  match i.unit with
  | .alu => .ok { result := i.arithmetic a b, redirect := none, memory := m, csrs := f }
  | .branch => .ok { result := i.link, redirect := some (i.target a b), memory := m, csrs := f }
  | .memory =>
    (i.loadStore a b m).map fun (result, after) =>
      { result, redirect := none, memory := after, csrs := f }
  | .system =>
    let (old, after) := i.accessCsr a f
    .ok { result := old, redirect := none, memory := m, csrs := after }

/-- The memory request that computing makes. -/
def access? (i : Instruction) (a b : Word) : Option Access :=
  if i.unit = .memory then some (i.access a b) else none

end Instruction

end OutOfOrder
