import OutOfOrder.Sparse
import OutOfOrder.Word

/-!
# Control and status registers

A control and status register has a twelve-bit address. Most of the addresses are plain storage,
initially zero. Six of them show the two 64-bit performance counters, whose values come from the
core and not from the program, and one is the fixed number of the hardware thread; writing any of
these seven has no effect.

## Main definitions

* `Csr`, `Csr.isCounter`, `Csr.isReadOnly` — the addresses
* `CsrFile` — the registers
* `CsrFile.read`, `CsrFile.write`, `CsrFile.withCounters`
-/

namespace OutOfOrder

/-- The address of a control and status register. -/
abbrev Csr := BitVec 12

namespace Csr

/-- The register that a word addresses: its twelve low bits count. -/
def ofWord (w : Word) : Csr := w.setWidth 12

/-- Low half of the cycle counter. -/
def cycle : Csr := 0xC00

/-- Low half of the cycle counter, under its machine-level address. -/
def machineCycle : Csr := 0xB00

/-- High half of the cycle counter. -/
def cycleHigh : Csr := 0xC80

/-- Low half of the counter of retired instructions. -/
def instret : Csr := 0xC02

/-- Low half of the counter of retired instructions, under its machine-level address. -/
def machineInstret : Csr := 0xB02

/-- High half of the counter of retired instructions. -/
def instretHigh : Csr := 0xC82

/-- The number of the hardware thread, always zero. -/
def hartId : Csr := 0xF14

/-- Does the register show a performance counter? -/
def isCounter (a : Csr) : Bool :=
  a == cycle || a == machineCycle || a == cycleHigh
    || a == instret || a == machineInstret || a == instretHigh

/-- Do writes to the register have no effect? -/
def isReadOnly (a : Csr) : Bool := a.isCounter || a == hartId

end Csr

/-- The control and status registers. -/
structure CsrFile where
  /-- The plain registers. -/
  cells : Sparse Word := Sparse.empty
  /-- The cycle counter. -/
  cycle : Nat := 0
  /-- The counter of retired instructions. -/
  instret : Nat := 0

namespace CsrFile

/-- All registers zero. -/
def empty : CsrFile := {}

/-- The file with both counters set. -/
def withCounters (f : CsrFile) (cycle instret : Nat) : CsrFile := { f with cycle, instret }

/-- The value of a register. -/
def read (f : CsrFile) (a : Csr) : Word :=
  if a = Csr.cycle ∨ a = Csr.machineCycle then BitVec.ofNat 32 f.cycle
  else if a = Csr.cycleHigh then BitVec.ofNat 32 (f.cycle >>> 32)
  else if a = Csr.instret ∨ a = Csr.machineInstret then BitVec.ofNat 32 f.instret
  else if a = Csr.instretHigh then BitVec.ofNat 32 (f.instret >>> 32)
  else f.cells.get a.toNat

/-- Write a register, unless it is read-only. -/
def write (f : CsrFile) (a : Csr) (value : Word) : CsrFile :=
  if a.isReadOnly then f else { f with cells := f.cells.set a.toNat value }

end CsrFile

end OutOfOrder
