import OutOfOrder.RegisterMap

/-!
# The register file

The committed values of the 32 integer registers. Register `x0` is always zero, whatever is written
to it.

## Main results

* `Registers.read_zero`, `Registers.read_write` — what a register holds
-/

namespace OutOfOrder

/-- The committed values of the registers. -/
structure Registers where
  values : RegisterMap Word := .fill 0
deriving DecidableEq

namespace Registers

/-- All registers zero. -/
def zero : Registers := {}

/-- The value of a register. -/
def read (f : Registers) (r : Reg) : Word := if r = 0#5 then 0 else f.values.get r

/-- Write a register. -/
def write (f : Registers) (r : Reg) (value : Word) : Registers :=
  if r = 0#5 then f else { values := f.values.set r value }

/-- All values, from `x0` on. -/
def toList (f : Registers) : List Word := f.values.toList

@[simp] theorem read_zero (f : Registers) : f.read 0#5 = 0 := by simp [read]

theorem read_write (f : Registers) (r s : Reg) (value : Word) :
    (f.write r value).read s = if r = s ∧ r ≠ 0#5 then value else f.read s := by
  by_cases hr : r = 0#5
  · simp [write, hr]
  · by_cases hs : s = 0#5
    · simp [read, hs]
    · simp [read, write, hr, hs, RegisterMap.get_set]

end Registers

end OutOfOrder
