import OutOfOrder.Word

/-!
# One value for each register

The register file keeps a value for each of the 32 registers, and the alias table a tag. What they
have in common is collected here.

## Main results

* `RegisterMap.get_fill`, `RegisterMap.get_set` — what a map holds
* `RegisterMap.mem_toList` — the list of all values has nothing else
-/

namespace OutOfOrder

/-- A value for each register. -/
structure RegisterMap (α : Type) where
  /-- The values, by register number. -/
  values : Vector α 32
deriving DecidableEq

namespace RegisterMap

variable {α : Type}

/-- The same value for every register. -/
def fill (a : α) : RegisterMap α := { values := Vector.replicate 32 a }

/-- The value of a register. -/
def get (m : RegisterMap α) (r : Reg) : α := m.values[r.toNat]

/-- The map with another value for one register. -/
def set (m : RegisterMap α) (r : Reg) (a : α) : RegisterMap α :=
  { values := m.values.set r.toNat a r.isLt }

/-- All values, from `x0` on. -/
def toList (m : RegisterMap α) : List α := m.values.toList

@[simp] theorem get_fill (a : α) (r : Reg) : (fill a).get r = a := by simp [fill, get]

theorem get_set (m : RegisterMap α) (r s : Reg) (a : α) :
    (m.set r a).get s = if r = s then a else m.get s := by
  by_cases hrs : r = s
  · subst hrs
    simp [get, set]
  · have hne : r.toNat ≠ s.toNat := fun he => hrs (BitVec.eq_of_toNat_eq he)
    simp [get, set, hrs, hne]

theorem mem_toList {m : RegisterMap α} {a : α} : a ∈ m.toList ↔ ∃ r, m.get r = a := by
  rw [toList, Vector.mem_toList_iff, Vector.mem_iff_getElem]
  constructor
  · rintro ⟨i, hi, rfl⟩
    refine ⟨BitVec.ofNat 5 i, ?_⟩
    simp [get, Nat.mod_eq_of_lt hi]
  · rintro ⟨r, rfl⟩
    exact ⟨r.toNat, r.isLt, rfl⟩

end RegisterMap

end OutOfOrder
