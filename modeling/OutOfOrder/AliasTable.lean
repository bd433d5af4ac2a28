import OutOfOrder.RegisterMap

/-!
# The alias table

For every register the table holds the tag of the youngest instruction in flight that will write
it, or nothing if the register file has the value. Register `x0` never has a writer.

An instruction that retires takes its own alias out of the table, but only its own: a younger
writer of the same register keeps its place. `AliasTable.release` therefore compares before it
clears.

## Main results

* `AliasTable.get_record`, `AliasTable.get_release` — what the table holds after each operation
* `AliasTable.pending_eq_zero_iff` — nobody writes any register
-/

namespace OutOfOrder

/-- The name of an instruction in flight: its place in the reorder buffer. -/
abbrev Tag := Nat

/-- The youngest writer in flight of each register. -/
structure AliasTable where
  tags : RegisterMap (Option Tag) := .fill none
deriving DecidableEq

namespace AliasTable

/-- No writer in flight. -/
def empty : AliasTable := {}

/-- The youngest writer of a register. -/
def get (t : AliasTable) (r : Reg) : Option Tag := t.tags.get r

/-- Make `tag` the youngest writer of a register. -/
def record (t : AliasTable) (r : Reg) (tag : Tag) : AliasTable :=
  if r = 0#5 then t else { tags := t.tags.set r (some tag) }

/-- Take `tag` out of the table, if it is still the youngest writer of the register. -/
def release (t : AliasTable) (r : Reg) (tag : Tag) : AliasTable :=
  if t.get r = some tag then { tags := t.tags.set r none } else t

/-- All entries, from `x0` on. -/
def toList (t : AliasTable) : List (Option Tag) := t.tags.toList

/-- The number of registers with a writer in flight. -/
def pending (t : AliasTable) : Nat := t.toList.countP Option.isSome

@[simp] theorem get_empty (r : Reg) : empty.get r = none := RegisterMap.get_fill none r

theorem get_record (t : AliasTable) (r s : Reg) (tag : Tag) :
    (t.record r tag).get s = if r = s ∧ r ≠ 0#5 then some tag else t.get s := by
  by_cases hr : r = 0#5
  · simp [record, hr]
  · simp [get, record, hr, RegisterMap.get_set]

theorem get_release (t : AliasTable) (r s : Reg) (tag : Tag) :
    (t.release r tag).get s = if r = s ∧ t.get r = some tag then none else t.get s := by
  by_cases ht : t.get r = some tag
  · rw [release, if_pos ht]
    simp [get, RegisterMap.get_set, show t.tags.get r = some tag from ht]
  · simp [release, ht]

theorem pending_eq_zero_iff {t : AliasTable} : t.pending = 0 ↔ ∀ r, t.get r = none := by
  rw [pending, List.countP_eq_zero]
  simp only [toList, RegisterMap.mem_toList, Option.not_isSome_iff_eq_none]
  constructor
  · intro h r
    exact h _ ⟨r, rfl⟩
  · rintro h _ ⟨r, rfl⟩
    exact h r

end AliasTable

end OutOfOrder
