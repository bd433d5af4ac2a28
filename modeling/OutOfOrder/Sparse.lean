import Std.Data.TreeMap

/-!
# Cells numbered by naturals, nearly all of them at rest

Main memory and the control and status registers are large arrays of which a run touches only a
few cells. `Sparse α` keeps the cells that were written and reads the default of `α` everywhere
else, so its size is that of the run and not that of the address space.

## Main results

* `Sparse.get_empty`, `Sparse.get_set` — the two equations that say what a cell holds
* `Sparse.get_setAll` — writing a list of values at consecutive cells

Everything else about `Sparse` follows from these; no other module looks at the underlying tree.
-/

namespace OutOfOrder

/-- Cells numbered by naturals, all but finitely many of which hold `default`. -/
structure Sparse (α : Type) where
  /-- The cells that have been written. -/
  written : Std.TreeMap Nat α := ∅

namespace Sparse

variable {α : Type} [Inhabited α]

/-- All cells at rest. -/
def empty : Sparse α := {}

/-- What cell `i` holds. -/
def get (s : Sparse α) (i : Nat) : α := s.written.getD i default

/-- Put `a` into cell `i`. -/
def set (s : Sparse α) (i : Nat) (a : α) : Sparse α := { written := s.written.insert i a }

/-- Put the values into the cells from `i` on. -/
def setAll (s : Sparse α) (i : Nat) : List α → Sparse α
  | [] => s
  | a :: as => (s.set i a).setAll (i + 1) as

/-- The contents of the `n` cells from `i` on. -/
def slice (s : Sparse α) (i n : Nat) : List α := (List.range n).map fun k => s.get (i + k)

@[simp] theorem get_empty (i : Nat) : (empty : Sparse α).get i = default := by
  simp [empty, get]

theorem get_set (s : Sparse α) (i j : Nat) (a : α) :
    (s.set i a).get j = if i = j then a else s.get j := by
  simp [get, set, Std.TreeMap.getD_insert]

/-- Consecutive writes: cell `j` holds the value written there if it lies in the written stretch,
and what it held before otherwise. -/
theorem get_setAll (s : Sparse α) (i j : Nat) (as : List α) :
    (s.setAll i as).get j = if i ≤ j then as.getD (j - i) (s.get j) else s.get j := by
  induction as generalizing s i with
  | nil => simp [setAll]
  | cons a as ih =>
    rw [setAll, ih, get_set]
    by_cases hij : i = j
    · subst hij
      simp [show ¬ i + 1 ≤ i by omega]
    · by_cases hlt : i + 1 ≤ j
      · have hle : i ≤ j := by omega
        obtain ⟨k, hk⟩ : ∃ k, j - i = k + 1 := ⟨j - (i + 1), by omega⟩
        have hk' : j - (i + 1) = k := by omega
        simp [hlt, hle, hij, hk, hk']
      · have hle : ¬ i ≤ j := by omega
        simp [hlt, hle, hij]

end Sparse

end OutOfOrder
