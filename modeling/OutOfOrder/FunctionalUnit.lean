import OutOfOrder.Instruction.Control
import OutOfOrder.Stations

/-!
# Functional units

A functional unit works on one instruction at a time. What the instruction computes is settled when
it starts; the unit only lets its latency pass before it offers the result. A finished result stays
in the unit, and keeps it busy, until the result bus takes it.

## Main definitions

* `Completion` — a result on its way, and where it belongs
* `FunctionalUnit` — a place for one completion, with a countdown
* `Units` — the four units of a core
-/

namespace OutOfOrder

/-- A result, and where it belongs. -/
structure Completion where
  /-- The value for the destination register. -/
  result : Word
  /-- The place of the instruction in the reorder buffer. -/
  tag : Tag
  /-- The reservation station of the instruction. -/
  slot : Slot
  /-- The serial number of the instruction. -/
  uuid : Nat
  /-- Where control goes, for control-flow instructions. -/
  redirect : Option Word := none
deriving DecidableEq, Repr

/-- A completion that is held until its countdown has reached zero. -/
structure Work where
  completion : Completion
  /-- How many cycles are left. -/
  remaining : Nat
deriving DecidableEq, Repr

/-- A functional unit. -/
structure FunctionalUnit where
  /-- How many cycles each instruction takes. -/
  latency : Nat
  /-- What the unit is working on. -/
  work : Option Work := none
deriving DecidableEq, Repr

namespace FunctionalUnit

/-- A unit at rest. -/
def idle (latency : Nat) : FunctionalUnit := { latency }

/-- Does the unit hold an instruction, finished or not? -/
def isBusy (u : FunctionalUnit) : Bool := u.work.isSome

/-- The unit at the start of an instruction. -/
def begin (u : FunctionalUnit) (c : Completion) : FunctionalUnit :=
  { u with work := some { completion := c, remaining := u.latency } }

/-- Start on an instruction, unless the unit is busy. -/
def start? (u : FunctionalUnit) (c : Completion) : Option FunctionalUnit :=
  if u.isBusy then none else some (u.begin c)

/-- Let one cycle pass. -/
def tick (u : FunctionalUnit) : FunctionalUnit :=
  { u with work := u.work.map fun w => { w with remaining := w.remaining - 1 } }

/-- The finished result, if there is one. -/
def output? (u : FunctionalUnit) : Option Completion :=
  match u.work with
  | some ⟨c, 0⟩ => some c
  | _ => none

/-- Does the unit offer a finished result? -/
def isDone (u : FunctionalUnit) : Bool := u.output?.isSome

/-- Take the finished result out of the unit. -/
def clear? (u : FunctionalUnit) : Option (Completion × FunctionalUnit) :=
  u.output?.map fun c => (c, { u with work := none })

theorem output?_eq_some_iff {u : FunctionalUnit} {c : Completion} :
    u.output? = some c ↔ u.work = some ⟨c, 0⟩ := by
  rw [output?]
  split
  · next d hd => simp [hd]
  · next hne => simpa using hne c

end FunctionalUnit

/-- The functional units of a core, one of each kind. -/
structure Units where
  alu : FunctionalUnit
  branch : FunctionalUnit
  memory : FunctionalUnit
  system : FunctionalUnit
deriving DecidableEq, Repr

namespace Units

/-- The unit of a kind. -/
def get (us : Units) : UnitKind → FunctionalUnit
  | .alu => us.alu
  | .branch => us.branch
  | .memory => us.memory
  | .system => us.system

/-- Replace the unit of a kind. -/
def set (us : Units) (k : UnitKind) (u : FunctionalUnit) : Units :=
  match k with
  | .alu => { us with alu := u }
  | .branch => { us with branch := u }
  | .memory => { us with memory := u }
  | .system => { us with system := u }

/-- Let one cycle pass in every unit. -/
def tick (us : Units) : Units :=
  { alu := us.alu.tick, branch := us.branch.tick, memory := us.memory.tick
    system := us.system.tick }

/-- Are all units free? -/
def isIdle (us : Units) : Bool := UnitKind.all.all fun k => !(us.get k).isBusy

theorem get_set (us : Units) (k l : UnitKind) (u : FunctionalUnit) :
    (us.set k u).get l = if k = l then u else us.get l := by
  cases k <;> cases l <;> rfl

@[simp] theorem get_tick (us : Units) (k : UnitKind) : us.tick.get k = (us.get k).tick := by
  cases k <;> rfl

end Units

end OutOfOrder
