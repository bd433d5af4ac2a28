import OutOfOrder.Instruction.Basic

/-!
# The issue queue

Decoded instructions wait in a queue of bounded length until the core takes them, in the order in
which they came.
-/

namespace OutOfOrder

/-- A bounded queue of decoded instructions. -/
structure IssueQueue where
  /-- How many instructions may wait. -/
  capacity : Nat
  /-- The waiting instructions, the first to leave in front. -/
  waiting : List Instruction := []
deriving DecidableEq, Repr

namespace IssueQueue

/-- A queue in which nothing waits. -/
def empty (capacity : Nat) : IssueQueue := { capacity }

/-- The number of waiting instructions. -/
def length (q : IssueQueue) : Nat := q.waiting.length

/-- Does nothing wait? -/
def isEmpty (q : IssueQueue) : Bool := q.waiting.isEmpty

/-- Is there no room for another instruction? -/
def isFull (q : IssueQueue) : Bool := q.capacity ≤ q.length

/-- The instruction that will leave next. -/
def front? (q : IssueQueue) : Option Instruction := q.waiting.head?

/-- Append an instruction, if there is room. -/
def push? (q : IssueQueue) (i : Instruction) : Option IssueQueue :=
  if q.isFull then none else some { q with waiting := q.waiting ++ [i] }

/-- Take out the instruction in front. -/
def pop? (q : IssueQueue) : Option (Instruction × IssueQueue) :=
  match q.waiting with
  | [] => none
  | i :: rest => some (i, { q with waiting := rest })

end IssueQueue

end OutOfOrder
