import OutOfOrder.AliasTable
import OutOfOrder.Instruction.Basic

/-!
# The reorder buffer

Instructions enter the reorder buffer in program order and leave it in program order, but their
results arrive in any order in between. The buffer is a ring of a fixed number of places. The
places that are taken are always consecutive, so the buffer is kept as the list of its entries,
oldest first, with the number of entries that have left it. The entry that was the `n`-th to enter
stands at place `n` modulo the capacity, and that place is its tag.

## Main definitions

* `Entry` — an instruction in flight, and its result once there is one
* `ReorderBuffer` — the ring
* `ReorderBuffer.allocate?`, `ReorderBuffer.markReady?`, `ReorderBuffer.commit?` — its operations
* `ReorderBuffer.get?`, `ReorderBuffer.readyValue?` — looking up a tag
* `ReorderBuffer.toList` — the entries with their tags, oldest first

Tags are reused as soon as an entry has left. That no tag outlives its entry is a property of the
whole core and not of this structure.
-/

namespace OutOfOrder

/-- An instruction in flight. -/
structure Entry where
  instruction : Instruction
  /-- Has the result arrived? -/
  ready : Bool := false
  /-- The result, once it has arrived. -/
  result : Word := 0
deriving DecidableEq, Repr

/-- A ring of instructions in flight. -/
structure ReorderBuffer where
  /-- The number of places. -/
  capacity : Nat
  /-- How many entries have left. -/
  departed : Nat := 0
  /-- The entries present, oldest first. -/
  entries : List Entry := []
  /-- There are no more entries than places. -/
  length_le : entries.length ≤ capacity := by simp

namespace ReorderBuffer

/-- A ring with all places free. -/
def empty (capacity : Nat) : ReorderBuffer := { capacity }

/-- The number of entries. -/
def length (b : ReorderBuffer) : Nat := b.entries.length

/-- Are all places free? -/
def isEmpty (b : ReorderBuffer) : Bool := b.entries.isEmpty

/-- Are all places taken? -/
def isFull (b : ReorderBuffer) : Bool := b.length == b.capacity

/-- The number of free places. -/
def free (b : ReorderBuffer) : Nat := b.capacity - b.length

/-- The tag of the entry at position `i`, counted from the oldest. -/
def tagAt (b : ReorderBuffer) (i : Nat) : Tag := (b.departed + i) % b.capacity

/-- The tag of the oldest entry. -/
def headTag? (b : ReorderBuffer) : Option Tag :=
  if b.isEmpty then none else some (b.tagAt 0)

/-- The tag that the next entry will get. -/
def nextTag? (b : ReorderBuffer) : Option Tag :=
  if b.isFull then none else some (b.tagAt b.length)

/-- The entries with their tags, oldest first. -/
def toList (b : ReorderBuffer) : List (Tag × Entry) :=
  b.entries.mapIdx fun i e => (b.tagAt i, e)

/-- The position of a tag, counted from the oldest entry around the ring. For a tag in use it is
the position of its entry. -/
def distance (b : ReorderBuffer) (tag : Tag) : Nat :=
  (tag + b.capacity - b.departed % b.capacity) % b.capacity

/-- The entry that bears a tag. -/
def get? (b : ReorderBuffer) (tag : Tag) : Option Entry :=
  if tag < b.capacity then b.entries[b.distance tag]? else none

/-- The result of the entry that bears a tag, if it has arrived. -/
def readyValue? (b : ReorderBuffer) (tag : Tag) : Option Word :=
  (b.get? tag).bind fun e => if e.ready then some e.result else none

/-- Let an instruction enter, without a result. -/
def allocate? (b : ReorderBuffer) (i : Instruction) : Option (Tag × ReorderBuffer) :=
  if h : b.entries.length < b.capacity then
    some (b.tagAt b.length,
      { b with
        entries := b.entries ++ [{ instruction := i }]
        length_le := by
          rw [List.length_append]
          exact h })
  else none

/-- Deliver the result of the entry that bears a tag. -/
def markReady? (b : ReorderBuffer) (tag : Tag) (result : Word) : Option ReorderBuffer :=
  if (b.get? tag).isSome then
    some
      { b with
        entries := b.entries.modify (b.distance tag) fun e => { e with ready := true, result }
        length_le := by simpa using b.length_le }
  else none

/-- Let the oldest entry leave, if its result has arrived. -/
def commit? (b : ReorderBuffer) : Option (Tag × Entry × ReorderBuffer) :=
  match h : b.entries with
  | [] => none
  | e :: es =>
    if e.ready then
      some (b.tagAt 0, e,
        { b with
          departed := b.departed + 1
          entries := es
          length_le := by
            have := b.length_le
            rw [h] at this
            exact Nat.le_of_succ_le this })
    else none

end ReorderBuffer

end OutOfOrder
