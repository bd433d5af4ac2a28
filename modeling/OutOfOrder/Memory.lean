import OutOfOrder.Sparse
import OutOfOrder.Text.Hex
import OutOfOrder.Word

/-!
# Main memory

A stretch of bytes that begins at a base address. Words and half-words are stored with the least
significant byte first, and must stand at a multiple of their own size. An access that reaches
outside the stretch fails and changes nothing, and so does one that is not aligned; where both
faults apply, misalignment is the one reported.

## Main definitions

* `Memory`, `Memory.empty` — a stretch of memory, initially zero
* `Memory.read`, `Memory.write`, `Memory.fetch` — aligned accesses of one, two or four bytes
* `Memory.load` — copying an image of any length to any place
* `Access`, `Memory.perform` — the traffic between the load/store unit and memory, as data
-/

namespace OutOfOrder

/-- Why an access failed. -/
inductive MemoryError where
  /-- Part of the access lies outside the memory. -/
  | outOfBounds (addr : Word) (width : Nat)
  /-- The address is no multiple of the access size. -/
  | misaligned (addr : Word) (width : Nat)
deriving DecidableEq, Repr

/-- The error in words. -/
def MemoryError.message : MemoryError → String
  | outOfBounds addr width =>
    "access of " ++ toString width ++ " bytes at " ++ Hex.word addr ++ " is out of bounds"
  | misaligned addr width =>
    "misaligned access of " ++ toString width ++ " bytes at " ++ Hex.word addr

/-- A stretch of bytes. -/
structure Memory where
  /-- The address of the first byte. -/
  base : Word
  /-- How many bytes there are. -/
  size : Nat
  /-- The bytes, numbered from the base. -/
  cells : Sparse Byte := Sparse.empty

namespace Memory

/-- A memory of zeros. -/
def empty (base : Word) (size : Nat) : Memory := { base, size }

/-- The position of `n` bytes at an address, if all of them lie inside the memory. -/
def offset? (m : Memory) (addr : Word) (n : Nat) : Option Nat :=
  if m.base.toNat ≤ addr.toNat ∧ addr.toNat - m.base.toNat + n ≤ m.size then
    some (addr.toNat - m.base.toNat)
  else none

/-- The position of `n` bytes at an address, or the error of reaching outside. -/
def locate (m : Memory) (addr : Word) (n : Nat) : Except MemoryError Nat :=
  match m.offset? addr n with
  | some i => .ok i
  | none => .error (.outOfBounds addr n)

/-- The position of an aligned access. -/
def check (m : Memory) (addr : Word) (width : Width) : Except MemoryError Nat :=
  if addr.toNat % width.bytes = 0 then m.locate addr width.bytes
  else .error (.misaligned addr width.bytes)

/-- The bytes at position `i`. -/
def peek (m : Memory) (i n : Nat) : List Byte := m.cells.slice i n

/-- Overwrite the bytes at position `i`. -/
def poke (m : Memory) (i : Nat) (bs : List Byte) : Memory :=
  { m with cells := m.cells.setAll i bs }

/-- Read an aligned number; the bytes above it are zero. -/
def read (m : Memory) (addr : Word) (width : Width) : Except MemoryError Word :=
  (m.check addr width).map fun i => Word.ofBytes (m.peek i width.bytes)

/-- Write the low bytes of a word to an aligned place. -/
def write (m : Memory) (addr : Word) (width : Width) (value : Word) : Except MemoryError Memory :=
  (m.check addr width).map fun i => m.poke i (Word.bytes width.bytes value)

/-- Read an instruction word. -/
def fetch (m : Memory) (addr : Word) : Except MemoryError Word := m.read addr .word

/-- Copy bytes to a place of any alignment. -/
def load (m : Memory) (addr : Word) (bs : List Byte) : Except MemoryError Memory :=
  (m.locate addr bs.length).map fun i => m.poke i bs

end Memory

/-! ### Traffic -/

/-- One request to memory. -/
inductive Access where
  | read (addr : Word) (width : Width)
  | write (addr : Word) (width : Width) (value : Word)
deriving DecidableEq, Repr

/-- Answer a request: the number read, or zero for a write, and the memory afterwards. -/
def Memory.perform (m : Memory) : Access → Except MemoryError (Word × Memory)
  | .read addr width => (m.read addr width).map fun value => (value, m)
  | .write addr width value => (m.write addr width value).map fun after => (0, after)

end OutOfOrder
