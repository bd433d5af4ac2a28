/-!
# Words, bytes and access widths

Registers, addresses, immediates and instruction words are all 32-bit words, and arithmetic on
them wraps. A word is stored in memory as four bytes, the least significant one first.

## Main definitions

* `Word`, `Byte`, `Reg` — the machine's words, its memory cells and its register numbers
* `Width` — how many bytes one memory access touches
* `Word.bytes`, `Word.ofBytes` — a word as its low bytes, and back

## Main results

* `Word.length_bytes` — `Word.bytes n` has exactly `n` bytes
-/

namespace OutOfOrder

/-- A 32-bit machine word. -/
abbrev Word := BitVec 32

/-- One memory cell. -/
abbrev Byte := BitVec 8

/-- The number of an architectural register, `x0` to `x31`. -/
abbrev Reg := BitVec 5

/-- The register of a given number, if there is one. -/
def Reg.ofNat? (n : Nat) : Option Reg := if n < 32 then some (BitVec.ofNat 5 n) else none

/-- The size of one instruction in bytes, hence the distance to the next one in program order. -/
def instructionSize : Word := 4

/-- How many bytes a memory access touches. -/
inductive Width where
  | byte
  | half
  | word
deriving DecidableEq, Repr

/-- The number of bytes of an access. -/
def Width.bytes : Width → Nat
  | .byte => 1
  | .half => 2
  | .word => 4

namespace Word

/-- The low `n` bytes of a word, the least significant first. -/
def bytes : Nat → Word → List Byte
  | 0, _ => []
  | n + 1, w => w.setWidth 8 :: bytes n (w >>> 8)

/-- The word whose bytes are the given ones, the least significant first; bytes that are not given
are zero. -/
def ofBytes : List Byte → Word
  | [] => 0
  | b :: bs => b.setWidth 32 ||| ofBytes bs <<< 8

@[simp] theorem length_bytes (n : Nat) (w : Word) : (bytes n w).length = n := by
  induction n generalizing w with
  | zero => rfl
  | succ n ih => simp [bytes, ih]

end Word

end OutOfOrder
