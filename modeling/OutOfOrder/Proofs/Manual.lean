import OutOfOrder.Csr
import OutOfOrder.Memory
import OutOfOrder.Proofs.InstructionSet

/-!
# What the instructions do, by the manual

The semantics of the instruction set is written down here as a manual has it: by the numbers in the
bit fields of a word, with integers wherever the text speaks of numbers. Nothing of the decoder and
nothing of the units is used. There are no control words and no selected inputs: an operation that
does not read a register does not mention one, and an immediate is put together where it is needed.

Registers, memory and control and status registers are functions here, so that saying what an
instruction leaves behind is saying what it leaves alone.

## Main definitions

* `Manual.immediateI`, `immediateS`, `immediateB`, `immediateU`, `immediateJ` — the immediates
* `Manual.State` — what an instruction finds
* `Manual.fault?`, `value?`, `next`, `memory`, `csrs` — what it does, part by part
* `Manual.outcome`, `Manual.execute` — all parts together
* `Manual.destination?` — the register that gets the value
-/

namespace OutOfOrder.Manual

/-! ### Numbers -/

/-- The number that `n` stands for in two's complement, if half of all patterns are not negative. -/
def signed (half n : Nat) : Int := if n < half then n else n - 2 * half

/-- The word that stands for a number, which wraps if it is out of range. -/
def word (z : Int) : Word := BitVec.ofInt 32 z

/-- Two to the `k`. -/
def power (k : Nat) : Nat := 1 <<< k

/-! ### Immediates -/

/-- The immediate of loads, jumps to a register and arithmetic. -/
def immediateI (w : Word) : Int := signed 0x800 (w.bits 31 20)

/-- The immediate of stores. -/
def immediateS (w : Word) : Int := signed 0x800 (w.bits 31 25 * 0x20 + w.bits 11 7)

/-- The immediate of branches. -/
def immediateB (w : Word) : Int :=
  signed 0x1000
    (w.bits 31 31 * 0x1000 + w.bits 7 7 * 0x800 + w.bits 30 25 * 0x20 + w.bits 11 8 * 2)

/-- The upper immediate. -/
def immediateU (w : Word) : Nat := w.bits 31 12 * 0x1000

/-- The immediate of jumps. -/
def immediateJ (w : Word) : Int :=
  signed 0x100000
    (w.bits 31 31 * 0x100000 + w.bits 19 12 * 0x1000 + w.bits 20 20 * 0x800 + w.bits 30 21 * 2)

/-! ### States -/

/-- What an instruction finds. -/
structure State where
  /-- Its own address. -/
  pc : Word
  registers : Reg → Word
  /-- The bytes by address, where there is memory. -/
  memory : Nat → Option Byte
  csrs : Csr → Word

namespace State

/-- The value of the first source register. -/
def rs1 (s : State) (w : Word) : Word := s.registers (BitVec.ofNat 5 (w.bits 19 15))

/-- The value of the second source register. -/
def rs2 (s : State) (w : Word) : Word := s.registers (BitVec.ofNat 5 (w.bits 24 20))

end State

/-! ### Arithmetic -/

/-- The arithmetic operations, by minor function code. Addition and right shift have an alternate
form. A shift takes the five low bits of the second number. -/
def arithmetic (funct3 : Nat) (alternate : Bool) (a b : Word) : Word :=
  match funct3, alternate with
  | 0, false => word (a.toInt + b.toInt)
  | 0, true => word (a.toInt - b.toInt)
  | 1, _ => word (a.toNat * power (b.toNat % 32))
  | 2, _ => if a.toInt < b.toInt then 1 else 0
  | 3, _ => if a.toNat < b.toNat then 1 else 0
  | 4, _ => a ^^^ b
  | 5, false => word (a.toNat / power (b.toNat % 32))
  | 5, true => word (a.toInt / power (b.toNat % 32))
  | 6, _ => a ||| b
  | _, _ => a &&& b

/-- The second number of arithmetic with an immediate. For a shift it is the amount. -/
def immediate (w : Word) : Word :=
  if w.bits 14 12 ∈ [1, 5] then word (w.bits 24 20) else word (immediateI w)

/-! ### Control -/

/-- The conditions of branches, by minor function code. -/
def holds (funct3 : Nat) (a b : Word) : Bool :=
  match funct3 with
  | 0 => a = b
  | 1 => a ≠ b
  | 4 => a.toInt < b.toInt
  | 5 => b.toInt ≤ a.toInt
  | 6 => a.toNat < b.toNat
  | 7 => b.toNat ≤ a.toNat
  | _ => false

/-- The address of the next instruction. -/
def next (w : Word) (s : State) : Word :=
  match w.bits 6 0 with
  | 0x63 =>
    if holds (w.bits 14 12) (s.rs1 w) (s.rs2 w) then word (s.pc.toInt + immediateB w)
    else word (s.pc.toInt + 4)
  | 0x6F => word (s.pc.toInt + immediateJ w)
  | 0x67 =>
    let target := (s.rs1 w).toInt + immediateI w
    word (target - target % 2)
  | _ => word (s.pc.toInt + 4)

/-! ### Loads and stores -/

/-- How many bytes a load or store is about. -/
def width (w : Word) : Nat :=
  match w.bits 14 12 with
  | 0 | 4 => 1
  | 1 | 5 => 2
  | _ => 4

/-- The address of a load or store. -/
def address? (w : Word) (s : State) : Option Word :=
  match w.bits 6 0 with
  | 0x03 => some (word ((s.rs1 w).toInt + immediateI w))
  | 0x23 => some (word ((s.rs1 w).toInt + immediateS w))
  | _ => none

/-- Why an access to `n` bytes fails. The address must be a multiple of their number, and there must
be memory at all of them. -/
def accessFault? (memory : Nat → Option Byte) (a : Word) (n : Nat) : Option MemoryError :=
  if a.toNat % n ≠ 0 then some (.misaligned a n)
  else if ∀ k ∈ List.range n, (memory (a.toNat + k)).isSome = true then none
  else some (.outOfBounds a n)

/-- Why an instruction fails. -/
def fault? (w : Word) (s : State) : Option MemoryError :=
  match address? w s with
  | none => none
  | some a => accessFault? s.memory a (width w)

/-- The number in the `n` bytes from an address on, the least significant one first. -/
def number (memory : Nat → Option Byte) (a : Nat) : Nat → Nat
  | 0 => 0
  | n + 1 => ((memory a).getD 0).toNat + 0x100 * number memory (a + 1) n

/-- The value of a load, by minor function code: signed bytes and halves, unsigned ones, and
words. -/
def loaded (funct3 : Nat) (memory : Nat → Option Byte) (a : Nat) : Word :=
  match funct3 with
  | 0 => word (signed 0x80 (number memory a 1))
  | 1 => word (signed 0x8000 (number memory a 2))
  | 4 => word (number memory a 1)
  | 5 => word (number memory a 2)
  | _ => word (number memory a 4)

/-- The memory after the `n` low bytes of a word have been stored at an address, the least
significant one first. -/
def stored (memory : Nat → Option Byte) (a n : Nat) (v : Word) (x : Nat) : Option Byte :=
  if a ≤ x ∧ x < a + n then some (BitVec.ofNat 8 (v.toNat / power (8 * (x - a)))) else memory x

/-- The memory afterwards. Only stores change it. -/
def memory (w : Word) (s : State) : Nat → Option Byte :=
  match w.bits 6 0 with
  | 0x23 => stored s.memory (word ((s.rs1 w).toInt + immediateS w)).toNat (width w) (s.rs2 w)
  | _ => s.memory

/-! ### Control and status registers -/

/-- Is this an access to a control and status register? -/
def isAccess (w : Word) : Prop := w.bits 6 0 = 0x73 ∧ w.bits 14 12 ≠ 0

instance (w : Word) : Decidable (isAccess w) := inferInstanceAs (Decidable (_ ∧ _))

/-- The register that is accessed. -/
def csr (w : Word) : Csr := BitVec.ofNat 12 (w.bits 31 20)

/-- The source of an access: a register, or the number in its field. -/
def source (w : Word) (s : State) : Word :=
  if w.bits 14 12 < 4 then s.rs1 w else word (w.bits 19 15)

/-- The new value of the register that is accessed: the source, or the old value with the bits of
the source set or cleared. -/
def replacement (w : Word) (s : State) : Word :=
  match w.bits 14 12 % 4 with
  | 1 => source w s
  | 2 => s.csrs (csr w) ||| source w s
  | _ => s.csrs (csr w) &&& ~~~source w s

/-- The registers that no instruction changes: both counters under all their addresses, and the
number of the hardware thread. -/
def fixed : List Csr := [0xC00, 0xB00, 0xC80, 0xC02, 0xB02, 0xC82, 0xF14]

/-- The control and status registers afterwards. -/
def csrs (w : Word) (s : State) (r : Csr) : Word :=
  if isAccess w ∧ r = csr w ∧ r ∉ fixed then replacement w s else s.csrs r

/-! ### Instructions -/

/-- The value for the destination register, if the operation has one. -/
def value? (w : Word) (s : State) : Option Word :=
  match w.bits 6 0 with
  | 0x37 => some (word (immediateU w))
  | 0x17 => some (word (s.pc.toInt + immediateU w))
  | 0x33 =>
    some (arithmetic (w.bits 14 12) (w.bits 31 25 = 0x20) (s.rs1 w) (s.rs2 w))
  | 0x13 =>
    some (arithmetic (w.bits 14 12) (w.bits 14 12 = 5 ∧ w.bits 31 25 = 0x20) (s.rs1 w)
      (immediate w))
  | 0x03 =>
    some (loaded (w.bits 14 12) s.memory (word ((s.rs1 w).toInt + immediateI w)).toNat)
  | 0x6F | 0x67 => some (word (s.pc.toInt + 4))
  | 0x73 => if isAccess w then some (s.csrs (csr w)) else none
  | _ => none

/-- The register that gets the value. Register `x0` gets none, and stores, branches, fences and the
system instructions that access no register have none. -/
def destination? (w : Word) : Option Reg :=
  if w.bits 11 7 = 0 ∨ w.bits 6 0 ∈ [0x23, 0x63, 0x0F] ∨ w.bits 6 0 = 0x73 ∧ w.bits 14 12 = 0 then
    none
  else some (BitVec.ofNat 5 (w.bits 11 7))

/-- What is left after an instruction. -/
structure Outcome where
  /-- The value for the destination register, if the operation has one. -/
  value : Option Word
  /-- The address of the next instruction. -/
  next : Word
  memory : Nat → Option Byte
  csrs : Csr → Word

/-- What is left after the instruction `w`, if it does not fail. -/
def outcome (w : Word) (s : State) : Outcome where
  value := value? w s
  next := next w s
  memory := memory w s
  csrs := csrs w s

/-- What the instruction `w` does. -/
def execute (w : Word) (s : State) : Except MemoryError Outcome :=
  match fault? w s with
  | some e => .error e
  | none => .ok (outcome w s)

end OutOfOrder.Manual
