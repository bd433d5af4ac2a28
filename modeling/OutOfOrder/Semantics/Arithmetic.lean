import OutOfOrder.Instruction.Control

/-!
# The arithmetic unit

The operations come in three families: addition and subtraction, bitwise logic and comparison, and
shifts. Each family answers zero to the operations of the others, and so does the unit as a whole to
the operation that does nothing.
-/

namespace OutOfOrder

namespace AluOp

/-- One if a condition holds, and zero otherwise. -/
def truth (p : Bool) : Word := if p then 1 else 0

/-- Addition and subtraction, which wrap. -/
def arithmetic (op : AluOp) (a b : Word) : Word :=
  match op with
  | add => a + b
  | sub => a - b
  | _ => 0

/-- Bitwise operations and comparisons. -/
def logic (op : AluOp) (a b : Word) : Word :=
  match op with
  | or => a ||| b
  | and => a &&& b
  | xor => a ^^^ b
  | slt => truth (a.slt b)
  | sltu => truth (a.ult b)
  | _ => 0

/-- The shift amount in a word: its five low bits. -/
def shiftAmount (b : Word) : Nat := b.toNat % 32

/-- Shifts, by the amount in the second input. -/
def shift (op : AluOp) (a b : Word) : Word :=
  match op with
  | sll => a <<< shiftAmount b
  | srl => a >>> shiftAmount b
  | sra => a.sshiftRight (shiftAmount b)
  | _ => 0

/-- What the unit makes of its two inputs. -/
def eval (op : AluOp) (a b : Word) : Word :=
  match op with
  | none => 0
  | add | sub => op.arithmetic a b
  | or | and | xor | slt | sltu => op.logic a b
  | sll | srl | sra => op.shift a b

end AluOp

end OutOfOrder
