/-!
# Hexadecimal text

Addresses and codes are printed in lower-case hexadecimal behind `0x`, either with no leading
zeros or filled up with zeros to a fixed number of digits. A number that needs more digits than
the field has is printed in full.
-/

namespace OutOfOrder.Hex

/-- The hexadecimal digits of a number, without leading zeros. -/
def digits (n : Nat) : List Char := Nat.toDigits 16 n

/-- A number in hexadecimal, without leading zeros. -/
def plain (n : Nat) : String := "0x" ++ String.ofList (digits n)

/-- A number in hexadecimal, filled up with zeros to at least `width` digits. -/
def padded (width n : Nat) : String :=
  "0x" ++ String.ofList (List.replicate (width - (digits n).length) '0' ++ digits n)

/-- An address or word in full: eight digits. -/
def word {w : Nat} (x : BitVec w) : String := padded 8 x.toNat

/-- A function code or opcode: two digits. -/
def code {w : Nat} (x : BitVec w) : String := padded 2 x.toNat

end OutOfOrder.Hex
