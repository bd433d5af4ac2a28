/-!
# Decimal text with a fixed number of places

Rates are printed with a fixed number of decimal places. A binary floating-point number is a natural
number times a power of two, so its decimal expansion is finite; it is computed exactly and rounded
once, to the nearest number with so many places, and to the one with an even last digit if two are
equally near.

## Main definitions

* `roundDiv` — a quotient rounded to the nearest integer, ties to even
* `Binary64`, `Binary64.ofBits?` — a finite floating-point number, taken apart
* `Decimal.fixed` — its text
-/

namespace OutOfOrder

/-- A quotient rounded to the nearest integer, and to the even one if two are equally near. -/
def roundDiv (n d : Nat) : Nat :=
  let q := n / d
  let r := n % d
  if d < 2 * r ∨ (2 * r = d ∧ q % 2 = 1) then q + 1 else q

/-- A finite floating-point number: `mantissa * 2 ^ exponent / 2 ^ 1075`, with a sign. -/
structure Binary64 where
  negative : Bool
  mantissa : Nat
  /-- The exponent, counted from the smallest one there is. -/
  exponent : Nat
deriving DecidableEq, Repr

/-- Take a 64-bit pattern apart, if it denotes a finite number. Subnormal numbers have the smallest
exponent and no leading one. -/
def Binary64.ofBits? (bits : BitVec 64) : Option Binary64 :=
  let negative := bits.getLsbD 63
  let exponent := (bits.extractLsb' 52 11).toNat
  let fraction := (bits.extractLsb' 0 52).toNat
  if exponent = 2047 then none
  else if exponent = 0 then some { negative, mantissa := fraction, exponent := 1 }
  else some { negative, mantissa := 0x10000000000000 + fraction, exponent }

namespace Decimal

/-- The absolute value in units of the last decimal place, rounded. -/
def scaled (places : Nat) (x : Binary64) : Nat :=
  roundDiv (x.mantissa * Nat.pow 2 x.exponent * Nat.pow 10 places) (Nat.pow 2 1075)

/-- The digits of a number, filled up with zeros to at least `width` of them. -/
def padded (width n : Nat) : String :=
  let ds := Nat.toDigits 10 n
  String.ofList (List.replicate (width - ds.length) '0' ++ ds)

/-- A number of units of the last decimal place, with the point put in. -/
def withPoint (places n : Nat) : String :=
  toString (n / Nat.pow 10 places)
    ++ if places = 0 then "" else "." ++ padded places (n % Nat.pow 10 places)

/-- A floating-point number with a fixed number of decimal places. What is not finite has none. -/
def fixed (places : Nat) (x : Float) : String :=
  match Binary64.ofBits? x.toBits.toBitVec with
  | some b => (if b.negative then "-" else "") ++ withPoint places (scaled places b)
  | none => if x.isNaN then "NaN" else if x < 0 then "-inf" else "inf"

end Decimal

end OutOfOrder
