import Trellis.Text.Leading

/-!
# Numbers in JSON text

A number is an integer if it is written without fraction and exponent and fits 64 bits, signed or
unsigned; `-0` and every other number is a binary64 number. Its digits are collected into a 64-bit
significand, digits that no longer fit being dropped, and the significand is then scaled by a power
of ten. A number too large for binary64 has no value.

* `Significand.collectWhole_zero`: leading zeros leave the significand as it is.
-/
namespace Trellis.Json

-- the power of the core library, also next to modules that bring another one
attribute [local instance (high)] instPowNat

/-- A number as it is written. -/
structure Numeral where
  negative : Bool
  whole : List Char
  fraction : Option (List Char)
  /-- Whether the exponent is negative, and its digits. -/
  exponent : Option (Bool × List Char)
  deriving DecidableEq, Repr

/-- The value of a number: exact if it is an integer of 64 bits. -/
inductive Number where
  | integer (n : Int)
  | real (x : Float)

/-- `digits · 10 ^ exponent`, with at most 64 bits of digits. -/
structure Significand where
  digits : Nat
  exponent : Int
  /-- A digit has been dropped. -/
  full : Bool
  deriving DecidableEq, Repr

namespace Significand

def greatest : Nat := 2 ^ (64 : Nat) - 1

def zero : Significand := ⟨0, 0, false⟩

/-- Take in a digit before the point; one that does not fit counts as a factor of ten. -/
def collectWhole (s : Significand) (c : Char) : Significand :=
  let digits := s.digits * 10 + Text.digitValue c
  if s.full || greatest < digits then ⟨s.digits, s.exponent + 1, true⟩
  else ⟨digits, s.exponent, false⟩

/-- Take in a digit after the point; one that does not fit is dropped, and so are all after it. -/
def collectFraction (s : Significand) (c : Char) : Significand :=
  let digits := s.digits * 10 + Text.digitValue c
  if s.full || greatest < digits then { s with full := true }
  else ⟨digits, s.exponent - 1, false⟩

theorem collectWhole_zero : zero.collectWhole '0' = zero := by decide

/-- `10 ^ n` in binary64. -/
def powerOfTen (n : Nat) : Float := Float.ofScientific 1 false n

/-- The scaled value; `none` when it is too large. -/
def toFloat? (s : Significand) : Option Float :=
  let x := Float.ofNat s.digits
  if s.digits = 0 then some 0
  else if 308 < s.exponent then none
  else if 0 ≤ s.exponent then
    let scaled := x * powerOfTen s.exponent.toNat
    if scaled.isInf then none else some scaled
  else if -308 ≤ s.exponent then some (x / powerOfTen (-s.exponent).toNat)
  else if -616 ≤ s.exponent then some (x / powerOfTen 308 / powerOfTen (-s.exponent - 308).toNat)
  else some 0

end Significand

namespace Numeral

def wholeSignificand (n : Numeral) : Significand :=
  n.whole.foldl Significand.collectWhole .zero

/-- All digits of the numeral, with its exponent. -/
def significand (n : Numeral) : Significand :=
  let whole := n.wholeSignificand
  let all :=
    match n.fraction with
    | none => whole
    | some digits => digits.foldl Significand.collectFraction { whole with full := false }
  match n.exponent with
  | none => all
  | some (negative, digits) =>
    let e := (Text.naturalOf digits : Int)
    { all with exponent := all.exponent + if negative then -e else e }

def isInteger (n : Numeral) : Bool :=
  let whole := n.wholeSignificand
  n.fraction.isNone && n.exponent.isNone && !whole.full &&
    (!n.negative || (0 < whole.digits && whole.digits ≤ 2 ^ (63 : Nat)))

/-- The value of the numeral; `none` when it is too large. -/
def value? (n : Numeral) : Option Number :=
  if n.isInteger then
    let magnitude := (n.wholeSignificand.digits : Int)
    some (.integer (if n.negative then -magnitude else magnitude))
  else n.significand.toFloat?.map fun x => .real (if n.negative then -x else x)

end Numeral

end Trellis.Json
