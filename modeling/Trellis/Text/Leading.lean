import Trellis.Length
import Trellis.Text.Blank

/-!
# The number that a text begins with

Lengths in expressions are read leniently: blanks, a sign, then as many digits as there are;
whatever follows is not looked at (`"10px"` is 10). Percentages are read the same way with an
optional decimal part.
-/
namespace Trellis.Text

/-- A sign, if there is one, and the rest. -/
def sign : List Char → Bool × List Char
  | '-' :: rest => (true, rest)
  | '+' :: rest => (false, rest)
  | cs => (false, cs)

def digitValue (c : Char) : Nat := c.toNat - '0'.toNat

/-- The number that `digits` spell. -/
def naturalOf (digits : List Char) : Nat := digits.foldl (fun n c => n * 10 + digitValue c) 0

/-- The number that `digits` spell, held to `most` after every digit. -/
def naturalUpTo (most : Nat) (digits : List Char) : Nat :=
  digits.foldl (fun n c => min (n * 10 + digitValue c) most) 0

/-- The whole number that `cs` begins with; `none` when it begins with no digit. A magnitude beyond
the greatest length counts as the greatest length. -/
def leadingInt? (cs : List Char) : Option Int :=
  let (negative, rest) := sign (trimStart cs)
  let digits := rest.takeWhile Char.isDigit
  if digits.isEmpty then none
  else
    let magnitude : Int := naturalUpTo Length.greatest.toNat digits
    some (if negative then -magnitude else magnitude)

/-- A decimal number as it is written: sign, whole digits and decimal digits. -/
structure Decimal where
  negative : Bool
  whole : List Char
  fraction : List Char
  deriving DecidableEq, Repr

namespace Decimal

/-- The binary64 number nearest to the decimal. -/
def toFloat (d : Decimal) : Float :=
  let magnitude := Float.ofScientific (naturalOf (d.whole ++ d.fraction)) true d.fraction.length
  if d.negative then -magnitude else magnitude

end Decimal

/-- The decimal number that `cs` begins with; `none` when there is no digit on either side of the
point. -/
def leadingDecimal? (cs : List Char) : Option Decimal :=
  let (negative, rest) := sign (trimStart cs)
  let whole := rest.takeWhile Char.isDigit
  let fraction :=
    match rest.dropWhile Char.isDigit with
    | '.' :: tail => tail.takeWhile Char.isDigit
    | _ => []
  if whole.isEmpty && fraction.isEmpty then none else some { negative, whole, fraction }

end Trellis.Text
