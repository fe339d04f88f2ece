import Trellis.Length

/-!
# Whole lengths from binary64 numbers

Weights, fractions and percentages are binary64 numbers; the lengths computed from them are whole.
A finite binary64 number is `± m · 2^e` with `m` and `e` whole, so its floor and its whole part are
found exactly with integers. What does not fit a length becomes the nearest length, and
not-a-number becomes 0.

* `floorScaled_le`, `lt_floorScaled_add_one`: the floor of `m · 2^(-k)` is the greatest integer
  that is at most it.
* `positiveWhole_nonneg`: no number has a negative whole part once negative ones count as 0.
-/
namespace Trellis.Binary64

-- the power of the core library, also next to modules that bring another one
attribute [local instance (high)] instPowNat

/-- A binary64 number taken apart. -/
inductive Parts where
  | notANumber
  | infinite (negative : Bool)
  /-- `± significand · 2 ^ exponent`. -/
  | finite (negative : Bool) (significand : Nat) (exponent : Int)
  deriving DecidableEq, Repr

/-- The parts of the number with this bit pattern: 1 bit of sign, 11 of exponent, 52 of fraction. -/
def partsOfBits (bits : Nat) : Parts :=
  let negative := bits / 2 ^ (63 : Nat) % 2 == 1
  let exponent := bits / 2 ^ (52 : Nat) % 2 ^ (11 : Nat)
  let fraction := bits % 2 ^ (52 : Nat)
  if exponent = 2047 then
    if fraction = 0 then .infinite negative else .notANumber
  else if exponent = 0 then .finite negative fraction (-1074)
  else .finite negative (2 ^ (52 : Nat) + fraction) (Int.ofNat exponent - 1075)

def parts (x : Float) : Parts := partsOfBits x.toBits.toNat

/-- The floor of `m · 2 ^ e`. -/
def floorScaled (m : Int) (e : Int) : Int :=
  if 0 ≤ e then m * 2 ^ e.toNat else m / 2 ^ (-e).toNat

/-- The nearest length to an infinity: the end of the range on its side. -/
def infiniteLength (negative : Bool) : Int := if negative then Length.least else Length.greatest

/-- The floor of `x` as a length. -/
def floorLength (x : Float) : Int :=
  match parts x with
  | .notANumber => 0
  | .infinite negative => infiniteLength negative
  | .finite negative m e =>
    Length.saturate (floorScaled (if negative then -(m : Int) else m) e)

/-- The whole part of `x` as a length, the fraction dropped; 0 unless `x` is finite and positive. -/
def positiveWhole (x : Float) : Int :=
  match parts x with
  | .finite false m e => Length.saturate (floorScaled m e)
  | _ => 0

theorem floorScaled_nonneg (m : Nat) (e : Int) : 0 ≤ floorScaled m e := by
  unfold floorScaled
  split
  · exact Int.mul_nonneg (Int.natCast_nonneg m) (Int.pow_nonneg (by decide))
  · exact Int.ediv_nonneg (Int.natCast_nonneg m) (Int.pow_nonneg (by decide))

theorem positiveWhole_nonneg (x : Float) : 0 ≤ positiveWhole x := by
  unfold positiveWhole
  split
  · next m e _ =>
    have := floorScaled_nonneg m e
    unfold Length.saturate Length.greatest
    omega
  · exact Int.le_refl 0

theorem floorScaled_le {m : Int} {k : Nat} (hk : 0 < k) :
    floorScaled m (-(k : Int)) * 2 ^ k ≤ m := by
  have h : ¬ (0 : Int) ≤ -(k : Int) := by omega
  have hpos : (0 : Int) < 2 ^ k := Int.pow_pos (by decide)
  simp only [floorScaled, h, if_false, Int.neg_neg, Int.toNat_natCast]
  exact Int.ediv_mul_le m (by omega)

theorem lt_floorScaled_add_one {m : Int} {k : Nat} (hk : 0 < k) :
    m < (floorScaled m (-(k : Int)) + 1) * 2 ^ k := by
  have h : ¬ (0 : Int) ≤ -(k : Int) := by omega
  have hpos : (0 : Int) < 2 ^ k := Int.pow_pos (by decide)
  simp only [floorScaled, h, if_false, Int.neg_neg, Int.toNat_natCast]
  exact Int.lt_ediv_add_one_mul_self m hpos

end Trellis.Binary64
