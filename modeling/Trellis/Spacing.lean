import Trellis.Binary64
import Trellis.Geometry
import Trellis.Notice
import Trellis.Text.Leading

/-!
# Spacing shorthand

Margins and padding are written as one number for all four sides, or as text holding one to four
lengths:

| lengths   | top | right | bottom | left |
|-----------|-----|-------|--------|------|
| `a`       | a   | a     | a      | a    |
| `a b`     | a   | b     | a      | b    |
| `a b c`   | a   | b     | c      | b    |
| `a b c d` | a   | b     | c      | d    |

A number stands for its whole part, and for 0 unless it is finite and positive. Each length in a
text is the number its token begins with. A token without one, or with a negative one, counts as 0
and gives a notice; tokens after the fourth are not looked at.

* `sideOfToken_nonneg`: no token gives a negative side.
-/
namespace Trellis

/-- A spacing as it is configured. -/
inductive Spacing where
  | number (x : Float)
  | text (s : String)

namespace Spacing

def sideOfToken (token : List Char) : Noted Int :=
  match Text.leadingInt? token with
  | some n =>
    if 0 ≤ n then pure n
    else .remark 0 ⟨"Sides", s!"negative side '{String.ofList token}' clamped to 0"⟩
  | none => .remark 0 ⟨"Sides", s!"non-numeric side '{String.ofList token}' parsed as 0"⟩

/-- The four sides that a list of lengths stands for. -/
def expand : List Int → Sides
  | [] => .zero
  | [a] => .uniform a
  | [a, b] => ⟨a, b, a, b⟩
  | [a, b, c] => ⟨a, b, c, b⟩
  | a :: b :: c :: d :: _ => ⟨a, b, c, d⟩

def sidesOfText (cs : List Char) : Noted Sides :=
  expand <$> ((Text.tokens cs).take 4).mapM sideOfToken

def sides : Spacing → Noted Sides
  | .number x => pure (.uniform (Binary64.positiveWhole x))
  | .text s => sidesOfText s.toList

/-- The sides of an optional spacing; none at all when it is absent. -/
def sidesOrZero : Option Spacing → Noted Sides
  | none => pure .zero
  | some s => s.sides

theorem sideOfToken_nonneg (token : List Char) : 0 ≤ (sideOfToken token).value := by
  unfold sideOfToken
  split
  · split
    · assumption
    · exact Int.le_refl 0
  · exact Int.le_refl 0

end Spacing

end Trellis
