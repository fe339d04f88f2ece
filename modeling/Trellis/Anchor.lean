import Trellis.Binary64
import Trellis.Notice
import Trellis.Text.Leading

/-!
# Anchors

An anchor derives a component's length on one axis from the length of the container. It is written
as a percentage of the container (`"50%"`), as an offset from the container's length (`"-20"`), or
as a side (`"r"`, `"right"`, `"b"`, `"bottom"`), which keeps the gap to the far edge that the
component had when the anchor was built. Percentages and sides need the container's reference
length; without it there is no anchor.

* `evaluate_evaluate`: asking again for the same container gives the same answer and changes
  nothing.
-/
namespace Trellis

/-- How a length is derived from the length of the container. -/
inductive AnchorFormula where
  | percent (p : Float)
  | offset (n : Int)
  /-- Keep this gap to the far edge. -/
  | side (gap : Int)

namespace AnchorFormula

/-- The length for a container of the given length, within the range of lengths. -/
def apply (container : Int) : AnchorFormula → Int
  | .percent p => Binary64.floorLength (Float.ofInt container * p / 100)
  | .offset n => Length.saturate (container + n)
  | .side gap => Length.saturate (container - gap)

end AnchorFormula

/-- A formula with the last container length it was applied to and the result. -/
structure Anchor where
  formula : AnchorFormula
  last : Option (Int × Int)

namespace Anchor

def fresh (formula : AnchorFormula) : Anchor := ⟨formula, none⟩

/-- The length for `container`, and the anchor that remembers it. -/
def evaluate (a : Anchor) (container : Int) : Int × Anchor :=
  match a.last with
  | some (input, output) =>
    if input = container then (output, a)
    else
      let result := a.formula.apply container
      (result, ⟨a.formula, some (container, result)⟩)
  | none =>
    let result := a.formula.apply container
    (result, ⟨a.formula, some (container, result)⟩)

theorem evaluate_evaluate (a : Anchor) (container : Int) :
    (a.evaluate container).2.evaluate container = a.evaluate container := by
  unfold evaluate
  rcases hl : a.last with _ | ⟨i, o⟩
  · simp
  · by_cases hc : i = container <;> simp [hc, hl]

/-- The words for the far edge of either axis. -/
def sideWords : List String := ["r", "right", "b", "bottom"]

/-- The formula that `token` stands for, for a component of length `initial` in a container of
length `reference`. -/
def formulaOfToken (token : List Char) (initial reference : Option Int) :
    Draft (Option AnchorFormula) :=
  let word := Text.trim token
  let lowered := String.ofList (Text.foldCase word)
  if word.isEmpty || lowered == "none" then pure none
  else if sideWords.contains lowered then
    match reference, initial with
    | some reference, some initial => do return some (.side (← Length.sub reference initial))
    | _, _ => pure none
  else if word.contains '%' then
    match Text.leadingDecimal? word with
    | none => Draft.remark none ⟨"Anchor", s!"malformed percentage anchor '{String.ofList word}'"⟩
    | some p => pure (reference.map fun _ => .percent p.toFloat)
  else
    match Text.leadingInt? word with
    | some n => pure (some (.offset n))
    | none => Draft.remark none ⟨"Anchor", s!"unrecognised anchor '{String.ofList word}'"⟩

/-- The anchor that `token` stands for, not evaluated yet. -/
def build (token : String) (initial reference : Option Int) : Draft (Option Anchor) := do
  return (← formulaOfToken token.toList initial reference).map fresh

/-- The width token and the height token of an anchor expression; further tokens are not looked
at. -/
def split (expression : String) : Option String × Option String :=
  match Text.tokens expression.toList with
  | [] => (none, none)
  | [w] => (some (String.ofList w), none)
  | w :: h :: _ => (some (String.ofList w), some (String.ofList h))

end Anchor

end Trellis
