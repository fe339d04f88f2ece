import Trellis.Layout.Member

/-!
# Columns

Children stand side by side in one row. A child with a `columnWidth` takes the floor of that
fraction of what the other children leave, less its own margins; the others keep their natural
width.

* `length_place`: every child is placed.
-/
namespace Trellis.Columns

/-- The fraction of the remaining width that the child takes, if it takes one. -/
def fraction? (m : Member) : Option Float := m.config.columnWidth.filter fun f => 0 < f

/-- The floor of `fraction · length`. -/
def floorFraction (fraction : Float) (length : Int) : Int :=
  Binary64.floorLength (Float.ofInt length * fraction)

/-- The width of the children that take no fraction, margins included. -/
def fixedWidth (framed : List Framed) : Checked Int :=
  Length.total (fun f => do Length.add f.member.natural.width (← f.margins.horizontal))
    (framed.filter fun f => (fraction? f.member).isNone)

/-- The width of a child when `remainder` is left for fractions. -/
def width (remainder : Int) (f : Framed) : Checked Int :=
  match fraction? f.member with
  | none => .ok f.member.natural.width
  | some fraction => do
    return max (← Length.sub (floorFraction fraction remainder) (← f.margins.horizontal)) 0

/-- Place children from `x` rightward. -/
def place (top remainder : Int) : (x : Int) → List Framed → Checked (List Placement)
  | _, [] => .ok []
  | x, f :: rest => do
    let width ← width remainder f
    let left ← Length.add x f.margins.left
    let y ← Length.add top f.margins.top
    let next ← Length.add left (← Length.add width f.margins.right)
    return ⟨f.member.id, ⟨left, y, width, f.member.natural.height⟩⟩ ::
      (← place top remainder next rest)

/-- Place the children of a row inside `content`. -/
def placeRow (content : Rect) (framed : List Framed) : Checked (List Placement) := do
  let remainder ← Length.sub content.width (← fixedWidth framed)
  place content.y (max remainder 0) content.x framed

/-- One pass over the visible children of a container. -/
def pass (layout : LayoutConfig) (container : ComponentId) : Step Unit := do
  let content ← Step.contentBox layout container
  let members ← Step.members container
  let framed ← Step.draft (members.mapM (Member.framed layout) : Noted (List Framed))
  Step.apply (← Step.check (placeRow content framed))

/-- Lay out the children, and once more if that changes the size that the container offers. -/
def arrange (layout : LayoutConfig) (container : ComponentId) : Step Unit := do
  let before ← Step.targetSize container
  pass layout container
  let after ← Step.targetSize container
  if after ≠ before then pass layout container

theorem length_place {top remainder x : Int} {framed : List Framed} {placements : List Placement}
    (h : place top remainder x framed = .ok placements) : placements.length = framed.length := by
  induction framed generalizing x placements with
  | nil => simp_all [place]
  | cons f rest ih =>
    simp only [place, Length.bind_eq_ok] at h
    obtain ⟨_, _, _, _, _, _, _, _, _, _, placements', hrest, h⟩ := h
    cases h
    simp [ih hrest]

end Trellis.Columns
