import Trellis.Layout.Member

/-!
# Stacks

The plainest layout: children keep their natural size and stand one below the other, each within
its margins.

* `length_place`: every child is placed.
-/
namespace Trellis.Stack

/-- Place children from `y` downward. -/
def place (left : Int) : (y : Int) → List Framed → Checked (List Placement)
  | _, [] => .ok []
  | y, f :: rest => do
    let size := f.member.natural
    let top ← Length.add y f.margins.top
    let x ← Length.add left f.margins.left
    let next ← Length.add top (← Length.add size.height f.margins.bottom)
    return ⟨f.member.id, ⟨x, top, size.width, size.height⟩⟩ :: (← place left next rest)

/-- Lay out the visible children of a container. -/
def arrange (layout : LayoutConfig) (container : ComponentId) : Step Unit := do
  let content ← Step.contentBox layout container
  let members ← Step.members container
  let framed ← Step.draft (members.mapM (Member.framed layout) : Noted (List Framed))
  Step.apply (← Step.check (place content.x content.y framed))

theorem length_place {left y : Int} {framed : List Framed} {placements : List Placement}
    (h : place left y framed = .ok placements) : placements.length = framed.length := by
  induction framed generalizing y placements with
  | nil => simp_all [place]
  | cons f rest ih =>
    simp only [place, Length.bind_eq_ok] at h
    obtain ⟨_, _, _, _, _, _, _, _, placements', hrest, h⟩ := h
    cases h
    simp [ih hrest]

end Trellis.Stack
