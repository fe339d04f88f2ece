import Trellis.Layout.Member

/-!
# Accordions

Panels stand one below the other. All but the active one are reduced to their header, and the active
one takes the height that is left, as the only child of a vertical line with a weight. Which one
that is follows `chooseActive` among the visible panels; the setting may name a hidden one, and then
all panels are reduced.

* `isFlexed_reduced`: a panel reduced to its header takes no part in what is left.
-/
namespace Trellis.Accordion

/-- What the active panel asks of the line: any height, within its bounds. -/
def expanded (r : Box.Request Float) : Box.Request Float :=
  { r with height := none, natural := { r.natural with height := 0 }, flex := 1 }

/-- What any other panel asks of the line: the height of its header. -/
def reduced (header : Int) (r : Box.Request Float) : Box.Request Float :=
  { r with height := some header, heightBounds := ⟨none, none⟩, flex := 0 }

/-- What a panel asks of the line. -/
def panelRequest (layout : LayoutConfig) (active : Option ComponentId) (m : Member) :
    Noted (Box.Request Float) := do
  let r ← m.request layout
  return if some m.id == active then expanded r else reduced (max layout.headerHeight 0) r

/-- Lay out an accordion container whose active panel was `active`. -/
def arrange (layout : LayoutConfig) (container : ComponentId) (active : Option ComponentId) :
    Step Unit := do
  let t ← Step.tree
  let panels := t.visibleChildren container
  let active := chooseActive panels active (t.resolve container layout.activeItem)
  Step.keep container (.accordion active)
  let members ← Step.members container
  let requests ←
    Step.draft (members.mapM (panelRequest layout active) : Noted (List (Box.Request Float)))
  let available ← Step.targetSize container
  let padding ← Step.draft (Spacing.sidesOrZero layout.padding : Noted Sides)
  let solution ← Step.check (Box.solve requests
    { axis := .vertical, available, pack := .start, align := .stretch, padding })
  Step.apply ((panels.zip solution.rects).map fun (id, rect) => ⟨id, rect⟩)

theorem isFlexed_reduced (header : Int) (r : Box.Request Float) :
    (reduced header r).isFlexed .vertical = false := by
  simp [Box.Request.isFlexed, Box.Request.mainSize, reduced]

end Trellis.Accordion
