import Trellis.Layout.Member

/-!
# Layouts that one child fills

A *fit* layout gives its first visible child the whole content box. A *card* layout shows one child
at a time: the active one fills the content box, all others are hidden. Which one that is follows
`chooseActive` among all children, hidden ones included.
-/
namespace Trellis.Fill

/-- The rectangle of a child that fills `content`. -/
def place (layout : LayoutConfig) (content : Rect) (m : Member) : Draft Placement := do
  let margins ← (m.margins layout : Noted Sides)
  return ⟨m.id, ← content.inset margins⟩

/-- Let `child` fill the content box. -/
def fill (layout : LayoutConfig) (container child : ComponentId) : Step Unit := do
  let content ← Step.contentBox layout container
  let m ← Step.member child
  Step.apply [← Step.draft (place layout content m)]

/-- Lay out a fit container. -/
def arrange (layout : LayoutConfig) (container : ComponentId) : Step Unit := do
  match (← Step.tree).visibleChildren container with
  | [] => return
  | child :: _ => fill layout container child

/-- Hide every child but `active`. -/
def showOnly (children : List ComponentId) (active : Option ComponentId) (t : Tree) : Tree :=
  children.foldl (fun t child => t.setHidden child (some child != active)) t

/-- Lay out a card container whose active card was `active`. -/
def arrangeCards (layout : LayoutConfig) (container : ComponentId)
    (active : Option ComponentId) : Step Unit := do
  let t ← Step.tree
  let children := t.children container
  let active := chooseActive children active (t.resolve container layout.activeItem)
  Step.keep container (.card active)
  Step.modifyTree (showOnly children active)
  match active with
  | some card => fill layout container card
  | none => return

end Trellis.Fill
