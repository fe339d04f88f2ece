import Trellis.Layout.Member

/-!
# Anchored children

Children take lengths from the container by their anchors; an axis without an anchor keeps the
natural length. Anchor layouts stack their children, absolute layouts place them at positions of
their own, and forms stack them with a label beside or above each.

A child's anchors are built the first time it is laid out, against the reference size: the one
configured, else the content size of the first pass in which the container had a size. Anchors
built before that pass had no reference and are dropped.

* `observe_observed`: a reference size, once observed, stays.
* `reference`: the reference size on each axis.
-/
namespace Trellis

namespace Anchored

/-- Take note of the content size, once the container has a size. -/
def observe (a : Anchored) (content : Size) (sized : Bool) : Anchored :=
  if a.observed.isNone && sized then { a with observed := some content, anchors := .empty } else a

/-- The reference length for each axis. -/
def reference (a : Anchored) (layout : LayoutConfig) : Option Int × Option Int :=
  let (width, height) := (layout.anchorSize.map AnchorSize.dimensions).getD (none, none)
  (width.or (a.observed.map Size.width), height.or (a.observed.map Size.height))

theorem observe_observed {a : Anchored} {size : Size} (h : a.observed = some size)
    (content : Size) (sized : Bool) : a.observe content sized = a := by
  simp [observe, h]

end Anchored

namespace AnchorPair

/-- Build the anchor of one axis, if the expression has a token for it. -/
def buildAxis (token : Option String) (initial reference : Option Int) : Draft (Option Anchor) :=
  match token with
  | some token => Anchor.build token initial reference
  | none => pure none

/-- Build a child's anchors. -/
def build (c : ItemConfig) (reference : Option Int × Option Int) : Draft AnchorPair :=
  match c.anchor with
  | none => pure ⟨none, none⟩
  | some expression => do
    let (width, height) := Anchor.split expression
    let width ← buildAxis width c.width reference.1
    let height ← buildAxis height c.height reference.2
    return ⟨width, height⟩

/-- The lengths that the anchors give for a container of the given content size, and the anchors
that remember them. -/
def evaluate (p : AnchorPair) (content : Size) : (Option Int × Option Int) × AnchorPair :=
  let width := p.width.map fun a => a.evaluate content.width
  let height := p.height.map fun a => a.evaluate content.height
  ((width.map Prod.fst, height.map Prod.fst), ⟨width.map Prod.snd, height.map Prod.snd⟩)

end AnchorPair

namespace Form

/-- The space that a label takes from its field, and where the label stands relative to the
field's margin corner. -/
structure Label where
  /-- Taken from the left of the field. -/
  width : Int
  /-- Taken from above the field. -/
  height : Int
  rect : Option Rect
  deriving DecidableEq, Repr

namespace Label

def none : Label := ⟨0, 0, Option.none⟩

/-- The label of a field `fieldWidth` wide. -/
def ofField (mode : AnchorMode) (layout : LayoutConfig) (c : ItemConfig) (fieldWidth : Int) :
    Checked Label :=
  if mode ≠ .form || c.hideLabel then .ok .none
  else
    let width := max (c.labelWidth.getD layout.labelWidth) 0
    match layout.labelAlign with
    | .left | .right => do
      return ⟨← Length.add width (max layout.labelPad 0), 0, some ⟨0, 0, width, layout.labelHeight⟩⟩
    | .top => .ok ⟨0, layout.labelHeight, some ⟨0, 0, fieldWidth, layout.labelHeight⟩⟩

end Label

end Form

namespace Anchored

/-- A child's rectangle, and that of its label. -/
structure Placed where
  id : ComponentId
  field : Rect
  label : Option Rect
  deriving DecidableEq, Repr

/-- The length on one axis: what the anchor gives less margins and label, within bounds, or the
natural length. -/
def length (anchored : Option Int) (natural : Int) (margins : Checked Int) (label : Int)
    (bounds : Bounds) : Checked Int :=
  match anchored with
  | none => .ok (max natural 0)
  | some n => do
    let free ← Length.sub (← Length.sub n (← margins)) label
    return max (bounds.constrain free) 0

/-- Where the margin box of a child begins when `y` is the next free line. -/
def origin (mode : AnchorMode) (content : Rect) (y : Int) (f : Framed) : Checked (Int × Int) := do
  match mode with
  | .absolute =>
    let x ← Length.add content.x (f.member.config.x.getD 0)
    let top ← Length.add content.y (f.member.config.y.getD 0)
    return (← Length.add x f.margins.left, ← Length.add top f.margins.top)
  | .anchor | .form =>
    return (← Length.add content.x f.margins.left, ← Length.add y f.margins.top)

/-- Place one child whose anchors give `lengths`. -/
def placeField (mode : AnchorMode) (layout : LayoutConfig) (content : Rect) (y : Int) (f : Framed)
    (lengths : Option Int × Option Int) : Checked Placed := do
  let c := f.member.config
  let natural := f.member.natural
  let besides ← Form.Label.ofField mode layout c 0
  let width ← length lengths.1 natural.width f.margins.horizontal besides.width c.widthBounds
  let height ← length lengths.2 natural.height f.margins.vertical besides.height c.heightBounds
  let label ← Form.Label.ofField mode layout c width
  let (x, top) ← origin mode content y f
  let field := ⟨← Length.add x label.width, ← Length.add top label.height, width, height⟩
  let labelRect ← label.rect.mapM fun r => do
    return Rect.mk (← Length.add x r.x) (← Length.add top r.y) r.width r.height
  return ⟨f.member.id, field, labelRect⟩

/-- The next free line below a child. -/
def lineBelow (mode : AnchorMode) (y : Int) (f : Framed) (p : Placed) : Checked Int :=
  match mode with
  | .absolute => .ok y
  | .anchor | .form => do Length.add (← p.field.bottom) f.margins.bottom

/-- Place children from the line `y` downward, building the anchors that are missing. -/
def placeFrom (layout : LayoutConfig) (content : Rect) (reference : Option Int × Option Int) :
    Anchored → (y : Int) → List Member → Draft (Anchored × List Placed)
  | a, _, [] => pure (a, [])
  | a, y, m :: rest => do
    let f ← (m.framed layout : Noted Framed)
    let pair ← match a.anchors.get? m.id with
      | some pair => pure pair
      | none => AnchorPair.build m.config reference
    let (lengths, pair) := pair.evaluate content.size
    let placed ← placeField a.mode layout content y f lengths
    let y ← lineBelow a.mode y f placed
    let a := { a with anchors := a.anchors.insert m.id pair }
    let (a, others) ← placeFrom layout content reference a y rest
    return (a, placed :: others)

/-- Apply the rectangles of children and labels. -/
def applyAll (t : Tree) (placed : List Placed) : Tree :=
  placed.foldl (fun t p =>
    (t.applyRect p.id p.field).modifyState p.id fun s => { s with labelRect := p.label }) t

/-- One pass over the visible children of a container. -/
def pass (layout : LayoutConfig) (container : ComponentId) (a : Anchored) : Step Anchored := do
  let content ← Step.contentBox layout container
  let t ← Step.tree
  let sized := (← Step.check (t.get container)).state.sized
  let a := a.observe content.size sized
  let a := { a with anchors := a.anchors.filter fun id _ => t.parent? id == some container }
  let members ← Step.members container
  let (a, placed) ←
    Step.draft (placeFrom layout content (a.reference layout) a content.y members)
  Step.keep container (.anchored a)
  Step.modifyTree fun t => applyAll t placed
  return a

/-- Lay out the children, and once more if that changes the size that the container offers. -/
def arrange (layout : LayoutConfig) (container : ComponentId) (a : Anchored) : Step Unit := do
  let before ← Step.targetSize container
  let a ← pass layout container a
  let after ← Step.targetSize container
  if after ≠ before then
    let _ ← pass layout container a

end Anchored

end Trellis
