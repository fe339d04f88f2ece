import Trellis.Geometry
import Trellis.Spacing
import Trellis.Vocabulary

/-!
# Layout descriptions

A description is a tree of components. Each component has settings of its own, and a component
that arranges children has a layout as well. A `Description` nests; the settings of one component,
`ItemConfig`, do not.

* `Description.size_pos`: a description has at least one component.
-/
namespace Trellis

/-- The child that is active first: a position among the children, or a child's name. -/
inductive ActiveItem where
  | position (index : Nat)
  | itemId (name : String)
  deriving DecidableEq, Repr

/-- Whether repeated layout requests are gathered, and for how many milliseconds. -/
inductive BufferResize where
  | enabled (on : Bool)
  | millis (n : Nat)
  deriving DecidableEq, Repr

namespace BufferResize

/-- The window of a setting that gives none. -/
def standardWindow : Nat := 50

/-- The window in milliseconds, if requests are gathered. -/
def window? : BufferResize → Option Nat
  | .enabled true => some standardWindow
  | .enabled false | .millis 0 => none
  | .millis n => some n

theorem window?_pos {b : BufferResize} {n : Nat} (h : b.window? = some n) : 0 < n := by
  unfold window? at h
  split at h <;> simp_all [standardWindow] <;> omega

end BufferResize

/-- A fixed reference size for anchors. -/
inductive AnchorSize where
  | width (w : Int)
  | size (w h : Option Int)
  deriving DecidableEq, Repr

namespace AnchorSize

def dimensions : AnchorSize → Option Int × Option Int
  | .width w => (some w, none)
  | .size w h => (w, h)

end AnchorSize

/-- How a component arranges its children. -/
structure LayoutConfig where
  kind : LayoutKind := .auto
  /-- Lines: where the children stand when space is left. -/
  pack : Pack := .start
  /-- Lines: how the children stand across the line. -/
  align : Align := .start
  /-- Space inside the container. -/
  padding : Option Spacing := none
  /-- Margins of children that have none of their own. -/
  defaultMargins : Option Spacing := none
  overflowHandler : Option OverflowKind := none
  /-- Menus: the main length of the trigger. -/
  triggerSize : Int := 0
  /-- Scrollers: the main length of each button. -/
  scrollerSize : Int := 20
  /-- Tables: the number of columns. -/
  columns : Option Nat := none
  anchorSize : Option AnchorSize := none
  /-- Forms: the width of labels beside their field. -/
  labelWidth : Int := 100
  /-- Forms: the gap between a label and its field. -/
  labelPad : Int := 5
  labelAlign : LabelAlign := .left
  /-- Forms: the height of labels. -/
  labelHeight : Int := 20
  /-- Cards and accordions: the child that is active first. -/
  activeItem : Option ActiveItem := none
  /-- Accordions: the height of a panel that is not active. -/
  headerHeight : Int := 26
  bufferResize : Option BufferResize := none

namespace LayoutConfig

/-- The window in which layout requests are gathered. -/
def window? (c : LayoutConfig) : Option Nat := c.bufferResize.bind BufferResize.window?

end LayoutConfig

/-- The settings of one component. -/
structure ItemConfig where
  itemId : Option String := none
  /-- Absolute layouts: the position. -/
  x : Option Int := none
  y : Option Int := none
  width : Option Int := none
  height : Option Int := none
  minWidth : Option Int := none
  minHeight : Option Int := none
  maxWidth : Option Int := none
  maxHeight : Option Int := none
  /-- The size of the content, where it differs from the configured size. -/
  intrinsicWidth : Option Int := none
  intrinsicHeight : Option Int := none
  /-- Lines: the weight for leftover space. -/
  flex : Option Float := none
  margins : Option Spacing := none
  /-- Border layouts: the margins while collapsed. -/
  cmargins : Option Spacing := none
  /-- Anchor layouts: a width token and a height token. -/
  anchor : Option String := none
  /-- Column layouts: the fraction of the width that is left. -/
  columnWidth : Option Float := none
  rowspan : Option Nat := none
  colspan : Option Nat := none
  region : Option RegionName := none
  /-- Border layouts: the region has a splitter. -/
  split : Bool := false
  splitSize : Option Int := none
  /-- The bounds for moving the splitter. -/
  minSize : Option Int := none
  maxSize : Option Int := none
  collapsible : Bool := false
  collapsed : Bool := false
  /-- The thickness of the placeholder of a collapsed region. -/
  collapsedSize : Option Int := none
  fieldLabel : Option String := none
  labelWidth : Option Int := none
  hideLabel : Bool := false
  hidden : Bool := false
  /-- How the component arranges children; without it the component is a leaf. -/
  layout : Option LayoutConfig := none

namespace ItemConfig

def isContainer (c : ItemConfig) : Bool := c.layout.isSome

/-- The weight for leftover space; a weight that is not positive counts as none. -/
def flexWeight (c : ItemConfig) : Float :=
  match c.flex with
  | some f => if 0 < f then f else 0
  | none => 0

def widthBounds (c : ItemConfig) : Bounds := ⟨c.minWidth, c.maxWidth⟩

def heightBounds (c : ItemConfig) : Bounds := ⟨c.minHeight, c.maxHeight⟩

/-- The size that the settings give the content: intrinsic, else configured, else zero. -/
def contentSize (c : ItemConfig) : Size where
  width := (c.intrinsicWidth.or c.width).getD 0
  height := (c.intrinsicHeight.or c.height).getD 0

end ItemConfig

/-- A component with its children, in source order. -/
inductive Description where
  | node (item : ItemConfig) (children : List Description)

namespace Description

def item : Description → ItemConfig
  | .node item _ => item

def children : Description → List Description
  | .node _ children => children

mutual

/-- How many components are described. -/
def size : Description → Nat
  | .node _ children => 1 + sizes children

def sizes : List Description → Nat
  | [] => 0
  | d :: rest => size d + sizes rest

end

theorem size_pos (d : Description) : 0 < d.size := by
  cases d; simp only [size]; omega

end Description

end Trellis
