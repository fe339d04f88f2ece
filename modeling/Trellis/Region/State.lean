import Trellis.Geometry
import Trellis.Vocabulary

/-!
# Regions of a border layout

Every region but the center runs a small state machine:

```text
Expanded --collapse--> Collapsed --slide out--> Floating
   ^                      |  ^                     |
   +-------expand---------+  +--slide in, click----+
   +-------expand----------------------------------+
```

A collapse or an expansion that is animated stays pending until the animation has finished; nothing
else may start meanwhile.

* `allows_iff`: when a transition may start.
-/
namespace Trellis

inductive RegionState where
  /-- Full size, taking space from the center. -/
  | expanded
  /-- Reduced to a placeholder. -/
  | collapsed
  /-- Collapsed, with the component shown over the center. -/
  | floating
  deriving DecidableEq, Repr

namespace RegionState

def name : RegionState → String
  | .expanded => "Expanded"
  | .collapsed => "Collapsed"
  | .floating => "Floating"

end RegionState

inductive Transition where
  | collapse
  | expand
  deriving DecidableEq, Repr

namespace Transition

/-- The state that the transition ends in. -/
def target : Transition → RegionState
  | .collapse => .collapsed
  | .expand => .expanded

end Transition

/-- The regions around the center. -/
inductive Edge where
  | north | south | west | east
  deriving DecidableEq, Repr

namespace Edge

/-- In the order in which space is taken from the center. -/
def all : List Edge := [.north, .south, .west, .east]

def region : Edge → RegionName
  | .north => .north
  | .south => .south
  | .west => .west
  | .east => .east

end Edge

namespace RegionName

/-- The edge that the region lies at; the center lies at none. -/
def edge? : RegionName → Option Edge
  | .north => some .north
  | .south => some .south
  | .west => some .west
  | .east => some .east
  | .center => none

/-- North and south reach from left to right, so their size is a height. -/
def isHorizontalBand : RegionName → Bool
  | .north | .south => true
  | _ => false

/-- The margins of a collapsed region that configures none. -/
def collapsedMargins : RegionName → Sides
  | .north | .south | .center => .uniform 5
  | .east | .west => ⟨0, 5, 0, 5⟩

@[simp] theorem edge?_region (e : Edge) : e.region.edge? = some e := by cases e <;> rfl

end RegionName

/-- A region of a border layout and what is known of it between passes. -/
structure Region where
  name : RegionName
  component : ComponentId
  state : RegionState
  /-- The transition that waits for its animation. -/
  pending : Option Transition
  /-- The thickness set by moving the splitter, instead of the natural one. -/
  size : Option Int
  /-- Where the component was placed, expanded or floating. -/
  rect : Option Rect
  /-- Where the placeholder was placed. -/
  placeholder : Option Rect
  /-- Where the splitter was placed. -/
  splitter : Option Rect
  deriving DecidableEq, Repr

namespace Region

def fresh (name : RegionName) (component : ComponentId) (collapsed : Bool) : Region where
  name := name
  component := component
  state := if collapsed then .collapsed else .expanded
  pending := none
  size := none
  rect := none
  placeholder := none
  splitter := none

/-- Whether `t` may start now. -/
def allows (r : Region) (t : Transition) : Bool :=
  r.pending.isNone &&
    match t with
    | .collapse => r.state == .expanded
    | .expand => r.state != .expanded

/-- Start an animated transition. -/
def start (r : Region) (t : Transition) : Region := { r with pending := some t }

/-- Finish a transition, animated or not. -/
def finish (r : Region) (t : Transition) : Region := { r with pending := none, state := t.target }

/-- Whether the region may be shown over the center. -/
def canSlideOut (r : Region) : Bool := r.pending.isNone && r.state == .collapsed

/-- Whether the region may go back to its placeholder. -/
def canSlideIn (r : Region) : Bool := r.pending.isNone && r.state == .floating

/-- Whether the splitter may be moved. -/
def canResize (r : Region) : Bool := r.pending.isNone && r.state == .expanded

/-- Whether the component is kept out of sight. -/
def hidesComponent (r : Region) : Bool := r.state == .collapsed

theorem allows_iff (r : Region) (t : Transition) :
    r.allows t = true ↔ r.pending = none ∧ (r.state = .expanded ↔ t = .collapse) := by
  rcases r with ⟨_, _, state, pending, _, _, _, _⟩
  cases t <;> cases state <;> cases pending <;> simp [allows]

end Region

/-- The bounds of a splitter's movement. -/
structure SplitBounds where
  minSize : Int
  maxSize : Int
  /-- The region's thickness now. -/
  region : Int
  /-- The center's length on the same axis now. -/
  center : Int
  /-- The least length that the center keeps. -/
  centerMin : Int
  deriving DecidableEq, Repr

namespace SplitBounds

def standardMin : Int := 50

def standardMax : Int := 500

def standardCenterMin : Int := 50

/-- The thickness for a requested one. What leaves the center its least length wins over the least
thickness of the region. -/
def clamp (b : SplitBounds) (requested : Int) : Checked Int := do
  let room ← Length.sub (← Length.add b.region b.center) b.centerMin
  return max (min (max requested b.minSize) (min b.maxSize room)) 0

end SplitBounds

end Trellis
