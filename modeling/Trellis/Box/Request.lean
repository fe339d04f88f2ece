import Trellis.Geometry

/-!
# What a child asks of a line

A request says what a child wants from the container that lines it up: a configured or natural
size, bounds, a weight for leftover space, and margins around it. Weights are a parameter: the
engine runs on binary64 weights, and laws are stated for any kind of weight.

* `isFlexed` and the lengths of a request are unchanged by transposing request and axis together
  (`isFlexed_transpose`, `floorMain_transpose`, ...).
-/
namespace Trellis

/-- Numbers that leftover space is shared by. -/
class Weight (ω : Type) where
  zero : ω
  add : ω → ω → ω
  sub : ω → ω → ω
  isPositive : ω → Bool
  /-- The part of `space` that falls to `weight` out of `total`. -/
  share : (space : Int) → (weight total : ω) → Int

namespace Box

structure Request (ω : Type) where
  width : Option Int
  height : Option Int
  /-- The measured size, used on an axis without a configured length. -/
  natural : Size
  widthBounds : Bounds
  heightBounds : Bounds
  flex : ω
  margins : Sides
  deriving Repr

namespace Request

variable {ω : Type}

/-- The configured main length. -/
def mainSize (r : Request ω) : Axis → Option Int
  | .horizontal => r.width
  | .vertical => r.height

/-- The configured cross length. -/
def crossSize (r : Request ω) : Axis → Option Int
  | .horizontal => r.height
  | .vertical => r.width

def mainBounds (r : Request ω) : Axis → Bounds
  | .horizontal => r.widthBounds
  | .vertical => r.heightBounds

def crossBounds (r : Request ω) : Axis → Bounds
  | .horizontal => r.heightBounds
  | .vertical => r.widthBounds

/-- Whether the child takes part in sharing leftover space; a configured main length always wins
over a weight. -/
def isFlexed [Weight ω] (r : Request ω) (a : Axis) : Bool :=
  Weight.isPositive r.flex && (r.mainSize a).isNone

/-- The main length before anything is shared: configured or natural, within bounds. -/
def resolvedMain (r : Request ω) (a : Axis) : Int :=
  (r.mainBounds a).constrain ((r.mainSize a).getD (a.main r.natural))

/-- The cross length before alignment: configured or natural, within bounds. -/
def resolvedCross (r : Request ω) (a : Axis) : Int :=
  (r.crossBounds a).constrain ((r.crossSize a).getD (a.cross r.natural))

/-- The least main length the child can be given: its lower bound; without one, nothing if it
shares leftover space, and its own length otherwise. -/
def floorMain [Weight ω] (r : Request ω) (a : Axis) : Int :=
  (r.mainBounds a).least?.getD (if r.isFlexed a then 0 else r.resolvedMain a)

/-- The main length the child wants before leftover space is shared. -/
def desiredMain [Weight ω] (r : Request ω) (a : Axis) : Int :=
  if r.isFlexed a then (r.mainBounds a).least?.getD 0 else r.resolvedMain a

/-- Every child's main length in a line that is too narrow. -/
def narrowMain (r : Request ω) (a : Axis) : Int :=
  (r.mainBounds a).least?.getD (r.resolvedMain a)

/-- The least main length with the margins around it. -/
def outerFloor [Weight ω] (r : Request ω) (a : Axis) : Checked Int := do
  Length.add (r.floorMain a) (← a.mainSides r.margins)

/-- The request with its two axes swapped. -/
def transpose (r : Request ω) : Request ω where
  width := r.height
  height := r.width
  natural := r.natural.transpose
  widthBounds := r.heightBounds
  heightBounds := r.widthBounds
  flex := r.flex
  margins := r.margins.transpose

@[simp] theorem transpose_transpose (r : Request ω) : r.transpose.transpose = r := rfl

@[simp] theorem mainSize_transpose (r : Request ω) (a : Axis) :
    r.transpose.mainSize a.transpose = r.mainSize a := by
  cases a <;> rfl

@[simp] theorem crossSize_transpose (r : Request ω) (a : Axis) :
    r.transpose.crossSize a.transpose = r.crossSize a := by
  cases a <;> rfl

@[simp] theorem mainBounds_transpose (r : Request ω) (a : Axis) :
    r.transpose.mainBounds a.transpose = r.mainBounds a := by
  cases a <;> rfl

@[simp] theorem crossBounds_transpose (r : Request ω) (a : Axis) :
    r.transpose.crossBounds a.transpose = r.crossBounds a := by
  cases a <;> rfl

@[simp] theorem isFlexed_transpose [Weight ω] (r : Request ω) (a : Axis) :
    r.transpose.isFlexed a.transpose = r.isFlexed a := by
  cases a <;> rfl

@[simp] theorem resolvedMain_transpose (r : Request ω) (a : Axis) :
    r.transpose.resolvedMain a.transpose = r.resolvedMain a := by
  cases a <;> rfl

@[simp] theorem resolvedCross_transpose (r : Request ω) (a : Axis) :
    r.transpose.resolvedCross a.transpose = r.resolvedCross a := by
  cases a <;> rfl

@[simp] theorem floorMain_transpose [Weight ω] (r : Request ω) (a : Axis) :
    r.transpose.floorMain a.transpose = r.floorMain a := by
  cases a <;> rfl

@[simp] theorem outerFloor_transpose [Weight ω] (r : Request ω) (a : Axis) :
    r.transpose.outerFloor a.transpose = r.outerFloor a := by
  cases a <;> rfl

end Request

end Box

end Trellis
