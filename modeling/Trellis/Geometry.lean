import Trellis.Length

/-!
# Sizes, rectangles and sides

Rectangles are positioned relative to the content origin of the component that holds them; their
right and bottom edges are exclusive. `Axis` names the direction in which a container lines its
children up: lengths along it are *main* lengths, lengths across it are *cross* lengths.

* `transpose` swaps the two directions; `transpose_transpose` says that twice is never.
* `main_transpose`, `cross_transpose`: what one axis sees of a value, the other sees of its
  transpose.
-/
namespace Trellis

structure Size where
  width : Int
  height : Int
  deriving DecidableEq, Repr, Inhabited

structure Rect where
  x : Int
  y : Int
  width : Int
  height : Int
  deriving DecidableEq, Repr, Inhabited

/-- Space on the four sides of a rectangle: margins or padding. -/
structure Sides where
  top : Int
  right : Int
  bottom : Int
  left : Int
  deriving DecidableEq, Repr, Inhabited

inductive Axis where
  | horizontal
  | vertical
  deriving DecidableEq, Repr, Inhabited

namespace Size

def zero : Size := ⟨0, 0⟩

def transpose (s : Size) : Size := ⟨s.height, s.width⟩

@[simp] theorem transpose_transpose (s : Size) : s.transpose.transpose = s := rfl

end Size

namespace Rect

def zero : Rect := ⟨0, 0, 0, 0⟩

def size (r : Rect) : Size := ⟨r.width, r.height⟩

def right (r : Rect) : Checked Int := Length.add r.x r.width

def bottom (r : Rect) : Checked Int := Length.add r.y r.height

def transpose (r : Rect) : Rect := ⟨r.y, r.x, r.height, r.width⟩

@[simp] theorem transpose_transpose (r : Rect) : r.transpose.transpose = r := rfl

end Rect

namespace Sides

def uniform (n : Int) : Sides := ⟨n, n, n, n⟩

def zero : Sides := uniform 0

/-- Left and right together. -/
def horizontal (s : Sides) : Checked Int := Length.add s.left s.right

/-- Top and bottom together. -/
def vertical (s : Sides) : Checked Int := Length.add s.top s.bottom

/-- Left with top, right with bottom. -/
def transpose (s : Sides) : Sides := ⟨s.left, s.bottom, s.right, s.top⟩

@[simp] theorem transpose_transpose (s : Sides) : s.transpose.transpose = s := rfl

@[simp] theorem horizontal_transpose (s : Sides) : s.transpose.horizontal = s.vertical := rfl

@[simp] theorem vertical_transpose (s : Sides) : s.transpose.vertical = s.horizontal := rfl

end Sides

namespace Rect

/-- `r` without a border of the given sides; its lengths stop at zero. -/
def inset (r : Rect) (margins : Sides) : Checked Rect := do
  let x ← Length.add r.x margins.left
  let y ← Length.add r.y margins.top
  let width ← Length.sub r.width (← margins.horizontal)
  let height ← Length.sub r.height (← margins.vertical)
  return ⟨x, y, max width 0, max height 0⟩

end Rect

namespace Axis

def transpose : Axis → Axis
  | .horizontal => .vertical
  | .vertical => .horizontal

def main : Axis → Size → Int
  | .horizontal, s => s.width
  | .vertical, s => s.height

def cross : Axis → Size → Int
  | .horizontal, s => s.height
  | .vertical, s => s.width

/-- The size with these main and cross lengths. -/
def size : Axis → (main cross : Int) → Size
  | .horizontal, m, c => ⟨m, c⟩
  | .vertical, m, c => ⟨c, m⟩

/-- The rectangle with these main and cross positions and lengths. -/
def rect : Axis → (mainPos crossPos main cross : Int) → Rect
  | .horizontal, mp, cp, m, c => ⟨mp, cp, m, c⟩
  | .vertical, mp, cp, m, c => ⟨cp, mp, c, m⟩

def mainStart : Axis → Sides → Int
  | .horizontal, s => s.left
  | .vertical, s => s.top

def mainEnd : Axis → Sides → Int
  | .horizontal, s => s.right
  | .vertical, s => s.bottom

def crossStart : Axis → Sides → Int
  | .horizontal, s => s.top
  | .vertical, s => s.left

/-- Both sides on the main axis together. -/
def mainSides : Axis → Sides → Checked Int
  | .horizontal, s => s.horizontal
  | .vertical, s => s.vertical

/-- Both sides on the cross axis together. -/
def crossSides : Axis → Sides → Checked Int
  | .horizontal, s => s.vertical
  | .vertical, s => s.horizontal

@[simp] theorem transpose_transpose (a : Axis) : a.transpose.transpose = a := by cases a <;> rfl

@[simp] theorem main_transpose (a : Axis) (s : Size) : a.transpose.main s.transpose = a.main s := by
  cases a <;> rfl

@[simp] theorem cross_transpose (a : Axis) (s : Size) :
    a.transpose.cross s.transpose = a.cross s := by
  cases a <;> rfl

@[simp] theorem size_transpose (a : Axis) (m c : Int) :
    a.transpose.size m c = (a.size m c).transpose := by
  cases a <;> rfl

@[simp] theorem rect_transpose (a : Axis) (mp cp m c : Int) :
    a.transpose.rect mp cp m c = (a.rect mp cp m c).transpose := by
  cases a <;> rfl

@[simp] theorem mainStart_transpose (a : Axis) (s : Sides) :
    a.transpose.mainStart s.transpose = a.mainStart s := by
  cases a <;> rfl

@[simp] theorem mainEnd_transpose (a : Axis) (s : Sides) :
    a.transpose.mainEnd s.transpose = a.mainEnd s := by
  cases a <;> rfl

@[simp] theorem crossStart_transpose (a : Axis) (s : Sides) :
    a.transpose.crossStart s.transpose = a.crossStart s := by
  cases a <;> rfl

@[simp] theorem mainSides_transpose (a : Axis) (s : Sides) :
    a.transpose.mainSides s.transpose = a.mainSides s := by
  cases a <;> rfl

@[simp] theorem crossSides_transpose (a : Axis) (s : Sides) :
    a.transpose.crossSides s.transpose = a.crossSides s := by
  cases a <;> rfl

end Axis

/-- Lower and upper bounds on a length, either of which may be missing. -/
structure Bounds where
  least? : Option Int
  greatest? : Option Int
  deriving DecidableEq, Repr, Inhabited

namespace Bounds

/-- `n` within the bounds; the lower bound wins when they conflict. -/
def constrain (b : Bounds) (n : Int) : Int :=
  let capped := b.greatest?.elim n (min n)
  b.least?.elim capped (max capped)

theorem constrain_constrain (b : Bounds) (n : Int) :
    b.constrain (b.constrain n) = b.constrain n := by
  rcases b with ⟨_ | lo, _ | hi⟩ <;> simp [constrain]
  omega

end Bounds

end Trellis
