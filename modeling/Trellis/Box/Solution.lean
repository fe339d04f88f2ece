import Trellis.Box.Shrink
import Trellis.Vocabulary

/-!
# Lines of boxes

`solve` gives every child of a line its rectangle, in source order.

1. Add up what the children want and the least they can have, margins included.
2. If even the least does not fit, the line is *too narrow* and everyone gets the least.
3. If what they want does not fit, children with a length of their own give way (`Box.Shrink`).
4. Otherwise leftover space is shared by weight (`Box.Flex`).
5. The line is packed at the start, in the middle or at the end of the space, margin box after
   margin box, and every child is aligned across it.

* `length_mains`, `length_place`: there is one main length and one rectangle for each child.
-/
namespace Trellis.Box

/-- The space in which a line of children is laid out. -/
structure Space where
  axis : Axis
  /-- The size of the container, padding included. -/
  available : Size
  pack : Pack
  align : Align
  padding : Sides
  deriving DecidableEq, Repr, Inhabited

namespace Space

/-- The main length between the paddings. -/
def innerMain (s : Space) : Checked Int := do
  return max (← Length.sub (s.axis.main s.available) (← s.axis.mainSides s.padding)) 0

/-- The cross length between the paddings. -/
def innerCross (s : Space) : Checked Int := do
  return max (← Length.sub (s.axis.cross s.available) (← s.axis.crossSides s.padding)) 0

def transpose (s : Space) : Space where
  axis := s.axis.transpose
  available := s.available.transpose
  pack := s.pack
  align := s.align
  padding := s.padding.transpose

@[simp] theorem innerMain_transpose (s : Space) : s.transpose.innerMain = s.innerMain := by
  simp [innerMain, transpose]

@[simp] theorem innerCross_transpose (s : Space) : s.transpose.innerCross = s.innerCross := by
  simp [innerCross, transpose]

end Space

/-- Totals over a line; the main lengths include margins. -/
structure Summary where
  /-- The largest cross length, margins included. -/
  maxCross : Int
  /-- What the children that share no leftover space take. -/
  nonFlexMain : Int
  /-- The main margins of the children that share leftover space. -/
  flexMargins : Int
  /-- What the children want: lengths of their own and lower bounds. -/
  desiredMain : Int
  /-- What the children cannot do without. -/
  minimumMain : Int
  /-- By how much `desiredMain` exceeds the space. -/
  shortfall : Int
  /-- `minimumMain` exceeds the space. -/
  tooNarrow : Bool
  deriving DecidableEq, Repr, Inhabited

namespace Summary

def empty : Summary := ⟨0, 0, 0, 0, 0, 0, false⟩

end Summary

/-- A line that has been laid out: one rectangle for each child, in source order. -/
structure Solution where
  rects : List Rect
  summary : Summary
  deriving DecidableEq, Repr, Inhabited

namespace Solution

def empty : Solution := ⟨[], .empty⟩

def transpose (s : Solution) : Solution := ⟨s.rects.map Rect.transpose, s.summary⟩

end Solution

section

variable {ω : Type} [Weight ω]

/-- The largest cross length of the children with their margins, and at least zero. -/
def maxCross (a : Axis) (boxes : List (Request ω)) : Checked Int :=
  boxes.foldlM (fun most r => do
    return max most (← Length.add (r.resolvedCross a) (← a.crossSides r.margins))) 0

/-- The main lengths of the children that share no leftover space, margins included. -/
def nonFlexMain (a : Axis) (boxes : List (Request ω)) : Checked Int :=
  Length.total (fun r => do Length.add (← a.mainSides r.margins) (r.resolvedMain a))
    (boxes.filter fun r => !r.isFlexed a)

/-- The main margins of the children that share leftover space. -/
def flexMargins (a : Axis) (boxes : List (Request ω)) : Checked Int :=
  Length.total (fun r => a.mainSides r.margins) (boxes.filter fun r => r.isFlexed a)

/-- The totals of a line whose inner main length is `innerMain`. -/
def summarize (a : Axis) (innerMain : Int) (boxes : List (Request ω)) : Checked Summary := do
  let maxCross ← maxCross a boxes
  let nonFlexMain ← nonFlexMain a boxes
  let flexMargins ← flexMargins a boxes
  let desiredMain ←
    Length.total (fun r => do Length.add (← a.mainSides r.margins) (r.desiredMain a)) boxes
  let minimumMain ← Length.total (fun r => r.outerFloor a) boxes
  let shortfall ← Length.sub desiredMain innerMain
  return { maxCross, nonFlexMain, flexMargins, desiredMain, minimumMain, shortfall
           tooNarrow := decide (innerMain < minimumMain) }

/-- The length granted to the child at `index`, or `otherwise`. -/
def granted (grants : List Grant) (index : Nat) (otherwise : Int) : Int :=
  ((grants.find? fun g => g.index == index).map Grant.length).getD otherwise

/-- The children that can give way, in source order. -/
def shrinkables (a : Axis) (boxes : List (Request ω)) : List Shrinkable :=
  (boxes.zipIdx.filter fun (r, _) => !r.isFlexed a).map fun (r, i) =>
    ⟨i, r.resolvedMain a, r.floorMain a⟩

/-- The claims to leftover space, in source order. -/
def claims (a : Axis) (boxes : List (Request ω)) : List (Claim ω) :=
  (boxes.zipIdx.filter fun (r, _) => r.isFlexed a).map fun (r, i) => ⟨i, r.flex, r.mainBounds a⟩

/-- The weights of the children that share leftover space, added up in source order. -/
def totalWeight (a : Axis) (boxes : List (Request ω)) : ω :=
  (boxes.filter fun r => r.isFlexed a).foldl (fun sum r => Weight.add sum r.flex) Weight.zero

/-- The main lengths when the line is short by `shortfall`. -/
def tightMains (a : Axis) (shortfall : Int) (boxes : List (Request ω)) : Checked (List Int) := do
  let grants ← shrink shortfall (← bySlack (shrinkables a boxes))
  return boxes.zipIdx.map fun (r, i) =>
    if r.isFlexed a then r.floorMain a else granted grants i (r.resolvedMain a)

/-- The main lengths when there is room to spare. -/
def roomyMains (a : Axis) (innerMain : Int) (s : Summary) (boxes : List (Request ω)) :
    Checked (List Int) := do
  let free ← Length.sub (← Length.sub innerMain s.nonFlexMain) s.flexMargins
  let grants ← shareOut (max free 0) (totalWeight a boxes) (claims a boxes)
  return boxes.zipIdx.map fun (r, i) =>
    if r.isFlexed a then granted grants i 0 else r.resolvedMain a

/-- The main length of every child. -/
def mains (a : Axis) (innerMain : Int) (s : Summary) (boxes : List (Request ω)) :
    Checked (List Int) :=
  if s.tooNarrow then .ok (boxes.map fun r => r.narrowMain a)
  else if 0 < s.shortfall then tightMains a s.shortfall boxes
  else roomyMains a innerMain s boxes

omit [Weight ω] in
/-- The main length that children of these lengths take with their margins. -/
def used (a : Axis) (boxes : List (Request ω)) (mains : List Int) : Checked Int :=
  Length.total (fun (m, r) => do Length.add m (← a.mainSides r.margins)) (mains.zip boxes)

/-- How far a line that leaves `free` unused stands from the start. -/
def packOffset (free : Int) : Pack → Int
  | .start => 0
  | .center => free.tdiv 2
  | .finish => free

omit [Weight ω] in
/-- The cross position and the cross length of a child. -/
def alignCross (space : Space) (innerCross maxCross : Int) (r : Request ω) :
    Checked (Int × Int) := do
  let a := space.axis
  let margins ← a.crossSides r.margins
  let origin ← Length.add (a.crossStart space.padding) (a.crossStart r.margins)
  let bounds := r.crossBounds a
  let natural := r.resolvedCross a
  let fill (length : Int) : Int :=
    Bounds.constrain ⟨some (bounds.least?.getD 0), bounds.greatest?⟩ length
  match space.align with
  | .start => return (origin, natural)
  | .middle =>
    let spare ← Length.sub (← Length.sub innerCross natural) margins
    if 0 < spare then return (← Length.add origin (spare.tdiv 2), natural)
    else return (origin, natural)
  | .stretch => return (origin, fill (← Length.sub innerCross margins))
  | .stretchMax => return (origin, fill (← Length.sub maxCross margins))

omit [Weight ω] in
/-- The rectangles of children with these main lengths, margin box after margin box from
`offset`. -/
def place (space : Space) (innerCross maxCross : Int) (offset : Int) :
    List (Int × Request ω) → Checked (List Rect)
  | [] => .ok []
  | (main, r) :: rest => do
    let a := space.axis
    let (crossPos, cross) ← alignCross space innerCross maxCross r
    let mainPos ← Length.add offset (a.mainStart r.margins)
    let next ← Length.add mainPos (← Length.add main (a.mainEnd r.margins))
    return a.rect mainPos crossPos main cross :: (← place space innerCross maxCross next rest)

/-- Lay out a line of children. -/
def solve (boxes : List (Request ω)) (space : Space) : Checked Solution :=
  if boxes.isEmpty then .ok .empty
  else do
    let a := space.axis
    let innerMain ← space.innerMain
    let innerCross ← space.innerCross
    let summary ← summarize a innerMain boxes
    let lengths ← mains a innerMain summary boxes
    let free ← Length.sub innerMain (← used a boxes lengths)
    let start ← Length.add (a.mainStart space.padding) (packOffset (max free 0) space.pack)
    let rects ← place space innerCross summary.maxCross start (lengths.zip boxes)
    return { rects, summary }

omit [Weight ω] in
/-- The main length that a solution's rectangles take with the margins of their children. -/
def Solution.usedMain (s : Solution) (a : Axis) (boxes : List (Request ω)) : Checked Int :=
  used a boxes (s.rects.map fun r => a.main r.size)

theorem length_mains {a : Axis} {innerMain : Int} {s : Summary} {boxes : List (Request ω)}
    {lengths : List Int} (h : mains a innerMain s boxes = .ok lengths) :
    lengths.length = boxes.length := by
  unfold mains at h
  split at h
  · cases h; simp
  · split at h
    · simp only [tightMains, Length.bind_eq_ok] at h
      obtain ⟨_, _, _, _, h⟩ := h
      cases h; simp
    · simp only [roomyMains, Length.bind_eq_ok] at h
      obtain ⟨_, _, _, _, _, _, h⟩ := h
      cases h; simp

omit [Weight ω] in
theorem length_place {space : Space} {innerCross maxCross offset : Int}
    {items : List (Int × Request ω)} {rects : List Rect}
    (h : place space innerCross maxCross offset items = .ok rects) :
    rects.length = items.length := by
  induction items generalizing offset rects with
  | nil => simp_all [place]
  | cons item rest ih =>
    simp only [place, Length.bind_eq_ok] at h
    obtain ⟨_, _, _, _, _, _, _, _, rects', hrest, h⟩ := h
    cases h
    simp [ih hrest]

end

end Trellis.Box
