import Trellis.Box.Solution

/-!
# Lines that do not fit

A line whose children cannot fit even at their least lengths can be given a handler. A *menu* hides
children from the end of the line behind a trigger, and shows them again, first hidden first, when
there is room for them. A *scroller* keeps all children and moves them between two buttons.

A handler reacts to a line that has been laid out: `handle` when it is too narrow, `clear` when it
fits. Both give the handler's next state and what is to be hidden or shown; the space in
`reserved` stays free of children.

* `Menu.hidden_handle`: what a menu newly hides goes in front of what it had hidden.
* `Scroll.scrollTo_offset_mem`: a scroll position stays between 0 and the extent.
-/
namespace Trellis.Box

/-- A line of a container's children that has been laid out. -/
structure Line (ω : Type) where
  /-- The visible children, in source order. -/
  items : List ComponentId
  requests : List (Request ω)
  space : Space
  solution : Solution

namespace Line

variable {ω : Type}

def solve [Weight ω] (items : List ComponentId) (requests : List (Request ω)) (space : Space) :
    Checked (Line ω) := do
  return { items, requests, space, solution := ← Box.solve requests space }

def isTooNarrow (l : Line ω) : Bool := l.solution.summary.tooNarrow

/-- The least main length of the line, margins included. -/
def minimumMain (l : Line ω) : Int := l.solution.summary.minimumMain

def members (l : Line ω) : List (ComponentId × Request ω) := l.items.zip l.requests

def transpose (l : Line ω) : Line ω where
  items := l.items
  requests := l.requests.map Request.transpose
  space := l.space.transpose
  solution := l.solution.transpose

end Line

/-- What is to be done after a handler has reacted. -/
structure Outcome where
  /-- The line has to be laid out again. -/
  recalculate : Bool
  hide : List ComponentId
  reveal : List ComponentId
  deriving DecidableEq, Repr

namespace Outcome

def nothing : Outcome := ⟨false, [], []⟩

end Outcome

/-- Main space kept free before the first child and after the last one. -/
structure Reserved where
  leading : Int
  trailing : Int
  deriving DecidableEq, Repr

namespace Reserved

def none : Reserved := ⟨0, 0⟩

def total (r : Reserved) : Checked Int := Length.add r.leading r.trailing

end Reserved

/-! ## Menus -/

/-- A child behind the menu, with the least outer length it had when it was hidden. -/
structure HiddenItem where
  id : ComponentId
  outer : Int
  deriving DecidableEq, Repr

structure Menu where
  triggerSize : Int
  /-- In source order. -/
  hidden : List HiddenItem
  deriving DecidableEq, Repr

namespace Menu

variable {ω : Type} [Weight ω]

def fresh (triggerSize : Int) : Menu := ⟨triggerSize, []⟩

omit [Weight ω] in
/-- The main length to be freed so that the line fits next to the trigger. -/
def excess (m : Menu) (l : Line ω) : Checked Int := do
  Length.sub (← Length.add l.minimumMain m.triggerSize) (← l.space.innerMain)

/-- The first of `members` whose outer lengths reach `delta` together with `freed`, or all of
them. -/
def takeUntilFreed (a : Axis) (delta freed : Int) :
    List (ComponentId × Request ω) → Checked (List HiddenItem)
  | [] => .ok []
  | (id, r) :: rest =>
    if delta ≤ freed then .ok []
    else do
      let outer ← r.outerFloor a
      let freed ← Length.add freed outer
      return ⟨id, outer⟩ :: (← takeUntilFreed a delta freed rest)

/-- Hide children from the end of the line until `delta` has been freed. -/
def hideTrailing (m : Menu) (l : Line ω) (delta : Int) : Checked (Menu × Outcome) := do
  let taken ← takeUntilFreed l.space.axis delta 0 l.members.reverse
  let newly := taken.reverse
  return (⟨m.triggerSize, newly ++ m.hidden⟩,
    { recalculate := !newly.isEmpty, hide := newly.map HiddenItem.id, reveal := [] })

def handle (m : Menu) (l : Line ω) : Checked (Menu × Outcome) := do
  let delta ← m.excess l
  if delta ≤ 0 then return (m, .nothing)
  else m.hideTrailing l delta

/-- How many of the hidden children, from the first one, fit next to the `used` length; the trigger
needs its space as long as another one stays hidden. -/
def countFitting (triggerSize inner used : Int) : List HiddenItem → Checked Nat
  | [] => .ok 0
  | item :: rest => do
    let withItem ← Length.add used item.outer
    let needed ← Length.add withItem (if rest.isEmpty then 0 else triggerSize)
    if inner < needed then return 0
    else return (← countFitting triggerSize inner withItem rest) + 1

def clear (m : Menu) (l : Line ω) : Checked (Menu × Outcome) :=
  if m.hidden.isEmpty then .ok (m, .nothing)
  else do
    let delta ← m.excess l
    if 0 < delta then m.hideTrailing l delta
    else
      let count ← countFitting m.triggerSize (← l.space.innerMain) l.minimumMain m.hidden
      let showing := m.hidden.take count
      return (⟨m.triggerSize, m.hidden.drop count⟩,
        { recalculate := !showing.isEmpty, hide := [], reveal := showing.map HiddenItem.id })

/-- Forget hidden children that are not among `children`. -/
def retain (m : Menu) (children : List ComponentId) : Menu :=
  { m with hidden := m.hidden.filter fun item => children.contains item.id }

def reserved (m : Menu) : Reserved := if m.hidden.isEmpty then .none else ⟨0, m.triggerSize⟩

theorem hidden_handle {m m' : Menu} {l : Line ω} {o : Outcome} (h : m.handle l = .ok (m', o)) :
    m'.hidden.map HiddenItem.id = o.hide ++ m.hidden.map HiddenItem.id := by
  unfold handle at h
  obtain ⟨delta, -, h⟩ := Length.bind_eq_ok.1 h
  split at h
  · cases h; rfl
  · unfold hideTrailing at h
    obtain ⟨taken, -, h⟩ := Length.bind_eq_ok.1 h
    cases h
    simp

end Menu

/-! ## Scrollers -/

structure Scroll where
  /-- The main length of each of the two buttons. -/
  scrollerSize : Int
  position : Int
  /-- The greatest position. -/
  extent : Int
  overflowing : Bool
  deriving DecidableEq, Repr

namespace Scroll

variable {ω : Type}

def fresh (scrollerSize : Int) : Scroll := ⟨scrollerSize, 0, 0, false⟩

/-- `position` as near as the extent allows. -/
def clampTo (extent position : Int) : Int := max 0 (min position extent)

def handle (s : Scroll) (l : Line ω) : Checked (Scroll × Outcome) := do
  let viewport := max (← Length.sub (← l.space.innerMain) (← Length.mul 2 s.scrollerSize)) 0
  let extent := max (← Length.sub l.minimumMain viewport) 0
  return ({ s with extent, overflowing := true, position := clampTo extent s.position },
    { Outcome.nothing with recalculate := !s.overflowing })

def clear (s : Scroll) : Scroll × Outcome :=
  if s.overflowing then (fresh s.scrollerSize, { Outcome.nothing with recalculate := true })
  else (s, .nothing)

def reserved (s : Scroll) : Reserved :=
  if s.overflowing then ⟨s.scrollerSize, s.scrollerSize⟩ else .none

def scrollTo (s : Scroll) (position : Int) : Scroll :=
  { s with position := clampTo s.extent position }

theorem scrollTo_offset_mem (s : Scroll) (position : Int) (h : 0 ≤ s.extent) :
    0 ≤ (s.scrollTo position).position ∧ (s.scrollTo position).position ≤ s.extent := by
  simp only [scrollTo, clampTo]; omega

end Scroll

/-! ## Handlers of either kind -/

inductive Handler where
  | menu (m : Menu)
  | scroll (s : Scroll)
  deriving DecidableEq, Repr

namespace Handler

variable {ω : Type} [Weight ω]

/-- React to a line that is too narrow. -/
def handle (h : Handler) (l : Line ω) : Checked (Handler × Outcome) :=
  match h with
  | .menu m => (fun (m, o) => (.menu m, o)) <$> m.handle l
  | .scroll s => (fun (s, o) => (.scroll s, o)) <$> s.handle l

/-- React to a line that fits. -/
def clear (h : Handler) (l : Line ω) : Checked (Handler × Outcome) :=
  match h with
  | .menu m => (fun (m, o) => (.menu m, o)) <$> m.clear l
  | .scroll s => .ok (.scroll s.clear.1, s.clear.2)

/-- React to a line. -/
def react (h : Handler) (l : Line ω) : Checked (Handler × Outcome) :=
  if l.isTooNarrow then h.handle l else h.clear l

def reserved : Handler → Reserved
  | .menu m => m.reserved
  | .scroll s => s.reserved

/-- Forget what is not among `children`. -/
def retain (children : List ComponentId) : Handler → Handler
  | .menu m => .menu (m.retain children)
  | .scroll s => .scroll s

def isOverflowing : Handler → Bool
  | .menu m => !m.hidden.isEmpty
  | .scroll s => s.overflowing

/-- The children hidden by the handler, in source order. -/
def hiddenItems : Handler → List ComponentId
  | .menu m => m.hidden.map HiddenItem.id
  | .scroll _ => []

/-- How far the children are moved toward the start. -/
def offset : Handler → Int
  | .menu _ => 0
  | .scroll s => s.position

/-- Scroll to the allowed position nearest to `position`. -/
def scrollTo (position : Int) : Handler → Handler
  | .menu m => .menu m
  | .scroll s => .scroll (s.scrollTo position)

/-- Scroll by `delta` from where the handler stands. -/
def scrollBy (delta : Int) (h : Handler) : Handler :=
  h.scrollTo (Length.saturate (h.offset + delta))

def canScrollBackward : Handler → Bool
  | .menu _ => false
  | .scroll s => s.overflowing && 0 < s.position

def canScrollForward : Handler → Bool
  | .menu _ => false
  | .scroll s => s.overflowing && s.position < s.extent

end Handler

end Trellis.Box
