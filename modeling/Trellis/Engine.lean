import Trellis.Layout.Accordion
import Trellis.Layout.Anchored
import Trellis.Layout.Border
import Trellis.Layout.Columns
import Trellis.Layout.Fill
import Trellis.Layout.Lines
import Trellis.Layout.Stack
import Trellis.Layout.Table

/-!
# Layout passes

A pass over a container runs like this.

1. The host is told; a veto skips the pass.
2. Children that the host has not seen are rendered.
3. The container's layout places its children.
4. Visible children that are containers are laid out the same way, in source order.
5. The host is told again.

What a layout keeps is kept for its container as long as the container's kind of layout stays the
same.

* `Step.passWithin`: a pass with a bound on nesting; `Step.pass` gives it a bound that only
  components that contain one another reach.
-/
namespace Trellis

namespace Step

/-- What is kept for the container, made anew if there is nothing or if its kind of layout has
changed. -/
def arrangement (container : ComponentId) : Step Arrangement := do
  let layout ← layoutConfig container
  let known := ((← get).kept.get? container).filter fun a => a.kind == layout.kind
  let a := known.getD (.fresh layout)
  keep container a
  return a

/-- Let the container's layout place its children. -/
def arrange (layout : LayoutConfig) (container : ComponentId) : Arrangement → Step Unit
  | .auto => Stack.arrange layout container
  | .fit => Fill.arrange layout container
  | .column => Columns.arrange layout container
  | .table => Table.arrange layout container
  | .card active => Fill.arrangeCards layout container active
  | .accordion active => Accordion.arrange layout container active
  | .anchored a => a.arrange layout container
  | .border b => arrangeBorder layout container b
  | .linear l => Lines.arrange layout container l

/-- Render the children that the host has not seen. -/
def renderChildren (container : ComponentId) : Step Unit :=
  modifyTree fun t =>
    (t.children container).foldl (fun t id => t.modifyState id fun s => { s with rendered := true })
      t

/-- A pass over a container whose components nest less than `n` deep. -/
def passWithin : (n : Nat) → (container : ComponentId) → Step Unit
  | 0, _ => check (.error .endlessNesting)
  | n + 1, container => do
    let layout ← layoutConfig container
    if ← notify container .beforeLayout then
      renderChildren container
      arrange layout container (← arrangement container)
      let children := (← tree).visibleChildren container
      children.forM fun child => do
        if ((← tree).layout? child).isSome then passWithin n child
      let _ ← notify container .afterLayout

/-- A pass over a container and the containers in it. -/
def pass (container : ComponentId) : Step Unit := do
  passWithin (← tree).size container

/-- Lay out a container now, in place of a request that is waiting. -/
def layout (container : ComponentId) : Step Unit := do
  modify fun s => { s with timers := s.timers.modify container Debounce.cancel }
  pass container

/-- Give a component its size and lay out everything in it. -/
def layoutRoot (root : ComponentId) (size : Size) : Step Unit := do
  modifyTree fun t => t.applyRect root ⟨0, 0, size.width, size.height⟩
  layout root

/-! ## Cards and accordions -/

/-- Make `item` the active child; `false` if it was active already. -/
def setActiveItem (container item : ComponentId) : Step Bool := do
  let config ← layoutConfig container
  let t ← tree
  if t.parent? item ≠ some container then throw (.notAChild container item)
  let configured := (t.resolve container config.activeItem).or (t.visibleChildren container).head?
  let previous ← match ← arrangement container with
    | .card active => do
      keep container (.card (some item))
      pure (active.or configured)
    | .accordion active => do
      keep container (.accordion (some item))
      pure (active.or configured)
    | other => throw (.unsupportedOperation .setActiveItem other.kind)
  if previous = some item then return false
  match previous with
  | some id => let _ ← notify id .deactivate
  | none => pure ()
  layout container
  let _ ← notify item .activate
  return true

/-! ## Regions -/

/-- The border layout of a container, for an operation that only border layouts know. -/
def border (container : ComponentId) (operation : Operation) : Step Border := do
  match ← arrangement container with
  | .border b => return b
  | other => throw (.unsupportedOperation operation other.kind)

/-- The region `name` of a border layout with its edge. The center has no state to change. -/
def region (b : Border) (container : ComponentId) (name : RegionName)
    (operation : RegionOperation) : Step (Edge × Region) := do
  match name.edge? with
  | none => throw (.invalidRegionState name .expanded operation)
  | some e =>
    match b.get e with
    | none => throw (.noSuchRegion container name)
    | some r => return (e, r)

/-- Keep a region's new state, and hide or show its component accordingly. -/
def keepRegion (b : Border) (container : ComponentId) (e : Edge) (r : Region) : Step Border := do
  let b := b.set e (some r)
  keep container (.border b)
  modifyTree fun t => t.setHidden r.component r.hidesComponent
  return b

/-- What became of a transition. -/
inductive TransitionOutcome where
  | vetoed
  /-- It waits for its animation. -/
  | pending
  | applied
  deriving DecidableEq, Repr

/-- Lay out a border container after a transition and tell the host. -/
def concludeTransition (container component : ComponentId) (name : RegionName) (t : Transition) :
    Step Unit := do
  layout container
  let _ ← notify component (t.after name)

/-- Start collapsing or expanding a region. -/
def beginTransition (container : ComponentId) (name : RegionName) (t : Transition)
    (animate : Bool) : Step TransitionOutcome := do
  let b ← syncBorder container (← border container t.operation)
  let (e, r) ← region b container name t.regionOperation
  let config := (← check ((← tree).get r.component)).config
  if t = .collapse ∧ !config.collapsible then throw (r.refuse t.regionOperation)
  liftExcept (r.check t)
  if !(← notify r.component (t.before name)) then return .vetoed
  if animate then
    keep container (.border (b.set e (some (r.start t))))
    return .pending
  let _ ← keepRegion b container e (r.finish t)
  concludeTransition container r.component name t
  return .applied
where
  /-- Refuse the step if the check does. -/
  liftExcept (x : Except LayoutError Unit) : Step Unit :=
    match x with
    | .ok () => pure ()
    | .error e => throw e

def collapse (container : ComponentId) (name : RegionName) (animate : Bool) :
    Step TransitionOutcome :=
  beginTransition container name .collapse animate

def expand (container : ComponentId) (name : RegionName) (animate : Bool) :
    Step TransitionOutcome :=
  beginTransition container name .expand animate

/-- Finish the transition that waits for its animation, if one does. -/
def completeAnimation (container : ComponentId) (name : RegionName) :
    Step (Option Transition) := do
  let b ← border container .completeAnimation
  let (e, r) ← region b container name .completeAnimation
  match r.pending with
  | none => return none
  | some t =>
    let _ ← keepRegion b container e (r.finish t)
    concludeTransition container r.component name t
    return some t

/-- Show a collapsed region over the center. -/
def slideOut (container : ComponentId) (name : RegionName) : Step Unit := do
  let b ← syncBorder container (← border container .slideOut)
  let (e, r) ← region b container name .slideOut
  if !r.canSlideOut then throw (r.refuse .slideOut)
  let _ ← keepRegion b container e { r with state := .floating }
  layout container

/-- Put a floating region back into its placeholder. -/
def slideIn (container : ComponentId) (name : RegionName) : Step Unit := do
  let b ← border container .slideIn
  let (e, r) ← region b container name .slideIn
  if !r.canSlideIn then throw (r.refuse .slideIn)
  let _ ← keepRegion b container e { r with state := .collapsed }
  layout container

/-- Put back the floating regions at `edges`; which ones they were. -/
def slideInAll (container : ComponentId) : Border → List Edge → Step (List RegionName)
  | _, [] => return []
  | b, e :: rest => do
    match b.get e with
    | none => slideInAll container b rest
    | some r =>
      if r.canSlideIn then
        let b ← keepRegion b container e { r with state := .collapsed }
        return e.region :: (← slideInAll container b rest)
      else slideInAll container b rest

/-- A click outside of every floating region puts them all back; which ones they were. -/
def outsideClick (container : ComponentId) : Step (List RegionName) := do
  let b ← border container .outsideClick
  let closed ← slideInAll container b Edge.all
  if !closed.isEmpty then layout container
  return closed

/-- The bounds of the splitter of `r`, with the component's settings and the center's. -/
def splitBounds (b : Border) (e : Edge) (r : Region) (c : ItemConfig)
    (center : Option ItemConfig) : SplitBounds :=
  let length (rect : Rect) := if e.region.isHorizontalBand then rect.height else rect.width
  let least (c : ItemConfig) := if e.region.isHorizontalBand then c.minHeight else c.minWidth
  { minSize := c.minSize.getD SplitBounds.standardMin
    maxSize := c.maxSize.getD SplitBounds.standardMax
    region := (r.size.or (r.rect.map length)).getD 0
    center := (b.centerRect.map length).getD 0
    centerMin := (center.bind least).getD SplitBounds.standardCenterMin }

/-- Move a region's splitter; the thickness that the region gets. -/
def splitMove (container : ComponentId) (name : RegionName) (requested : Int) : Step Int := do
  let b ← border container .splitMove
  let (e, r) ← region b container name .resize
  if !r.canResize then throw (r.refuse .resize)
  let t ← tree
  let config := (← check (t.get r.component)).config
  let center := (b.center.bind t.get?).map Component.config
  let size ← check ((splitBounds b e r config center).clamp requested)
  keep container (.border (b.set e (some { r with size := some size })))
  layout container
  return size

/-! ## Scrolling -/

/-- Scroll a line; whether that moved it. -/
def scrollBy (container : ComponentId) (delta : Int) : Step Bool := do
  match (← get).kept.get? container with
  | some (.linear ⟨axis, some handler⟩) =>
    let scrolled := handler.scrollBy delta
    keep container (.linear ⟨axis, some scrolled⟩)
    if scrolled.offset = handler.offset then return false
    layout container
    return true
  | _ => return false

/-! ## Gathered requests -/

/-- Ask for a layout at `now`: it runs at once, or waits if the container gathers requests.
Whether it ran. -/
def requestLayout (container : ComponentId) (now : Nat) : Step Bool := do
  let config ← layoutConfig container
  match config.window? with
  | none =>
    layout container
    return true
  | some window =>
    modify fun s =>
      let timer := (s.timers.get? container).getD (.idle window)
      { s with timers := s.timers.insert container (timer.request now) }
    return false

/-- Run one pass after another. -/
def passes (containers : List ComponentId) : Step (List ComponentId) := do
  containers.forM pass
  return containers

/-- Run the layouts whose time has come; for which containers. -/
def poll (now : Nat) : Step (List ComponentId) := do
  let timers := (← get).timers
  modify fun s => { s with timers := timers.map fun d => (d.takeDue now).2 }
  passes (timers.filter fun _ d => d.isDue now).keys

/-- Run all layouts that are waiting; for which containers. -/
def flush : Step (List ComponentId) := do
  let timers := (← get).timers
  modify fun s => { s with timers := timers.map Debounce.cancel }
  passes (timers.filter fun _ d => d.isPending).keys

/-- Forget what is kept for a container and for everything in it, and the requests that wait for
them. -/
def destroy (container : ComponentId) : Step Unit :=
  modify fun s =>
    let lives (id : ComponentId) : Bool := id != container && !s.tree.isDescendantOf id container
    { s with
      kept := s.kept.filter fun id _ => lives id
      timers := s.timers.filter fun id _ => lives id }

end Step

namespace Scene

/-- Whether a request waits for the container. -/
def isPending (s : Scene) (container : ComponentId) : Bool :=
  (s.timers.get? container).any Debounce.isPending

/-- When the next request that waits is to be served. -/
def nextDeadline (s : Scene) : Option Nat :=
  (s.timers.entries.filterMap fun e => e.2.deadline).min?

/-- The active child of a card or accordion container. -/
def activeItem (s : Scene) (container : ComponentId) : Option ComponentId :=
  (s.kept.get? container).bind Arrangement.active?

end Scene

end Trellis
