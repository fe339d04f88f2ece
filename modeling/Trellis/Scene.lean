import Trellis.Event
import Trellis.Box.Overflow
import Trellis.Anchor
import Trellis.Debounce
import Trellis.IdMap
import Trellis.LayoutError

/-!
# The state of a session

A session holds the component tree, the host, what layouts keep between their passes, the layout
requests that are waiting, and what has been said. A step of a session (`Step`) changes this state
and may be refused, keeping what it did before; a fault ends the session.

* `Arrangement`: what a layout keeps between passes.
-/
namespace Trellis

/-! ## What layouts keep -/

/-- The anchors built for a child. -/
structure AnchorPair where
  width : Option Anchor
  height : Option Anchor

inductive AnchorMode where
  /-- Children one below the other. -/
  | anchor
  /-- Children at positions of their own. -/
  | absolute
  /-- Children one below the other, each with a label. -/
  | form
  deriving DecidableEq, Repr

/-- Anchor, absolute and form layouts: the reference size and the anchors built against it. -/
structure Anchored where
  mode : AnchorMode
  /-- The content size of the first pass in which the container had a size. -/
  observed : Option Size
  anchors : IdMap AnchorPair

/-- Border layouts: the regions found among the children, one slot for each edge. -/
structure Border where
  north : Option Region
  south : Option Region
  west : Option Region
  east : Option Region
  center : Option ComponentId
  centerRect : Option Rect
  deriving DecidableEq, Repr

namespace Border

def empty : Border := ⟨none, none, none, none, none, none⟩

def get (b : Border) : Edge → Option Region
  | .north => b.north
  | .south => b.south
  | .west => b.west
  | .east => b.east

def set (b : Border) (e : Edge) (r : Option Region) : Border :=
  match e with
  | .north => { b with north := r }
  | .south => { b with south := r }
  | .west => { b with west := r }
  | .east => { b with east := r }

@[simp] theorem get_set (b : Border) (e f : Edge) (r : Option Region) :
    (b.set e r).get f = if f = e then r else b.get f := by
  cases e <;> cases f <;> rfl

end Border

/-- Lines: the axis, and the handler for children that do not fit. -/
structure Linear where
  axis : Axis
  overflow : Option Box.Handler
  deriving DecidableEq, Repr

/-- What a layout keeps between passes. -/
inductive Arrangement where
  | auto
  | fit
  | column
  | table
  | card (active : Option ComponentId)
  | accordion (active : Option ComponentId)
  | anchored (a : Anchored)
  | border (b : Border)
  | linear (l : Linear)

namespace Arrangement

def kind : Arrangement → LayoutKind
  | .auto => .auto
  | .fit => .fit
  | .column => .column
  | .table => .table
  | .card _ => .card
  | .accordion _ => .accordion
  | .anchored a =>
    match a.mode with
    | .anchor => .anchor
    | .absolute => .absolute
    | .form => .form
  | .border _ => .border
  | .linear l =>
    match l.axis with
    | .horizontal => .hbox
    | .vertical => .vbox

/-- A layout that has not been used yet. -/
def fresh (c : LayoutConfig) : Arrangement :=
  let handler := c.overflowHandler.map fun
    | .menu => Box.Handler.menu (.fresh c.triggerSize)
    | .scroll => Box.Handler.scroll (.fresh c.scrollerSize)
  match c.kind with
  | .auto => .auto
  | .fit => .fit
  | .card => .card none
  | .anchor => .anchored ⟨.anchor, none, .empty⟩
  | .absolute => .anchored ⟨.absolute, none, .empty⟩
  | .form => .anchored ⟨.form, none, .empty⟩
  | .column => .column
  | .table => .table
  | .border => .border .empty
  | .hbox => .linear ⟨.horizontal, handler⟩
  | .vbox => .linear ⟨.vertical, handler⟩
  | .accordion => .accordion none

theorem kind_fresh (c : LayoutConfig) : (fresh c).kind = c.kind := by
  unfold fresh
  cases c.kind <;> rfl

/-- The active child of a card or accordion layout. -/
def active? : Arrangement → Option ComponentId
  | .card active | .accordion active => active
  | _ => none

end Arrangement

/-! ## Sessions and their steps -/

structure Scene where
  tree : Tree
  host : Host
  /-- What the layout of each container keeps. -/
  kept : IdMap Arrangement
  /-- The layout requests that are gathered for each container. -/
  timers : IdMap Debounce
  /-- What the host was told, oldest first. -/
  events : List (ComponentId × Event)
  ledger : Ledger

/-- A step of a session: it may be refused, and it may be abandoned. -/
abbrev Step := ExceptT LayoutError (StateT Scene Checked)

namespace Scene

def ofTree (tree : Tree) (host : Host) : Scene where
  tree := tree
  host := host
  kept := .empty
  timers := .empty
  events := []
  ledger := .empty

/-- The result of a step and the state it leaves behind, unless it is abandoned. -/
def run {α : Type} (s : Scene) (x : Step α) : Checked (Except LayoutError α × Scene) :=
  (ExceptT.run x).run s

end Scene

namespace Step

/-- A step that cannot go on with a fault. -/
def check {α : Type} (x : Checked α) : Step α := ExceptT.lift (StateT.lift x)

/-- Log the notices of a draft and take its value. -/
def draft {α : Type} (x : Draft α) : Step α := do
  let noted := x.run
  modify fun s => { s with ledger := s.ledger.logAll noted.notices }
  check noted.value

/-- Tell the host; `false` means that it vetoes. -/
def notify (id : ComponentId) (e : Event) : Step Bool := do
  let s ← get
  if s.host.listens then set { s with events := s.events ++ [(id, e)] }
  return !s.host.vetoed id e

def tree : Step Tree := return (← get).tree

def modifyTree (f : Tree → Tree) : Step Unit := modify fun s => { s with tree := f s.tree }

/-- Keep `a` for the container. -/
def keep (id : ComponentId) (a : Arrangement) : Step Unit :=
  modify fun s => { s with kept := s.kept.insert id a }

def targetSize (id : ComponentId) : Step Size := do
  let s ← get
  check (s.host.targetSize s.tree id)

/-- The layout of a container. -/
def layoutConfig (id : ComponentId) : Step LayoutConfig := do
  let t ← tree
  if t.contains id then
    match t.layout? id with
    | some c => return c
    | none => throw (.notAContainer id)
  else throw (.unknownComponent id)

end Step

end Trellis
