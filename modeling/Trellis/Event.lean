import Trellis.Region.State
import Trellis.Tree

/-!
# Hosts and what they are told

The engine measures and paints nothing. A host says how large a component's content is and what
size a container offers its children, and is told of everything that happens. A host can veto what
is about to happen; a veto of what has happened is not heard.

* `Host.vetoed_imp_isVetoable`: only what is about to happen can be vetoed.
-/
namespace Trellis

inductive Event where
  /-- A container is about to be laid out. -/
  | beforeLayout
  | afterLayout
  /-- A card or panel became the active one. -/
  | activate
  | deactivate
  | beforeCollapse (region : RegionName)
  | collapse (region : RegionName)
  | beforeExpand (region : RegionName)
  | expand (region : RegionName)
  /-- A line began or ceased to overflow. -/
  | overflowChange (overflowing : Bool)
  deriving DecidableEq, Repr

namespace Event

/-- Whether the event is about something that has not happened yet. -/
def isVetoable : Event → Bool
  | .beforeLayout | .beforeCollapse _ | .beforeExpand _ => true
  | _ => false

end Event

namespace Transition

/-- What the host is told before the transition. -/
def before (t : Transition) (region : RegionName) : Event :=
  match t with
  | .collapse => .beforeCollapse region
  | .expand => .beforeExpand region

/-- What the host is told after the transition. -/
def after (t : Transition) (region : RegionName) : Event :=
  match t with
  | .collapse => .collapse region
  | .expand => .expand region

end Transition

structure Host where
  /-- The size of a component's content. -/
  measure : ComponentId → ItemConfig → Size
  /-- The size that a container offers its children, padding included. -/
  targetSize : Tree → ComponentId → Checked Size
  /-- Whether the host takes note of what it is told, and may veto. -/
  listens : Bool
  /-- What the host vetoes, for one component or for every one. -/
  vetoes : List (Option ComponentId × Event)

namespace Host

def vetoed (h : Host) (id : ComponentId) (e : Event) : Bool :=
  h.listens && e.isVetoable &&
    h.vetoes.any fun v => v.2 == e && v.1.all (· == id)

theorem vetoed_imp_isVetoable {h : Host} {id : ComponentId} {e : Event}
    (hv : h.vetoed id e = true) : e.isVetoable = true := by
  simp only [vetoed, Bool.and_eq_true] at hv
  exact hv.1.2

/-- A container offers the size of its own rectangle. -/
def ownSize (t : Tree) (id : ComponentId) : Checked Size := do
  return (← t.get id).state.rect.size

/-- A container whose children reach below its height loses `bar` of its width. -/
def besideScrollbar (bar : Int) (t : Tree) (id : ComponentId) : Checked Size := do
  let size ← ownSize t id
  let bottoms ← (t.children id).mapM fun child => do (← t.get child).state.rect.bottom
  if size.height < bottoms.max?.getD 0 then
    return { size with width := ← Length.sub size.width bar }
  else return size

/-- Sizes given for single components instead of the configured ones. -/
def measureWith (sizes : List (ComponentId × Size)) (id : ComponentId) (c : ItemConfig) : Size :=
  (sizes.lookup id).getD c.contentSize

/-- A host that measures from the settings and does not listen. -/
def standard : Host where
  measure _ c := c.contentSize
  targetSize := ownSize
  listens := false
  vetoes := []

end Host

end Trellis
