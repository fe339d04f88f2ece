import Trellis.Region.State

/-!
# Why a layout operation is refused

A refusal leaves the session usable, and what was done before it stays done. That children do not
fit is no reason to refuse.
-/
namespace Trellis

/-- The operations that only some kinds of layout know. -/
inductive Operation where
  | setActiveItem | collapse | expand | completeAnimation | slideOut | slideIn | outsideClick
  | splitMove
  deriving DecidableEq, Repr

namespace Operation

def name : Operation → String
  | .setActiveItem => "set_active_item"
  | .collapse => "collapse"
  | .expand => "expand"
  | .completeAnimation => "complete_animation"
  | .slideOut => "slide_out"
  | .slideIn => "slide_in"
  | .outsideClick => "outside_click"
  | .splitMove => "split_move"

end Operation

/-- What can be done to a single region. -/
inductive RegionOperation where
  | collapse | expand | completeAnimation | slideOut | slideIn | resize
  deriving DecidableEq, Repr

namespace RegionOperation

def name : RegionOperation → String
  | .collapse => "collapse"
  | .expand => "expand"
  | .completeAnimation => "complete animation"
  | .slideOut => "slide out"
  | .slideIn => "slide in"
  | .resize => "resize"

end RegionOperation

inductive LayoutError where
  /-- The border layout has no visible center. -/
  | missingCenterRegion (container : ComponentId)
  | unknownComponent (id : ComponentId)
  | notAContainer (id : ComponentId)
  /-- The container's kind of layout does not know the operation. -/
  | unsupportedOperation (operation : Operation) (kind : LayoutKind)
  /-- The border layout has no component in the region. -/
  | noSuchRegion (container : ComponentId) (region : RegionName)
  | notAChild (container child : ComponentId)
  /-- The state of the region does not allow the operation. -/
  | invalidRegionState (region : RegionName) (state : RegionState) (operation : RegionOperation)
  deriving DecidableEq, Repr

namespace LayoutError

/-- An id as messages show it. -/
def idText (id : ComponentId) : String := s!"ComponentId({id})"

def message : LayoutError → String
  | .missingCenterRegion container => s!"border layout {idText container} has no center region"
  | .unknownComponent id => s!"unknown component {idText id}"
  | .notAContainer id => s!"component {idText id} is not a container"
  | .unsupportedOperation operation kind =>
    s!"{operation.name} is not supported by {Vocabulary.spelling kind} layouts"
  | .noSuchRegion container region =>
    s!"border layout {idText container} has no {Vocabulary.spelling region} region"
  | .notAChild container child => s!"{idText child} is not a child of {idText container}"
  | .invalidRegionState region state operation =>
    s!"cannot {operation.name} {Vocabulary.spelling region} region while {state.name}"

end LayoutError

namespace Transition

def operation : Transition → Operation
  | .collapse => .collapse
  | .expand => .expand

def regionOperation : Transition → RegionOperation
  | .collapse => .collapse
  | .expand => .expand

end Transition

namespace Region

/-- Refuse an operation that the region's state does not allow. -/
def refuse (r : Region) (operation : RegionOperation) : LayoutError :=
  .invalidRegionState r.name r.state operation

/-- Whether `t` may start, and if not why. -/
def check (r : Region) (t : Transition) : Except LayoutError Unit :=
  if r.allows t then .ok () else .error (r.refuse t.regionOperation)

end Region

end Trellis
