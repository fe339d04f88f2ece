import Trellis.Config.Basic

/-!
# The component tree

Components are kept in the order in which they were made, and a component's id is its position;
ids are never used again. A component that is detached stays in the tree without a parent. The tree
is also the registry of components by name.

* `ofDescription`: a tree from a description, components in preorder.
* `get?_modify`: changing one component leaves the others as they are.
-/
namespace Trellis

/-- What layouts write about a component. -/
structure ComponentState where
  /-- By configuration or by a layout. -/
  hidden : Bool := false
  /-- The component has been shown to the host. -/
  rendered : Bool := false
  /-- Relative to the parent's content origin. -/
  rect : Rect := .zero
  /-- A rectangle has been applied. -/
  sized : Bool := false
  /-- The rectangle has changed since changes were last taken. -/
  dirty : Bool := false
  /-- Forms: where the label of the field is. -/
  labelRect : Option Rect := none
  deriving DecidableEq, Repr

structure Component where
  config : ItemConfig
  state : ComponentState
  parent : Option ComponentId
  /-- In source order. -/
  children : List ComponentId

/-- A component that no layout has touched yet. -/
def Component.fresh (config : ItemConfig) : Component where
  config := config
  state := { hidden := config.hidden }
  parent := none
  children := []

structure Tree where
  components : Array Component
  registry : List (String × ComponentId)

namespace Tree

def empty : Tree := ⟨#[], []⟩

def size (t : Tree) : Nat := t.components.size

def contains (t : Tree) (id : ComponentId) : Bool := id < t.size

def get? (t : Tree) (id : ComponentId) : Option Component := t.components[id]?

/-- The component at `id`; asking for one that is not there is a fault. -/
def get (t : Tree) (id : ComponentId) : Checked Component :=
  match t.get? id with
  | some c => .ok c
  | none => .error (.noSuchComponent t.size id)

def parent? (t : Tree) (id : ComponentId) : Option ComponentId := (t.get? id).bind (·.parent)

def children (t : Tree) (id : ComponentId) : List ComponentId :=
  (t.get? id).elim [] (·.children)

def layout? (t : Tree) (id : ComponentId) : Option LayoutConfig :=
  (t.get? id).bind (·.config.layout)

def isVisible (t : Tree) (id : ComponentId) : Bool := (t.get? id).any fun c => !c.state.hidden

/-- The children that take part in layouts. -/
def visibleChildren (t : Tree) (id : ComponentId) : List ComponentId :=
  (t.children id).filter t.isVisible

/-- At most `n` ancestors, from `id` upward. -/
def ancestorsWithin (t : Tree) : Nat → Option ComponentId → List ComponentId
  | n + 1, some id => id :: t.ancestorsWithin n (t.parent? id)
  | _, _ => []

/-- The ancestors of a component, from its parent to the root. Unless components contain one
another, there are fewer of them than components. -/
def ancestors (t : Tree) (id : ComponentId) : List ComponentId :=
  t.ancestorsWithin t.size (t.parent? id)

def isDescendantOf (t : Tree) (id ancestor : ComponentId) : Bool :=
  (t.ancestors id).contains ancestor

/-! ## Changes -/

def modify (t : Tree) (id : ComponentId) (f : Component → Component) : Tree :=
  { t with components := t.components.modify id f }

def modifyState (t : Tree) (id : ComponentId) (f : ComponentState → ComponentState) : Tree :=
  t.modify id fun c => { c with state := f c.state }

def register (t : Tree) (name : String) (id : ComponentId) : Tree :=
  { t with registry := (name, id) :: t.registry.filter fun e => e.1 != name }

def unregister (t : Tree) (name : String) : Tree :=
  { t with registry := t.registry.filter fun e => e.1 != name }

/-- The component registered under `name`. -/
def lookup (t : Tree) (name : String) : Option ComponentId :=
  (t.registry.find? fun e => e.1 == name).map Prod.snd

/-- Add a component, not attached to any other, and register it under its name if it has one. -/
def alloc (t : Tree) (config : ItemConfig) : Tree :=
  let named := match config.itemId with
    | some name => t.register name t.size
    | none => t
  { named with components := named.components.push (.fresh config) }

/-- Take `child` away from `parent`, if it is a child of it. -/
def detach (t : Tree) (parent child : ComponentId) : Tree :=
  if (t.children parent).contains child then
    (t.modify parent fun c => { c with children := c.children.erase child }).modify child
      fun c => { c with parent := none }
  else t

/-- Make `child` the last child of `parent`, taking it away from the parent it has. -/
def attach (t : Tree) (parent child : ComponentId) : Tree :=
  let free := match t.parent? child with
    | some old => t.detach old child
    | none => t
  (free.modify parent fun c => { c with children := c.children ++ [child] }).modify child
    fun c => { c with parent := some parent }

/-- `attach` for ids that may not be there. -/
def appendChild (t : Tree) (parent child : ComponentId) : Checked Tree := do
  let _ ← t.get parent
  let _ ← t.get child
  return t.attach parent child

/-- `detach` for ids that may not be there. -/
def removeChild (t : Tree) (parent child : ComponentId) : Checked Tree := do
  let _ ← t.get parent
  return t.detach parent child

mutual

/-- Add a described component and those in it as the last child of `parent`. -/
def add (t : Tree) (parent : ComponentId) : Description → Tree
  | .node item children => addAll ((t.alloc item).attach parent t.size) t.size children

def addAll (t : Tree) (parent : ComponentId) : List Description → Tree
  | [] => t
  | d :: rest => addAll (t.add parent d) parent rest

end

/-- A tree that has only a root. -/
def ofItem (item : ItemConfig) : Tree := empty.alloc item

/-- The tree that a description describes. -/
def ofDescription (d : Description) : Tree := (ofItem d.item).addAll 0 d.children

def setHidden (t : Tree) (id : ComponentId) (hidden : Bool) : Tree :=
  t.modifyState id fun s => { s with hidden }

/-- Whether a rectangle would change what is known of the component. -/
def wouldChange (t : Tree) (id : ComponentId) (rect : Rect) : Bool :=
  (t.get? id).any fun c => !c.state.sized || c.state.rect != rect

/-- Give a component its rectangle; it becomes dirty if that changes anything. -/
def applyRect (t : Tree) (id : ComponentId) (rect : Rect) : Tree :=
  let changed := t.wouldChange id rect
  t.modifyState id fun s => { s with rect, sized := true, dirty := s.dirty || changed }

/-- The components whose rectangle has changed, in ascending order. -/
def dirtyIds (t : Tree) : List ComponentId :=
  (List.range t.size).filter fun id => (t.get? id).any fun c => c.state.dirty

/-- No component is dirty any more. -/
def clearDirty (t : Tree) : Tree :=
  { t with components :=
      t.components.map fun c => { c with state := { c.state with dirty := false } } }

/-! ## What changes show -/

theorem get?_modify (t : Tree) (id i : ComponentId) (f : Component → Component) :
    (t.modify id f).get? i = if id = i then (t.get? i).map f else t.get? i := by
  simp only [get?, modify, Array.getElem?_modify]

@[simp] theorem size_modify (t : Tree) (id : ComponentId) (f : Component → Component) :
    (t.modify id f).size = t.size := by
  simp [size, modify]

@[simp] theorem size_alloc (t : Tree) (config : ItemConfig) :
    (t.alloc config).size = t.size + 1 := by
  unfold alloc
  cases config.itemId <;> simp [size, register]

end Tree

end Trellis
