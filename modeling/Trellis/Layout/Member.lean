import Trellis.Scene

/-!
# What a layout sees of its children

A layout reads the settings and the measured size of every visible child before it changes
anything, computes all rectangles, and applies them together. Rectangles are relative to the
container's origin and lie inside its padding.

* `Member.natural_bounded`: a natural size is within the child's bounds.
* `chooseActive_mem`: the child to be active is a candidate, provided the configured one is.
-/
namespace Trellis

/-- A child of the container, as a layout sees it. -/
structure Member where
  id : ComponentId
  config : ItemConfig
  /-- The size of the content, as the host measures it. -/
  measured : Size

namespace Member

/-- The size that the child has when nothing stretches it: configured lengths before measured ones,
within bounds. -/
def natural (m : Member) : Size where
  width := m.config.widthBounds.constrain (m.config.width.getD m.measured.width)
  height := m.config.heightBounds.constrain (m.config.height.getD m.measured.height)

/-- The child's own margins, else those that the layout gives every child. -/
def margins (layout : LayoutConfig) (m : Member) : Noted Sides :=
  match m.config.margins with
  | some own => own.sides
  | none => Spacing.sidesOrZero layout.defaultMargins

/-- What the child asks of a line. -/
def request (layout : LayoutConfig) (m : Member) : Noted (Box.Request Float) := do
  let margins ← m.margins layout
  return {
    width := m.config.width
    height := m.config.height
    natural := m.measured
    widthBounds := m.config.widthBounds
    heightBounds := m.config.heightBounds
    flex := m.config.flexWeight
    margins
  }

theorem natural_bounded (m : Member) :
    m.config.widthBounds.constrain m.natural.width = m.natural.width ∧
      m.config.heightBounds.constrain m.natural.height = m.natural.height :=
  ⟨Bounds.constrain_constrain _ _, Bounds.constrain_constrain _ _⟩

end Member

/-- A child with its margins. -/
structure Framed where
  member : Member
  margins : Sides

namespace Member

def framed (layout : LayoutConfig) (m : Member) : Noted Framed := do
  return ⟨m, ← m.margins layout⟩

end Member

/-- A component and the rectangle that a layout gives it. -/
structure Placement where
  id : ComponentId
  rect : Rect
  deriving DecidableEq, Repr

/-- The area inside the padding of a container that offers `target`. -/
def contentBox (layout : LayoutConfig) (target : Size) : Draft Rect := do
  let padding ← (Spacing.sidesOrZero layout.padding : Noted Sides)
  let width ← Length.sub target.width (← padding.horizontal)
  let height ← Length.sub target.height (← padding.vertical)
  return ⟨padding.left, padding.top, max width 0, max height 0⟩

namespace Tree

/-- The child that a setting names: by its position, or by a name registered for a child. -/
def resolve (t : Tree) (container : ComponentId) : Option ActiveItem → Option ComponentId
  | none => none
  | some (.position index) => (t.children container)[index]?
  | some (.itemId name) => (t.lookup name).filter fun id => t.parent? id == some container

def applyPlacements (t : Tree) (placements : List Placement) : Tree :=
  placements.foldl (fun t p => t.applyRect p.id p.rect) t

end Tree

/-- The child of `candidates` that is to be active: the one that is, if it is still among them, else
the one configured, else the first. -/
def chooseActive (candidates : List ComponentId) (active configured : Option ComponentId) :
    Option ComponentId :=
  ((active.filter candidates.contains).or configured).or candidates.head?

theorem chooseActive_mem {candidates : List ComponentId} {active configured : Option ComponentId}
    {child : ComponentId} (hconf : ∀ c, configured = some c → c ∈ candidates)
    (h : chooseActive candidates active configured = some child) : child ∈ candidates := by
  unfold chooseActive at h
  rcases hk : active.filter candidates.contains with _ | a
  · rcases hc : configured with _ | c
    · rw [hk, hc] at h
      exact List.mem_of_head? h
    · rw [hk, hc] at h
      cases h
      exact hconf _ hc
  · rw [hk] at h
    cases h
    have := (Option.filter_eq_some_iff.1 hk).2
    simpa using this

namespace Step

/-- A child as a layout sees it. -/
def member (id : ComponentId) : Step Member := do
  let s ← get
  let config := (← check (s.tree.get id)).config
  return ⟨id, config, s.host.measure id config⟩

/-- The visible children, in source order. -/
def members (container : ComponentId) : Step (List Member) := do
  ((← tree).visibleChildren container).mapM member

/-- The area inside the padding. -/
def contentBox (layout : LayoutConfig) (container : ComponentId) : Step Rect := do
  draft (Trellis.contentBox layout (← targetSize container))

def apply (placements : List Placement) : Step Unit :=
  modifyTree fun t => t.applyPlacements placements

end Step

end Trellis
