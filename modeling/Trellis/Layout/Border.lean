import Trellis.Layout.Member

/-!
# Border layouts

Regions lie around a center that has to be there. Each edge in turn takes a strip off the area that
is left: north and south over the full width, west and east between them. An expanded region takes
its thickness, its margins and its splitter; a collapsed one takes a placeholder; a floating one is
drawn beside its placeholder and moves nothing else. The center gets what is left.

Regions are picked up from the children in source order, the first child for each name. A region
keeps its state as long as its component is a child.

* `sync_get_component`: after picking up, every region's component is a child.
-/
namespace Trellis

namespace Border

/-! ## Picking up regions -/

/-- A child as far as regions are concerned. -/
structure Slot where
  id : ComponentId
  region : Option RegionName
  collapsed : Bool
  visible : Bool
  deriving DecidableEq, Repr

/-- The first child configured for `name`. -/
def holder (children : List Slot) (name : RegionName) : Option Slot :=
  children.find? fun s => s.region == some name

def withoutRegion : Notice := ⟨"BorderLayout", "child without a region is not laid out"⟩

def repeatedRegion (name : RegionName) : Notice :=
  ⟨"BorderLayout", s!"more than one {Vocabulary.spelling name} region; only the first is used"⟩

/-- What is to be said of the children, when `seen` regions are taken already. -/
def notices (seen : List RegionName) : List Slot → List Notice
  | [] => []
  | s :: rest =>
    match s.region with
    | none => withoutRegion :: notices seen rest
    | some name =>
      if seen.contains name then repeatedRegion name :: notices seen rest
      else notices (name :: seen) rest

/-- The region at an edge after picking up: the one that is known if it still belongs to the child
configured for it, a new one for a new child, and otherwise the known one as long as its component
is a child. -/
def regionAt (children : List Slot) (known : Option Region) (name : RegionName) :
    Option Region :=
  match holder children name with
  | some s =>
    match known with
    | some r => if r.component = s.id then some r else some (.fresh name s.id s.collapsed)
    | none => some (.fresh name s.id s.collapsed)
  | none => known.filter fun r => (children.map Slot.id).contains r.component

/-- The component that a new, collapsed region at an edge hides. -/
def newlyHidden (children : List Slot) (known : Option Region) (name : RegionName) :
    Option ComponentId :=
  match holder children name with
  | some s =>
    if s.collapsed && (known.map Region.component) != some s.id then some s.id else none
  | none => none

/-- The regions after picking up. -/
def sync (b : Border) (children : List Slot) : Border where
  north := regionAt children b.north .north
  south := regionAt children b.south .south
  west := regionAt children b.west .west
  east := regionAt children b.east .east
  center := ((holder children .center).filter Slot.visible).map Slot.id
  centerRect := b.centerRect

/-- The components that picking up hides. -/
def hiddenBySync (b : Border) (children : List Slot) : List ComponentId :=
  Edge.all.filterMap fun e => newlyHidden children (b.get e) e.region

theorem get_sync (b : Border) (children : List Slot) (e : Edge) :
    (b.sync children).get e = regionAt children (b.get e) e.region := by
  cases e <;> rfl

theorem sync_get_component {b : Border} {children : List Slot} {e : Edge} {r : Region}
    (h : (b.sync children).get e = some r) : r.component ∈ children.map Slot.id := by
  rw [get_sync] at h
  unfold regionAt at h
  rcases hs : holder children e.region with _ | s
  · rw [hs] at h
    have := (Option.filter_eq_some_iff.1 h).2
    simpa using this
  · have hmem : s.id ∈ children.map Slot.id :=
      List.mem_map_of_mem (List.mem_of_find?_eq_some hs)
    rw [hs] at h
    rcases hk : b.get e with _ | known
    · rw [hk] at h
      cases h
      exact hmem
    · rw [hk] at h
      simp only at h
      split at h
      · next heq => cases h; rw [heq]; exact hmem
      · cases h; exact hmem

/-! ## Strips -/

/-- A strip cut off an area: the region's rectangle, the bar between it and the rest, and the
rest. -/
structure Strip where
  rect : Rect
  bar : Rect
  rest : Rect
  deriving DecidableEq, Repr

/-- Cut a strip for a region of the given thickness off `area`. -/
def carve (area : Rect) (e : Edge) (thickness : Int) (margins : Sides) (split : Int) :
    Checked Strip := do
  let thickness := max thickness 0
  match e with
  | .north =>
    let used ← Length.add (← Length.add thickness (← margins.vertical)) split
    let width := max (← Length.sub area.width (← margins.horizontal)) 0
    let restHeight := max (← Length.sub area.height used) 0
    let rect :=
      ⟨← Length.add area.x margins.left, ← Length.add area.y margins.top, width, thickness⟩
    let bar := ⟨area.x, ← Length.add (← rect.bottom) margins.bottom, area.width, split⟩
    return ⟨rect, bar, ⟨area.x, ← Length.add area.y used, area.width, restHeight⟩⟩
  | .south =>
    let used ← Length.add (← Length.add thickness (← margins.vertical)) split
    let width := max (← Length.sub area.width (← margins.horizontal)) 0
    let restHeight := max (← Length.sub area.height used) 0
    let y ← Length.sub (← Length.sub (← area.bottom) margins.bottom) thickness
    let rect := ⟨← Length.add area.x margins.left, y, width, thickness⟩
    let bar := ⟨area.x, ← Length.sub (← Length.sub y margins.top) split, area.width, split⟩
    return ⟨rect, bar, ⟨area.x, area.y, area.width, restHeight⟩⟩
  | .west =>
    let used ← Length.add (← Length.add thickness (← margins.horizontal)) split
    let height := max (← Length.sub area.height (← margins.vertical)) 0
    let restWidth := max (← Length.sub area.width used) 0
    let rect :=
      ⟨← Length.add area.x margins.left, ← Length.add area.y margins.top, thickness, height⟩
    let bar := ⟨← Length.add (← rect.right) margins.right, area.y, split, area.height⟩
    return ⟨rect, bar, ⟨← Length.add area.x used, area.y, restWidth, area.height⟩⟩
  | .east =>
    let used ← Length.add (← Length.add thickness (← margins.horizontal)) split
    let height := max (← Length.sub area.height (← margins.vertical)) 0
    let restWidth := max (← Length.sub area.width used) 0
    let x ← Length.sub (← Length.sub (← area.right) margins.right) thickness
    let rect := ⟨x, ← Length.add area.y margins.top, thickness, height⟩
    let bar := ⟨← Length.sub (← Length.sub x margins.left) split, area.y, split, area.height⟩
    return ⟨rect, bar, ⟨area.x, area.y, restWidth, area.height⟩⟩

/-- Where a floating region is drawn: beside its placeholder, toward the center. -/
def floatBeside (placeholder : Rect) (e : Edge) (thickness : Int) : Checked Rect := do
  let p := placeholder
  match e with
  | .north => return ⟨p.x, ← p.bottom, p.width, thickness⟩
  | .south => return ⟨p.x, ← Length.sub p.y thickness, p.width, thickness⟩
  | .west => return ⟨← p.right, p.y, thickness, p.height⟩
  | .east => return ⟨← Length.sub p.x thickness, p.y, thickness, p.height⟩

/-! ## Placing regions -/

def standardCollapsedSize : Int := 25

def standardSplitSize : Int := 5

/-- The thickness of a region: the one set by its splitter, else the natural one. -/
def thickness (e : Edge) (r : Region) (m : Member) : Int :=
  r.size.getD (if e.region.isHorizontalBand then m.natural.height else m.natural.width)

/-- The thickness of a region's splitter; 0 without one. -/
def splitSize (c : ItemConfig) : Int :=
  if c.split then max (c.splitSize.getD standardSplitSize) 0 else 0

/-- The margins of a region that is not expanded. -/
def collapsedMargins (e : Edge) (c : ItemConfig) : Noted Sides :=
  match c.cmargins with
  | some s => s.sides
  | none => pure e.region.collapsedMargins

/-- A region that has been laid out: its new geometry, the component's rectangle if it is shown,
and the area that is left. -/
structure Laid where
  region : Region
  placement : Option Placement
  rest : Rect
  deriving DecidableEq, Repr

/-- Lay out the region at an edge. An expanded region whose component is hidden takes no space. -/
def layRegion (layout : LayoutConfig) (area : Rect) (e : Edge) (r : Region) (m : Member)
    (hidden : Bool) : Draft Laid := do
  let bare := { r with rect := none, placeholder := none, splitter := none }
  match r.state with
  | .expanded =>
    if hidden then return ⟨bare, none, area⟩
    let margins ← (m.margins layout : Noted Sides)
    let split := splitSize m.config
    let strip ← carve area e (thickness e r m) margins split
    let region :=
      { bare with rect := some strip.rect, splitter := if 0 < split then some strip.bar else none }
    return ⟨region, some ⟨r.component, strip.rect⟩, strip.rest⟩
  | .collapsed =>
    let margins ← (collapsedMargins e m.config : Noted Sides)
    let strip ← carve area e (m.config.collapsedSize.getD standardCollapsedSize) margins 0
    return ⟨{ bare with placeholder := some strip.rect }, none, strip.rest⟩
  | .floating =>
    let margins ← (collapsedMargins e m.config : Noted Sides)
    let strip ← carve area e (m.config.collapsedSize.getD standardCollapsedSize) margins 0
    let overlay ← floatBeside strip.rect e (thickness e r m)
    return ⟨{ bare with placeholder := some strip.rect, rect := some overlay },
      some ⟨r.component, overlay⟩, strip.rest⟩

/-- Lay out the regions at `edges` in turn, and give the area that is left to the center. -/
def layAll (layout : LayoutConfig) (members : ComponentId → Checked (Member × Bool)) :
    List Edge → Border → (area : Rect) → Draft (Border × List Placement × Rect)
  | [], b, area => pure (b, [], area)
  | e :: rest, b, area => do
    match b.get e with
    | none => layAll layout members rest b area
    | some r =>
      let (m, hidden) ← members r.component
      let laid ← layRegion layout area e r m hidden
      let (b, placements, area) ←
        layAll layout members rest (b.set e (some laid.region)) laid.rest
      return (b, laid.placement.toList ++ placements, area)

/-- Lay out all regions and the center inside `content`. -/
def place (layout : LayoutConfig) (members : ComponentId → Checked (Member × Bool)) (b : Border)
    (center : ComponentId) (content : Rect) : Draft (Border × List Placement) := do
  let (b, placements, area) ← layAll layout members Edge.all b content
  let (m, _) ← members center
  let margins ← (m.margins layout : Noted Sides)
  let rect ← area.inset margins
  return ({ b with centerRect := some rect }, placements ++ [⟨center, rect⟩])

end Border

namespace Step

/-- The children of a border container as far as regions are concerned. -/
def slots (container : ComponentId) : Step (List Border.Slot) := do
  let t ← tree
  (t.children container).mapM fun id => do
    let c ← check (t.get id)
    return ⟨id, c.config.region, c.config.collapsed, !c.state.hidden⟩

/-- Pick up the regions of a border container. -/
def syncBorder (container : ComponentId) (b : Border) : Step Border := do
  let children ← slots container
  draft (⟨(), Border.notices [] children⟩ : Noted Unit)
  modifyTree fun t => (b.hiddenBySync children).foldl (fun t id => t.setHidden id true) t
  let synced := b.sync children
  keep container (.border synced)
  return synced

/-- Lay out a border container. -/
def arrangeBorder (layout : LayoutConfig) (container : ComponentId) (b : Border) :
    Step Unit := do
  let b ← syncBorder container b
  match b.center with
  | none => throw (.missingCenterRegion container)
  | some center =>
    let content ← contentBox layout container
    let s ← get
    let members (id : ComponentId) : Checked (Member × Bool) := do
      let c ← s.tree.get id
      return (⟨id, c.config, s.host.measure id c.config⟩, c.state.hidden)
    let (b, placements) ← draft (b.place layout members center content)
    keep container (.border b)
    apply placements

end Step

end Trellis
