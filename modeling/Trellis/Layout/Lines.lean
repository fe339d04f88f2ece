import Trellis.Layout.Member

/-!
# Horizontal and vertical lines

Children stand in a line along one axis (`Box.solve`). A handler, where one is configured, reacts to
a line that does not fit: it hides and shows children or lets the line scroll, the line is laid out
again at most once in the space that the handler leaves, and the host is told when the line begins
or ceases to overflow.

* `shift_rect_size`: moving a rectangle along the axis keeps its size.
-/
namespace Trellis.Lines

/-- The line of a container's visible children when `available` is offered. -/
def line (layout : LayoutConfig) (axis : Axis) (container : ComponentId) (available : Size) :
    Step (Box.Line Float) := do
  let members ← Step.members container
  let requests ←
    Step.draft (members.mapM (Member.request layout) : Noted (List (Box.Request Float)))
  let padding ← Step.draft (Spacing.sidesOrZero layout.padding : Noted Sides)
  Step.check (Box.Line.solve (members.map Member.id) requests
    { axis, available, pack := layout.pack, align := layout.align, padding })

/-- `rect` moved along the axis. -/
def shift (axis : Axis) (distance : Int) (rect : Rect) : Checked Rect :=
  match axis with
  | .horizontal => do return { rect with x := ← Length.add rect.x distance }
  | .vertical => do return { rect with y := ← Length.add rect.y distance }

/-- The rectangles of the children of a line that is moved along its axis. -/
def place (offset : Int) (l : Box.Line Float) : Checked (List Placement) :=
  (l.items.zip l.solution.rects).mapM fun (id, rect) => do
    return ⟨id, ← shift l.space.axis offset rect⟩

/-- Hide and show what a handler asks for. -/
def reveal (o : Box.Outcome) (t : Tree) : Tree :=
  o.reveal.foldl (fun t id => t.setHidden id false)
    (o.hide.foldl (fun t id => t.setHidden id true) t)

/-- The size that is left of `target` beside what a handler keeps free. -/
def remaining (axis : Axis) (target : Size) (r : Box.Reserved) : Checked Size := do
  return axis.size (max (← Length.sub (axis.main target) (← r.total)) 0) (axis.cross target)

/-- Lay out the visible children of a container. -/
def arrange (layout : LayoutConfig) (container : ComponentId) (l : Linear) : Step Unit := do
  let target ← Step.targetSize container
  let first ← line layout l.axis container target
  match l.overflow with
  | none => Step.apply (← Step.check (place 0 first))
  | some handler =>
    let known := handler.retain ((← Step.tree).children container)
    let (next, outcome) ← Step.check (known.react first)
    Step.keep container (.linear { l with overflow := some next })
    Step.modifyTree (reveal outcome)
    let reserved := next.reserved
    let final ←
      if outcome.recalculate || reserved ≠ .none then
        line layout l.axis container (← Step.check (remaining l.axis target reserved))
      else pure first
    let offset ← Step.check (Length.sub reserved.leading next.offset)
    if next.isOverflowing ≠ handler.isOverflowing then
      let _ ← Step.notify container (.overflowChange next.isOverflowing)
    Step.apply (← Step.check (place offset final))

theorem shift_rect_size {axis : Axis} {d : Int} {rect moved : Rect}
    (h : shift axis d rect = .ok moved) : moved.size = rect.size := by
  cases axis <;>
  · obtain ⟨_, -, h⟩ := Length.bind_eq_ok.1 h
    cases h
    rfl

end Trellis.Lines
