import Trellis.Grid
import Trellis.Layout.Member

/-!
# Tables

Children are the cells of a grid, placed by their spans. Every column and row is as long as its
cells need, margins included, and a child keeps its natural size in the corner of its cell.

* `tracks`: the widths of the columns and the heights of the rows.
-/
namespace Trellis.Table

def spanOf (m : Member) : Grid.Span := ⟨m.config.rowspan.getD 1, m.config.colspan.getD 1⟩

/-- A child in its cell. -/
structure Placed where
  cell : Grid.Cell
  framed : Framed

/-- The lengths of the columns, or of the rows, that hold all cells. -/
def tracks (start span : Grid.Cell → Nat) (outer : Framed → Checked Int) (cells : List Placed) :
    Checked (List Int) := do
  let demands ← cells.mapM fun p => do
    return Grid.Demand.mk (start p.cell) (span p.cell) (← outer p.framed)
  let count := (cells.map fun p => start p.cell + span p.cell).max?.getD 0
  Grid.fitTracks count demands

def widths (cells : List Placed) : Checked (List Int) :=
  tracks (·.column) (·.colspan)
    (fun f => do Length.add f.member.natural.width (← f.margins.horizontal)) cells

def heights (cells : List Placed) : Checked (List Int) :=
  tracks (·.row) (·.rowspan)
    (fun f => do Length.add f.member.natural.height (← f.margins.vertical)) cells

/-- The rectangle of a child in its cell. -/
def place (content : Rect) (widths heights : List Int) (p : Placed) : Checked Placement := do
  let x ← Grid.trackStart content.x widths p.cell.column
  let y ← Grid.trackStart content.y heights p.cell.row
  let left ← Length.add x p.framed.margins.left
  let top ← Length.add y p.framed.margins.top
  let size := p.framed.member.natural
  return ⟨p.framed.member.id, ⟨left, top, size.width, size.height⟩⟩

/-- The rectangles of the children of a table inside `content`. -/
def placeAll (content : Rect) (columns : Option Nat) (framed : List Framed) :
    Checked (List Placement) := do
  let cells := Grid.placeCells (framed.map fun f => spanOf f.member) columns
  let placed := (cells.zip framed).map fun (cell, f) => Placed.mk cell f
  let widths ← widths placed
  let heights ← heights placed
  placed.mapM (place content widths heights)

/-- Lay out the visible children of a container. -/
def arrange (layout : LayoutConfig) (container : ComponentId) : Step Unit := do
  let content ← Step.contentBox layout container
  let members ← Step.members container
  let framed ← Step.draft (members.mapM (Member.framed layout) : Noted (List Framed))
  Step.apply (← Step.check (placeAll content layout.columns framed))

end Trellis.Table
