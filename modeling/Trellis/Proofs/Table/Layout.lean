import Mathlib.Data.List.Pairwise
import Trellis.Layout.Table
import Trellis.Proofs.Geometry
import Trellis.Proofs.Steps
import Trellis.Proofs.Table.Cells
import Trellis.Proofs.Table.Tracks
import Trellis.Proofs.Trees

/-!
# Tables on screen

Cells that are apart in the grid are apart on screen: a child with its margins stays inside the
tracks of its cell, and the tracks of one cell end before those of another begin.

* `cellBox`: the tracks of a cell, as a rectangle.
* `within_place`: the margin box of a child lies inside the tracks of its cell.
* `apart_cellBox`: the tracks of cells that are apart share no point.
* `arrange_keeps_cells_apart`: both for a pass over a table.
-/
namespace Trellis

/-- The rectangle of a component in a layout, grown by its margins. -/
def Component.marginBox (c : Component) (layout : LayoutConfig) : Rect :=
  c.state.rect.grow (c.config.marginSides layout)

namespace Table

/-- The tracks of a cell: from the tracks before its first to the end of its last, on both axes. -/
def cellBox (content : Rect) (widths heights : List Int) (c : Grid.Cell) : Rect where
  x := content.x + (widths.take c.column).sum
  y := content.y + (heights.take c.row).sum
  width := (widths.take c.endColumn).sum - (widths.take c.column).sum
  height := (heights.take c.endRow).sum - (heights.take c.row).sum

/-- The children of a table in their cells. -/
def placedCells (layout : LayoutConfig) (framed : List Framed) : List Placed :=
  ((Grid.placeCells (framed.map fun f => spanOf f.member) layout.columns).zip framed).map
    fun (cell, f) => ⟨cell, f⟩

variable {content : Rect} {widths heights : List Int}

/-- There are enough tracks for every cell. -/
theorem lt_count {start span : Grid.Cell → Nat} {cells : List Placed} {p : Placed} (hp : p ∈ cells)
    (hspan : 0 < span p.cell) :
    start p.cell < (cells.map fun p => start p.cell + span p.cell).max?.getD 0 := by
  have hmem : start p.cell + span p.cell ∈ cells.map fun p => start p.cell + span p.cell :=
    List.mem_map_of_mem hp
  cases hmax : (cells.map fun p => start p.cell + span p.cell).max? with
  | none =>
    rw [List.max?_eq_none_iff.1 hmax] at hmem
    cases hmem
  | some most =>
    have := (List.max?_eq_some_iff.1 hmax).2 _ hmem
    show start p.cell < most
    omega

/-- Tracks are never negative, and hold what every cell needs. -/
theorem tracks_hold {start span : Grid.Cell → Nat} {outer : Framed → Checked Int}
    {cells : List Placed} {lengths : List Int} (hspan : ∀ p ∈ cells, 0 < span p.cell)
    (h : tracks start span outer cells = .ok lengths) :
    (∀ length ∈ lengths, 0 ≤ length) ∧
      ∀ p ∈ cells, ∃ needed, outer p.framed = .ok needed ∧
        needed ≤ Grid.extent lengths (start p.cell) (span p.cell) := by
  obtain ⟨demands, hdemands, hfit⟩ := Length.bind_eq_ok.1 h
  have hdemand : ∀ {p : Placed} {d : Grid.Demand},
      (outer p.framed >>= fun needed => .ok ⟨start p.cell, span p.cell, needed⟩) = .ok d →
        ∃ needed, outer p.framed = .ok needed ∧ d = ⟨start p.cell, span p.cell, needed⟩ := by
    intro p d hd
    obtain ⟨needed, hneeded, hd⟩ := Length.bind_eq_ok.1 hd
    cases hd
    exact ⟨needed, hneeded, rfl⟩
  have hinside : ∀ d ∈ demands,
      d.start < (cells.map fun p => start p.cell + span p.cell).max?.getD 0 ∧ 0 < d.span := by
    intro d hd
    obtain ⟨p, hp, hd⟩ := Length.exists_of_mem_mapM hdemands hd
    obtain ⟨needed, -, rfl⟩ := hdemand hd
    exact ⟨lt_count hp (hspan p hp), hspan p hp⟩
  obtain ⟨hnonneg, hmet⟩ := Grid.fitTracks_meets hinside hfit
  refine ⟨hnonneg, fun p hp => ?_⟩
  obtain ⟨d, hd, hpd⟩ := Length.exists_mem_of_mapM hdemands hp
  obtain ⟨needed, hneeded, rfl⟩ := hdemand hpd
  exact ⟨needed, hneeded, hmet _ hd⟩

/-- What a cell needs is the length of its child and the margins on both sides. -/
theorem tracks_hold_outer {start span : Grid.Cell → Nat} {size margin : Framed → Int}
    {sides : Framed → Checked Int} {cells : List Placed} {lengths : List Int}
    (hspan : ∀ p ∈ cells, 0 < span p.cell) (hsides : ∀ f n, sides f = .ok n → n = margin f)
    (h : tracks start span (fun f => do Length.add (size f) (← sides f)) cells = .ok lengths) :
    (∀ length ∈ lengths, 0 ≤ length) ∧
      ∀ p ∈ cells, size p.framed + margin p.framed ≤
        Grid.extent lengths (start p.cell) (span p.cell) := by
  obtain ⟨hnonneg, hhold⟩ := tracks_hold hspan h
  refine ⟨hnonneg, fun p hp => ?_⟩
  obtain ⟨needed, hneeded, hle⟩ := hhold p hp
  obtain ⟨both, hboth, hneeded⟩ := Length.bind_eq_ok.1 hneeded
  rwa [(Length.add_eq_ok.1 hneeded).1, hsides _ _ hboth] at hle

/-! ## Cells on screen -/

section

variable {layout : LayoutConfig} {framed : List Framed}

theorem sized_of_mem_placedCells {p : Placed} (hp : p ∈ placedCells layout framed) :
    p.cell.Sized (Grid.columnCount (framed.map fun f => spanOf f.member) layout.columns) := by
  obtain ⟨⟨cell, f⟩, hmem, rfl⟩ := List.mem_map.1 hp
  exact Grid.sized_placeCells _ _ _ (List.of_mem_zip hmem).1

theorem widths_hold {lengths : List Int}
    (h : Table.widths (placedCells layout framed) = .ok lengths) :
    (∀ length ∈ lengths, 0 ≤ length) ∧ ∀ p ∈ placedCells layout framed,
      p.framed.member.natural.width + (p.framed.margins.left + p.framed.margins.right) ≤
        Grid.extent lengths p.cell.column p.cell.colspan :=
  tracks_hold_outer (fun _ hp => (sized_of_mem_placedCells hp).colspan)
    (fun _ _ => Sides.horizontal_eq_ok) h

theorem heights_hold {lengths : List Int}
    (h : Table.heights (placedCells layout framed) = .ok lengths) :
    (∀ length ∈ lengths, 0 ≤ length) ∧ ∀ p ∈ placedCells layout framed,
      p.framed.member.natural.height + (p.framed.margins.top + p.framed.margins.bottom) ≤
        Grid.extent lengths p.cell.row p.cell.rowspan :=
  tracks_hold_outer (fun _ hp => (sized_of_mem_placedCells hp).rowspan)
    (fun _ _ => Sides.vertical_eq_ok) h

/-- A child with its margins stays inside the tracks of its cell. -/
theorem within_place (hwidths : Table.widths (placedCells layout framed) = .ok widths)
    (hheights : Table.heights (placedCells layout framed) = .ok heights) {p : Placed}
    (hp : p ∈ placedCells layout framed) {placement : Placement}
    (h : place content widths heights p = .ok placement) :
    placement.id = p.framed.member.id ∧ placement.rect.size = p.framed.member.natural ∧
      (placement.rect.grow p.framed.margins).Within (cellBox content widths heights p.cell) := by
  simp only [place, Length.bind_eq_ok] at h
  obtain ⟨x, hx, y, hy, left, hleft, top, htop, h⟩ := h
  cases h
  have hx' := Grid.trackStart_eq_ok hx
  have hy' := Grid.trackStart_eq_ok hy
  have hleft' := (Length.add_eq_ok.1 hleft).1
  have htop' := (Length.add_eq_ok.1 htop).1
  have hwidth := (widths_hold hwidths).2 p hp
  have hheight := (heights_hold hheights).2 p hp
  have hcolumns := Grid.sum_take_add_extent widths p.cell.column p.cell.colspan
  have hrows := Grid.sum_take_add_extent heights p.cell.row p.cell.rowspan
  refine ⟨rfl, rfl, ⟨?_, ?_, ?_, ?_⟩⟩ <;>
    simp only [Rect.grow, cellBox, Grid.Cell.endColumn, Grid.Cell.endRow] <;> omega

end

/-- The tracks of cells that are apart share no point. -/
theorem apart_cellBox {columns : Nat} {c d : Grid.Cell} (hwidths : ∀ width ∈ widths, 0 ≤ width)
    (hheights : ∀ height ∈ heights, 0 ≤ height) (hc : c.Sized columns) (hd : d.Sized columns)
    (h : c.Apart d) :
    (cellBox content widths heights c).Apart (cellBox content widths heights d) := by
  rintro x y ⟨hxc, hxd⟩
  simp only [Rect.Covers, cellBox] at hxc hxd
  rcases h.beside hc hd with (hside | hside) | (hside | hside)
  · have := Grid.sum_take_mono hwidths hside
    omega
  · have := Grid.sum_take_mono hwidths hside
    omega
  · have := Grid.sum_take_mono hheights hside
    omega
  · have := Grid.sum_take_mono hheights hside
    omega

/-! ## A pass over a table -/

section

variable {layout : LayoutConfig} {framed : List Framed}

theorem id_place {p : Placed} {placement : Placement}
    (h : place content widths heights p = .ok placement) :
    placement.id = p.framed.member.id := by
  simp only [place, Length.bind_eq_ok] at h
  obtain ⟨_, _, _, _, _, _, _, _, h⟩ := h
  cases h
  rfl

theorem framed_placedCells (layout : LayoutConfig) (framed : List Framed) :
    (placedCells layout framed).map Placed.framed = framed := by
  rw [placedCells, List.map_map]
  refine List.map_snd_zip ?_
  rw [Grid.length_placeCells, List.length_map]

theorem apart_placedCells (layout : LayoutConfig) (framed : List Framed) :
    (placedCells layout framed).Pairwise fun p q => p.cell.Apart q.cell := by
  have hcells : (placedCells layout framed).map Placed.cell =
      Grid.placeCells (framed.map fun f => spanOf f.member) layout.columns := by
    rw [placedCells, List.map_map]
    refine List.map_fst_zip ?_
    rw [Grid.length_placeCells, List.length_map]
  rw [← List.pairwise_map (f := Placed.cell) (R := Grid.Cell.Apart), hcells]
  exact Grid.apart_placeCells _ _

theorem ids_placeAll {columns : Option Nat} {placements : List Placement}
    (h : placeAll content columns framed = .ok placements) :
    placements.map Placement.id = framed.map fun f => f.member.id := by
  obtain ⟨widths, -, h⟩ := Length.bind_eq_ok.1 h
  obtain ⟨heights, -, h⟩ := Length.bind_eq_ok.1 h
  rw [← congrArg (List.map fun f => f.member.id)
    (framed_placedCells { columns } framed), List.map_map]
  refine Length.map_of_mapM (fun p placement hp => ?_) h
  exact id_place hp

theorem arrange_eq_placing (layout : LayoutConfig) (container : ComponentId) :
    arrange layout container =
      Step.placing layout container fun content => placeAll content layout.columns :=
  rfl

/-- A pass over a table is not refused, and after it every visible child has its natural size and
stands, with its margins, inside the tracks of its own cell, so that the margin boxes of two
children never share a point. -/
theorem arrange_keeps_cells_apart {s s' : Scene} {container : ComponentId}
    {r : Except LayoutError Unit} (h : s.run (arrange layout container) = .ok (r, s')) :
    r = .ok () ∧ ∃ content framed widths heights, s.content layout container = .ok content ∧
      s.framed layout container = .ok framed ∧
      Table.widths (placedCells layout framed) = .ok widths ∧
      Table.heights (placedCells layout framed) = .ok heights ∧
      (∀ id ∈ s.tree.visibleChildren container, ∃ c, s'.tree.get? id = some c ∧
        ∃ p ∈ placedCells layout framed, p.framed.member.id = id ∧
          c.state.rect.size = p.framed.member.natural ∧
          (c.marginBox layout).Within (cellBox content widths heights p.cell)) ∧
      ∀ a ∈ s.tree.visibleChildren container, ∀ b ∈ s.tree.visibleChildren container, a ≠ b →
        ∀ c d, s'.tree.get? a = some c → s'.tree.get? b = some d →
          (c.marginBox layout).Apart (d.marginBox layout) := by
  rw [arrange_eq_placing] at h
  obtain ⟨content, framed, placements, hcontent, hframed, hplace, hr, htree, -, -⟩ :=
    Scene.run_placing_eq_ok h
  have hids := (ids_placeAll hplace).trans (Scene.ids_framed hframed)
  obtain ⟨widths, hwidths, hplace⟩ := Length.bind_eq_ok.1 hplace
  obtain ⟨heights, hheights, hplace⟩ := Length.bind_eq_ok.1 hplace
  refine ⟨hr, content, framed, widths, heights, hcontent, hframed, hwidths, hheights, ?_⟩
  have hinside : ∀ id ∈ s.tree.visibleChildren container, ∃ c, s'.tree.get? id = some c ∧
      ∃ p ∈ placedCells layout framed, p.framed.member.id = id ∧
        c.state.rect.size = p.framed.member.natural ∧
        (c.marginBox layout).Within (cellBox content widths heights p.cell) := by
    intro id hid
    obtain ⟨c₀, hc₀⟩ := Tree.exists_of_mem_visibleChildren hid
    obtain ⟨c, hc, hconfig, placement, hplacement, hpid, hrect⟩ :=
      Tree.rect_applyPlacements hc₀ (hids ▸ hid)
    obtain ⟨p, hp, hplaced⟩ := Length.exists_of_mem_mapM hplace hplacement
    obtain ⟨hmember, hsize, hwithin⟩ := within_place hwidths hheights hp hplaced
    have hframe : p.framed ∈ framed := by
      rw [← framed_placedCells layout framed]
      exact List.mem_map_of_mem hp
    obtain ⟨c₁, hc₁, -, hmargins⟩ := Scene.eq_of_mem_framed hframed hframe
    rw [← hmember, hpid, hc₀] at hc₁
    cases hc₁
    refine ⟨c, htree ▸ hc, p, hp, hmember.symm.trans hpid, hrect ▸ hsize, ?_⟩
    rw [Component.marginBox, hrect, hconfig, ← hmargins]
    exact hwithin
  refine ⟨hinside, fun a ha b hb hab c d hc hd => ?_⟩
  obtain ⟨c', hc', p, hp, hpa, -, hcell⟩ := hinside a ha
  obtain ⟨d', hd', q, hq, hqb, -, hdell⟩ := hinside b hb
  rw [hc] at hc'
  rw [hd] at hd'
  cases hc'
  cases hd'
  have hpq : p ≠ q := fun heq => hab (by rw [← hpa, ← hqb, heq])
  have : Std.Symm fun p q : Placed => p.cell.Apart q.cell := ⟨fun _ _ h => h.symm⟩
  have hapart := (apart_placedCells layout framed).forall hp hq hpq
  exact Rect.Within.apart (apart_cellBox (widths_hold hwidths).1 (heights_hold hheights).1
    (sized_of_mem_placedCells hp) (sized_of_mem_placedCells hq) hapart) hcell hdell

/-- A table of two columns whose first child spans two rows and whose last one spans both
columns. -/
def spannedTable : Scene :=
  .ofTree (.ofDescription (.node { layout := some { kind := .table, columns := some 2 } }
    [.node { width := some 30, height := some 25, rowspan := some 2 } [],
      .node { width := some 20, height := some 10 } [],
      .node { width := some 15, height := some 10 } [],
      .node { width := some 60, height := some 10, colspan := some 2 } []])) .standard

/-- The second row of the table begins below 13 pixels: the first child, which spans it too, needs
five pixels more than the children of single rows, and the first row takes three of them. -/
theorem spannedTable_apart :
    ∃ s' c d, spannedTable.run (arrange { kind := .table, columns := some 2 } 0) =
        .ok (.ok (), s') ∧
      s'.tree.get? 1 = some c ∧ s'.tree.get? 4 = some d ∧ c.state.rect = ⟨0, 0, 30, 25⟩ ∧
      d.state.rect = ⟨0, 25, 60, 10⟩ ∧
      (c.marginBox { kind := .table, columns := some 2 }).Apart
        (d.marginBox { kind := .table, columns := some 2 }) := by
  obtain ⟨⟨⟩, s', hrun, hrects⟩ := Scene.run_of_viewAfter
    (show spannedTable.viewAfter (arrange { kind := .table, columns := some 2 } 0) (·.tree.rects) =
      some [⟨0, 0, 0, 0⟩, ⟨0, 0, 30, 25⟩, ⟨35, 0, 20, 10⟩, ⟨35, 13, 15, 10⟩, ⟨0, 25, 60, 10⟩] by
      decide +kernel)
  obtain ⟨c, hc, hcrect⟩ := @Tree.get?_of_rects s'.tree 1 _ (by rw [hrects]; rfl)
  obtain ⟨d, hd, hdrect⟩ := @Tree.get?_of_rects s'.tree 4 _ (by rw [hrects]; rfl)
  obtain ⟨-, _, _, _, _, _, _, _, _, _, hapart⟩ := arrange_keeps_cells_apart hrun
  exact ⟨s', c, d, hrun, hc, hd, hcrect, hdrect,
    hapart 1 (by decide +kernel) 4 (by decide +kernel) (by decide) c d hc hd⟩

end

end Table

end Trellis
