import Trellis.Length

/-!
# Cells in a grid

Cells are placed in source order. Each takes the next free slot in row-major order, skipping slots
that earlier cells reach down into, and a row that is full continues in the next one. A column span
is cut at the last column and at a slot that is taken; spans are never an error.

The tracks of a grid, its columns or rows, are as long as their cells need: a cell of one track
makes the track at least as long as itself, and what a spanning cell still lacks is spread evenly
over its tracks, earlier tracks taking the remainder.

* `length_placeCells`: every cell is placed.
* `length_growTracks`: growing keeps the number of tracks.
-/
namespace Trellis.Grid

/-- The most columns, and the longest span, that are honoured. -/
def maxSpan : Nat := 1000

/-- The spans that a cell asks for. -/
structure Span where
  rows : Nat
  columns : Nat
  deriving DecidableEq, Repr

/-- Where a cell stands: its first row and column, and its spans. -/
structure Cell where
  row : Nat
  column : Nat
  rowspan : Nat
  colspan : Nat
  deriving DecidableEq, Repr

namespace Cell

def endRow (c : Cell) : Nat := c.row + c.rowspan

def endColumn (c : Cell) : Nat := c.column + c.colspan

/-- Whether the cell takes slots of the row. -/
def reaches (c : Cell) (row : Nat) : Bool := c.row ≤ row && row < c.endRow

/-- Whether the cell takes the slot. -/
def covers (c : Cell) (row column : Nat) : Bool :=
  c.reaches row && c.column ≤ column && column < c.endColumn

end Cell

/-- `n` within bounds, for `least ≤ most`. -/
def clamp (least most n : Nat) : Nat := max least (min n most)

-- the zero of the core library, also next to modules that bring another one
attribute [local instance (high)] Zero.ofOfNat0

/-- The number of columns of a grid; without a setting every cell can go into the first row. -/
def columnCount (spans : List Span) (columns : Option Nat) : Nat :=
  let inOneRow := (spans.map fun s => clamp 1 maxSpan s.columns).sum
  clamp 1 maxSpan ((columns.filter fun n => 0 < n).getD inOneRow)

/-- Whether one of `cells` takes the slot. -/
def isTaken (cells : List Cell) (row column : Nat) : Bool := cells.any (·.covers row column)

/-- The slot after a cell in a row that it reaches, counted in row-major order. -/
def slotAfter (columns row : Nat) (c : Cell) : Nat := row * columns + c.endColumn

/-- The first slot, counted in row-major order from `slot`, that is free; at most `n` cells are
passed on the way. -/
def nextFree (columns : Nat) (cells : List Cell) : (n slot : Nat) → Nat
  | 0, slot => slot
  | n + 1, slot =>
    match cells.find? fun c => c.covers (slot / columns) (slot % columns) with
    | some c => nextFree columns cells n (slotAfter columns (slot / columns) c)
    | none => slot

/-- How many slots of a row are free from `column` on, of at most `n`. -/
def freeRun (cells : List Cell) (row : Nat) : (n column : Nat) → Nat
  | 0, _ => 0
  | n + 1, column => if isTaken cells row column then 0 else freeRun cells row n (column + 1) + 1

/-- The first row below all of `cells`. -/
def bottomRow (cells : List Cell) : Nat := (cells.map Cell.endRow).max?.getD 0

/-- The place of the next cell, when slots before `slot` are passed. -/
def placeCell (columns maxRows : Nat) (placed : List Cell) (slot : Nat) (s : Span) : Cell :=
  let free := nextFree columns placed (bottomRow placed * columns - slot) slot
  let row := free / columns
  let column := free % columns
  { row, column
    rowspan := clamp 1 maxRows s.rows
    colspan := freeRun (placed.filter fun c => c.reaches row) row
      (min (max s.columns 1) (columns - column)) column }

/-- Place cells after those that are `placed` already. -/
def placeFrom (columns maxRows : Nat) : (placed : List Cell) → (slot : Nat) → List Span → List Cell
  | placed, _, [] => placed
  | placed, slot, s :: rest =>
    let cell := placeCell columns maxRows placed slot s
    placeFrom columns maxRows (placed ++ [cell]) (slotAfter columns cell.row cell) rest

/-- The places of cells with these spans. -/
def placeCells (spans : List Span) (columns : Option Nat) : List Cell :=
  placeFrom (columnCount spans columns) (clamp 1 maxSpan spans.length) [] 0 spans

/-! ## Tracks -/

/-- Give every track its part of `excess`, the first `remainder` of them one more. -/
def addEvenly (share remainder : Int) (tracks : List Int) : Checked (List Int) :=
  tracks.zipIdx.mapM fun (track, i) => do
    Length.add track (← Length.add share (if (i : Int) < remainder then 1 else 0))

/-- Grow the `span` tracks from `start` on, those of them that there are, until together they hold
`needed`. -/
def growTracks (tracks : List Int) (start span : Nat) (needed : Int) : Checked (List Int) := do
  let before := tracks.take start
  let within := (tracks.drop start).take span
  let after := (tracks.drop start).drop span
  let count := (within.length : Int)
  if count = 0 then return tracks
  let current ← Length.total (fun track => .ok track) within
  let excess ← Length.sub needed current
  if excess ≤ 0 then return tracks
  let grown ← addEvenly (excess.tdiv count) (excess.tmod count) within
  return before ++ grown ++ after

/-- What a cell needs of the tracks it spans. -/
structure Demand where
  start : Nat
  span : Nat
  needed : Int
  deriving DecidableEq, Repr

/-- The lengths of `count` tracks that meet every demand, those for a single track first. -/
def fitTracks (count : Nat) (demands : List Demand) : Checked (List Int) :=
  let ordered := demands.filter (fun d => d.span == 1) ++ demands.filter (fun d => d.span != 1)
  ordered.foldlM (fun tracks d => growTracks tracks d.start d.span d.needed)
    (List.replicate count 0)

/-- Where the track at `index` begins, for tracks that begin at `origin`. -/
def trackStart (origin : Int) (tracks : List Int) (index : Nat) : Checked Int := do
  Length.add origin (← Length.total (fun track => .ok track) (tracks.take index))

theorem length_placeFrom (columns maxRows : Nat) (placed : List Cell) (slot : Nat)
    (spans : List Span) :
    (placeFrom columns maxRows placed slot spans).length = placed.length + spans.length := by
  induction spans generalizing placed slot with
  | nil => rfl
  | cons s rest ih =>
    simp only [placeFrom, ih, List.length_append, List.length_cons, List.length_nil]
    omega

theorem length_placeCells (spans : List Span) (columns : Option Nat) :
    (placeCells spans columns).length = spans.length := by
  simp [placeCells, length_placeFrom]

theorem length_growTracks {tracks grown : List Int} {start span : Nat} {needed : Int}
    (h : growTracks tracks start span needed = .ok grown) : grown.length = tracks.length := by
  unfold growTracks at h
  simp only at h
  split at h
  · cases h; rfl
  · obtain ⟨current, -, h⟩ := Length.bind_eq_ok.1 h
    obtain ⟨excess, -, h⟩ := Length.bind_eq_ok.1 h
    split at h
    · cases h; rfl
    · obtain ⟨within, hw, h⟩ := Length.bind_eq_ok.1 h
      cases h
      have := Length.length_of_mapM_eq_ok hw
      simp only [List.length_zipIdx, List.length_take, List.length_drop] at this
      simp only [List.length_append, List.length_take, List.length_drop, this]
      omega

end Trellis.Grid
