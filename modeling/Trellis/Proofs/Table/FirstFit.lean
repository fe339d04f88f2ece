import Trellis.Proofs.Table.Cells

/-!
# Cells are packed first fit

The scan for the next slot only leaves slots behind that earlier cells take, and a span is only cut
where its row ends or meets an earlier cell. So the grid has no hole that a later cell was kept from
without need.

* `nextFree_passes`: the slots passed in the search for a free one are all taken.
* `freeRun_stops`: a run of free slots that falls short ends at a taken slot.
* `firstFit_placeCell`: one more cell keeps the cells packed.
* `firstFit_placeCells`: the cells of every grid are packed first fit.
-/
namespace Trellis.Grid

/-- The cell starts before the other in row-major order. -/
def Cell.Precedes (c d : Cell) : Prop := c.row < d.row ∨ c.row = d.row ∧ c.column < d.column

/-- The slot a cell starts at, counted in row-major order. -/
def Cell.start (columns : Nat) (c : Cell) : Nat := c.row * columns + c.column

/-- The slot after the first row of the last of `cells`, counted in row-major order. -/
def slotAfterLast (columns : Nat) (cells : List Cell) : Nat :=
  (cells.getLast?.map fun c => slotAfter columns c.row c).getD 0

/-- The cell stands at the first slot it can have after the cells `before` it, and its spans are
those asked for unless the columns or one of these cells cut them. A span of 0 asks for 1. -/
structure Cell.Fits (columns : Nat) (before : List Cell) (s : Span) (c : Cell) : Prop where
  inside : c.column + c.colspan ≤ columns
  rowspan : 1 ≤ c.rowspan ∧ c.rowspan ≤ max s.rows 1
  colspan : 1 ≤ c.colspan ∧ c.colspan ≤ max s.columns 1
  filled : ∀ slot, slotAfterLast columns before ≤ slot → slot < c.start columns →
    isTaken before (slot / columns) (slot % columns) = true
  cut : c.colspan < max s.columns 1 →
    c.column + c.colspan = columns ∨ isTaken before c.row (c.column + c.colspan) = true

/-- Every span has its cell, the cells share no slot, each starts after the one before it, and each
fits after those before it. -/
structure FirstFit (columns : Nat) (spans : List Span) (cells : List Cell) : Prop where
  length : cells.length = spans.length
  apart : cells.Pairwise Cell.Apart
  ordered : cells.Pairwise Cell.Precedes
  fits : ∀ {i : Nat} {s : Span} {c : Cell}, spans[i]? = some s → cells[i]? = some c →
    c.Fits columns (cells.take i) s

theorem slotAfterLast_append (columns : Nat) (cells : List Cell) (c : Cell) :
    slotAfterLast columns (cells ++ [c]) = slotAfter columns c.row c := by
  simp [slotAfterLast]

/-- Within the columns, later slots are later in row-major order. -/
theorem Cell.precedes_of_start_lt {columns : Nat} {c d : Cell}
    (h : c.start columns < d.start columns) (hd : d.column < columns) : c.Precedes d := by
  simp only [Cell.start] at h
  rcases Nat.lt_trichotomy c.row d.row with hlt | heq | hgt
  · exact .inl hlt
  · rw [heq] at h
    exact .inr ⟨heq, by omega⟩
  · have hrows := Nat.mul_le_mul_right columns hgt
    rw [Nat.succ_mul] at hrows
    omega

/-! ## What the scans leave behind -/

/-- Every slot passed in the search for a free one is taken: a jump only goes over slots that the
cell it lands on covers in one row. -/
theorem nextFree_passes {columns : Nat} {cells : List Cell}
    (hsized : ∀ c ∈ cells, c.Sized columns) {n slot k : Nat} (hk : slot ≤ k)
    (hlt : k < nextFree columns cells n slot) :
    isTaken cells (k / columns) (k % columns) = true := by
  induction n generalizing slot with
  | zero =>
    simp only [nextFree] at hlt
    omega
  | succ n ih =>
    unfold nextFree at hlt
    split at hlt
    · next c hfind =>
      by_cases hwithin : k < slotAfter columns (slot / columns) c
      · have hc := List.mem_of_find?_eq_some hfind
        have hcovers := List.find?_some hfind
        obtain ⟨hrows, hfrom, -⟩ := Cell.covers_iff.1 hcovers
        have hend := (hsized c hc).endColumn
        have hslot := Nat.div_add_mod' slot columns
        simp only [slotAfter] at hwithin
        have hrow : k / columns = slot / columns := by
          rw [Nat.div_eq_iff (by omega)]
          omega
        have hcolumn := Nat.div_add_mod' k columns
        rw [hrow] at hcolumn ⊢
        exact isTaken_iff.2 ⟨c, hc, Cell.covers_iff.2 ⟨hrows, by omega, by omega⟩⟩
      · exact ih (Nat.not_lt.1 hwithin) hlt
    · omega

/-- A run of free slots that falls short ends at a taken one. -/
theorem freeRun_stops {cells : List Cell} {row n column : Nat}
    (h : freeRun cells row n column < n) :
    isTaken cells row (column + freeRun cells row n column) = true := by
  induction n generalizing column with
  | zero => omega
  | succ n ih =>
    unfold freeRun at h ⊢
    split at h
    · next htaken => rwa [if_pos htaken]
    · next hfree =>
      rw [if_neg hfree, ← Nat.add_assoc, Nat.add_right_comm]
      exact ih (by omega)

/-! ## Placement -/

section

variable {columns maxRows : Nat} {spans : List Span} {placed : List Cell}

/-- The next cell starts after every cell that is placed. -/
theorem placeCell_follows (hcolumns : 0 < columns) {slot : Nat}
    (hplaced : Settled columns placed slot) (s : Span) {c : Cell} (hc : c ∈ placed) :
    c.Precedes (placeCell columns maxRows placed slot s) := by
  obtain ⟨free, hle, hrow, hcolumn, -⟩ := @placeCell_start columns maxRows slot placed hcolumns s
  have hbefore := hplaced.before c hc
  have hcolspan := (hplaced.sized c hc).colspan
  have hstart : (placeCell columns maxRows placed slot s).start columns = free := by
    rw [Cell.start, hrow, hcolumn, Nat.div_add_mod']
  refine Cell.precedes_of_start_lt ?_ (hcolumn ▸ Nat.mod_lt _ hcolumns)
  rw [hstart]
  simp only [slotAfter, Cell.endColumn, Cell.start] at hbefore ⊢
  omega

/-- The columns that the next cell takes: free slots of its row, as many as it asks for and the row
has left at most. -/
theorem placeCell_colspan (slot : Nat) (s : Span) {c : Cell}
    (hc : placeCell columns maxRows placed slot s = c) :
    c.colspan = freeRun (placed.filter fun d => d.reaches c.row) c.row
      (min (max s.columns 1) (columns - c.column)) c.column := by
  subst hc
  rfl

theorem placeCell_fits (hcolumns : 0 < columns)
    (hplaced : Settled columns placed (slotAfterLast columns placed)) (s : Span) :
    (placeCell columns maxRows placed (slotAfterLast columns placed) s).Fits columns placed s := by
  have hsized := @placeCell_sized columns maxRows (slotAfterLast columns placed) placed hcolumns s
  have hinside := hsized.endColumn
  refine ⟨hinside, ⟨hsized.rowspan, ?_⟩, ⟨hsized.colspan, ?_⟩, ?_, ?_⟩
  · show clamp 1 maxRows s.rows ≤ max s.rows 1
    unfold clamp
    omega
  · rw [placeCell_colspan _ s rfl]
    exact Nat.le_trans (freeRun_le _ _ _ _) (Nat.min_le_left _ _)
  · intro slot hfrom hlt
    refine nextFree_passes hplaced.sized hfrom
      (n := bottomRow placed * columns - slotAfterLast columns placed) (Nat.lt_of_lt_of_eq hlt ?_)
    exact Nat.div_add_mod' _ _
  · generalize hnext : placeCell columns maxRows placed (slotAfterLast columns placed) s = next
      at hinside
    have hcolspan := placeCell_colspan _ s hnext
    intro hshort
    rcases Nat.eq_or_lt_of_le (freeRun_le (placed.filter fun d => d.reaches next.row) next.row
      (min (max s.columns 1) (columns - next.column)) next.column) with hall | hstop
    · -- all the slots that were looked at are free, so the row has no more of them
      simp only [Cell.endColumn] at hinside
      omega
    · obtain ⟨d, hd, hcovers⟩ := isTaken_iff.1 (freeRun_stops hstop)
      rw [← hcolspan] at hcovers
      exact .inr (isTaken_iff.2 ⟨d, (List.mem_filter.1 hd).1, hcovers⟩)

theorem firstFit_nil (columns : Nat) : FirstFit columns [] [] where
  length := rfl
  apart := .nil
  ordered := .nil
  fits := by simp

/-- A cell that fits after cells that are packed leaves all of them packed. -/
theorem FirstFit.snoc {s : Span} {c : Cell} (h : FirstFit columns spans placed)
    (hapart : ∀ d ∈ placed, d.Apart c) (hordered : ∀ d ∈ placed, d.Precedes c)
    (hc : c.Fits columns placed s) : FirstFit columns (spans ++ [s]) (placed ++ [c]) where
  length := by simp [h.length]
  apart := List.pairwise_append.2 ⟨h.apart, List.pairwise_singleton _ _, by simpa using hapart⟩
  ordered := List.pairwise_append.2
    ⟨h.ordered, List.pairwise_singleton _ _, by simpa using hordered⟩
  fits := by
    intro i t d ht hd
    have hlength := h.length
    rcases Nat.lt_trichotomy i placed.length with hlt | heq | hgt
    · rw [List.getElem?_append_left (by omega)] at ht hd
      rw [List.take_append_of_le_length (by omega)]
      exact h.fits ht hd
    · rw [List.getElem?_append_right (by omega)] at ht hd
      rw [heq, List.take_left]
      simp only [heq, hlength, Nat.sub_self, List.getElem?_cons_zero, Option.some.injEq] at ht hd
      rwa [← ht, ← hd]
    · rw [List.getElem?_eq_none (by simp; omega)] at hd
      cases hd

/-- One more cell keeps the cells packed. -/
theorem firstFit_placeCell (hcolumns : 0 < columns) (h : FirstFit columns spans placed)
    (hplaced : Settled columns placed (slotAfterLast columns placed)) (s : Span) :
    FirstFit columns (spans ++ [s])
      (placed ++ [placeCell columns maxRows placed (slotAfterLast columns placed) s]) := by
  have hsettled := @settled_placeCell columns maxRows _ placed hcolumns hplaced s
  refine h.snoc (fun d hd => ?_) (fun d hd => placeCell_follows hcolumns hplaced s hd)
    (placeCell_fits hcolumns hplaced s)
  exact (List.pairwise_append.1 hsettled.apart).2.2 d hd _ (List.mem_singleton_self _)

theorem firstFit_placeFrom (hcolumns : 0 < columns) (h : FirstFit columns spans placed)
    (hplaced : Settled columns placed (slotAfterLast columns placed)) (rest : List Span) :
    FirstFit columns (spans ++ rest)
      (placeFrom columns maxRows placed (slotAfterLast columns placed) rest) := by
  induction rest generalizing spans placed with
  | nil => simpa [placeFrom] using h
  | cons s rest ih =>
    have hnext := @firstFit_placeCell columns maxRows _ _ hcolumns h hplaced s
    have hsettled := @settled_placeCell columns maxRows _ placed hcolumns hplaced s
    rw [← slotAfterLast_append columns placed] at hsettled
    have hrest := ih hnext hsettled
    rwa [List.append_assoc, slotAfterLast_append] at hrest

end

/-- Cells are placed first fit: each within the columns, apart from all others, after the one before
it with no free slot between them, and with the spans asked for up to the last column or the first
slot of its row that an earlier cell takes. -/
theorem firstFit_placeCells (spans : List Span) (columns : Option Nat) :
    FirstFit (columnCount spans columns) spans (placeCells spans columns) :=
  firstFit_placeFrom (columnCount_pos spans columns) (firstFit_nil _) (settled_nil _ _) spans

/-- A cell three columns wide is cut at one that reaches down into its row. -/
example : placeCells [⟨1, 1⟩, ⟨1, 1⟩, ⟨2, 1⟩, ⟨1, 3⟩, ⟨1, 1⟩] (some 3) =
    [⟨0, 0, 1, 1⟩, ⟨0, 1, 1, 1⟩, ⟨0, 2, 2, 1⟩, ⟨1, 0, 1, 2⟩, ⟨2, 0, 1, 1⟩] := by decide

end Trellis.Grid
