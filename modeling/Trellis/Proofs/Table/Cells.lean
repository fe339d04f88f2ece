import Mathlib.Algebra.Order.Group.Nat
import Trellis.Grid

/-!
# No two cells of a grid share a slot

Cells are placed at ever later slots. A later cell starts at a free slot and ends before the next
taken one in its first row; an earlier cell that reaches a lower row of the later one also reaches
its first row, so it is enough that the later cell is free of it there.

* `nextFree_free`: the slot found is free, and not before the slot the search starts at.
* `Settled`: what is true of the cells placed so far, and of the slot after them.
* `settled_placeCell`: placing one more cell keeps it true.
* `sized_placeCells`, `apart_placeCells`: the cells of a grid span at least one row and one column,
  and are apart.
-/
namespace Trellis.Grid

/-- The cell takes at least one slot and ends within the columns. -/
structure Cell.Sized (columns : Nat) (c : Cell) : Prop where
  rowspan : 0 < c.rowspan
  colspan : 0 < c.colspan
  endColumn : c.endColumn ≤ columns

/-- No slot is taken by both cells. -/
def Cell.Apart (c d : Cell) : Prop :=
  ∀ row column, ¬ (c.covers row column = true ∧ d.covers row column = true)

theorem Cell.Apart.symm {c d : Cell} (h : c.Apart d) : d.Apart c :=
  fun row column hboth => h row column hboth.symm

theorem Cell.reaches_iff {c : Cell} {row : Nat} :
    c.reaches row = true ↔ c.row ≤ row ∧ row < c.endRow := by
  simp [Cell.reaches]

theorem Cell.covers_iff {c : Cell} {row column : Nat} :
    c.covers row column = true ↔
      (c.row ≤ row ∧ row < c.endRow) ∧ c.column ≤ column ∧ column < c.endColumn := by
  simp [Cell.covers, Cell.reaches, and_assoc]

/-- Cells that are apart have all their columns, or all their rows, on one side of each other. -/
theorem Cell.Apart.beside {columns : Nat} {c d : Cell} (h : c.Apart d) (hc : c.Sized columns)
    (hd : d.Sized columns) :
    (c.endColumn ≤ d.column ∨ d.endColumn ≤ c.column) ∨
      (c.endRow ≤ d.row ∨ d.endRow ≤ c.row) := by
  have hcr := hc.rowspan
  have hcc := hc.colspan
  have hdr := hd.rowspan
  have hdc := hd.colspan
  have hcorner := h (max c.row d.row) (max c.column d.column)
  simp only [Cell.covers_iff, Cell.endRow, Cell.endColumn] at hcorner ⊢
  omega

/-! ## Free slots -/

theorem isTaken_iff {cells : List Cell} {row column : Nat} :
    isTaken cells row column = true ↔ ∃ c ∈ cells, c.covers row column = true :=
  List.any_eq_true

theorem endRow_le_bottomRow {cells : List Cell} {c : Cell} (hc : c ∈ cells) :
    c.endRow ≤ bottomRow cells := by
  have hmem : c.endRow ∈ cells.map Cell.endRow := List.mem_map_of_mem hc
  unfold bottomRow
  cases hmax : (cells.map Cell.endRow).max? with
  | none =>
    rw [List.max?_eq_none_iff.1 hmax] at hmem
    cases hmem
  | some most => exact (List.max?_eq_some_iff.1 hmax).2 _ hmem

/-- The search for a free slot ends at one, not before the slot it starts at: below all cells at
the latest, where every slot is free. -/
theorem nextFree_free {columns : Nat} {cells : List Cell} (hcolumns : 0 < columns) {n slot : Nat}
    (hn : bottomRow cells * columns ≤ slot + n) :
    slot ≤ nextFree columns cells n slot ∧
      isTaken cells (nextFree columns cells n slot / columns)
        (nextFree columns cells n slot % columns) = false := by
  induction n generalizing slot with
  | zero =>
    refine ⟨Nat.le_refl _, ?_⟩
    rw [Bool.eq_false_iff, ne_eq, isTaken_iff]
    rintro ⟨c, hc, hcovers⟩
    have hbelow : bottomRow cells ≤ slot / columns := (Nat.le_div_iff_mul_le hcolumns).2 hn
    have hend := endRow_le_bottomRow hc
    have hrow := (Cell.covers_iff.1 hcovers).1.2
    simp only [nextFree] at hrow
    omega
  | succ n ih =>
    unfold nextFree
    cases hfind : cells.find? fun c => c.covers (slot / columns) (slot % columns) with
    | some c =>
      have hcovers := List.find?_some hfind
      have hbefore := (Cell.covers_iff.1 hcovers).2.2
      have hslot := Nat.div_add_mod slot columns
      have hlater : slot + 1 ≤ slotAfter columns (slot / columns) c := by
        rw [slotAfter, Nat.mul_comm]
        omega
      obtain ⟨hle, hfree⟩ := @ih (slotAfter columns (slot / columns) c) (by omega)
      exact ⟨Nat.le_trans (show slot ≤ slotAfter columns (slot / columns) c by omega) hle, hfree⟩
    | none =>
      refine ⟨Nat.le_refl _, ?_⟩
      rw [Bool.eq_false_iff, ne_eq, isTaken_iff]
      rintro ⟨c, hc, hcovers⟩
      exact List.find?_eq_none.1 hfind c hc hcovers

theorem freeRun_le (cells : List Cell) (row n column : Nat) : freeRun cells row n column ≤ n := by
  induction n generalizing column with
  | zero => exact Nat.le_refl 0
  | succ n ih =>
    unfold freeRun
    split
    · exact Nat.zero_le _
    · exact Nat.succ_le_succ (ih _)

theorem isTaken_of_lt_freeRun {cells : List Cell} {row n column k : Nat} (hk : column ≤ k)
    (hlt : k < column + freeRun cells row n column) : isTaken cells row k = false := by
  induction n generalizing column with
  | zero =>
    simp only [freeRun] at hlt
    omega
  | succ n ih =>
    unfold freeRun at hlt
    split at hlt
    · omega
    · next hfree =>
      by_cases heq : k = column
      · subst heq
        exact Bool.eq_false_iff.2 hfree
      · exact ih (show column + 1 ≤ k by omega) (by omega)

theorem freeRun_pos {cells : List Cell} {row n column : Nat}
    (hfree : isTaken cells row column = false) (hn : 0 < n) :
    0 < freeRun cells row n column := by
  obtain ⟨m, rfl⟩ := Nat.exists_eq_succ_of_ne_zero (Nat.ne_of_gt hn)
  rw [freeRun, if_neg (by simp [hfree])]
  exact Nat.succ_pos _

/-! ## Placement -/

/-- What is true of the cells that are placed, with `slot` the one after the last of them. -/
structure Settled (columns : Nat) (placed : List Cell) (slot : Nat) : Prop where
  sized : ∀ c ∈ placed, c.Sized columns
  before : ∀ c ∈ placed, slotAfter columns c.row c ≤ slot
  apart : placed.Pairwise Cell.Apart

theorem settled_nil (columns slot : Nat) : Settled columns [] slot where
  sized := by simp
  before := by simp
  apart := .nil

theorem one_le_clamp (most n : Nat) : 0 < clamp 1 most n := by
  unfold clamp
  omega

section

variable {columns maxRows slot : Nat} {placed : List Cell}

/-- The next cell starts at a free slot, after the cells that are placed. -/
theorem placeCell_start (hcolumns : 0 < columns) (s : Span) :
    ∃ free, slot ≤ free ∧ (placeCell columns maxRows placed slot s).row = free / columns ∧
      (placeCell columns maxRows placed slot s).column = free % columns ∧
      isTaken placed (free / columns) (free % columns) = false := by
  obtain ⟨hle, hfree⟩ := @nextFree_free columns placed hcolumns
    (bottomRow placed * columns - slot) slot (by omega)
  exact ⟨_, hle, rfl, rfl, hfree⟩

/-- In its first row the next cell takes free slots only. -/
theorem placeCell_free (s : Span) {c : Cell} (hc : c ∈ placed) {k : Nat}
    (hcovers : (placeCell columns maxRows placed slot s).covers
      (placeCell columns maxRows placed slot s).row k = true) :
    ¬ c.covers (placeCell columns maxRows placed slot s).row k = true := by
  intro hc'
  obtain ⟨-, hle, hlt⟩ := Cell.covers_iff.1 hcovers
  have hreaches := Cell.reaches_iff.2 (Cell.covers_iff.1 hc').1
  have hfree := isTaken_of_lt_freeRun hle hlt
  rw [Bool.eq_false_iff, ne_eq, isTaken_iff] at hfree
  exact hfree ⟨c, List.mem_filter.2 ⟨hc, hreaches⟩, hc'⟩

theorem placeCell_sized (hcolumns : 0 < columns) (s : Span) :
    (placeCell columns maxRows placed slot s).Sized columns := by
  obtain ⟨free, -, hrow, hcolumn, hfree⟩ := @placeCell_start columns maxRows slot placed hcolumns s
  have hlt : free % columns < columns := Nat.mod_lt _ hcolumns
  refine ⟨one_le_clamp _ _, ?_, ?_⟩
  · have hstart : isTaken (placed.filter fun c => c.reaches (free / columns)) (free / columns)
        (free % columns) = false := by
      rw [Bool.eq_false_iff, ne_eq, isTaken_iff] at hfree ⊢
      exact fun ⟨c, hc, hcovers⟩ => hfree ⟨c, (List.mem_filter.1 hc).1, hcovers⟩
    rw [← hrow, ← hcolumn] at hstart
    refine freeRun_pos hstart ?_
    show 0 < min (max s.columns 1) (columns - (placeCell columns maxRows placed slot s).column)
    omega
  · have hrun := freeRun_le (placed.filter fun c =>
      c.reaches (placeCell columns maxRows placed slot s).row)
      (placeCell columns maxRows placed slot s).row
      (min (max s.columns 1) (columns - (placeCell columns maxRows placed slot s).column))
      (placeCell columns maxRows placed slot s).column
    show (placeCell columns maxRows placed slot s).column + _ ≤ columns
    have : (placeCell columns maxRows placed slot s).colspan ≤
      (columns - (placeCell columns maxRows placed slot s).column) := Nat.le_trans hrun (by omega)
    omega

/-- Placing one more cell leaves the cells settled. -/
theorem settled_placeCell (hcolumns : 0 < columns) (hplaced : Settled columns placed slot)
    (s : Span) :
    Settled columns (placed ++ [placeCell columns maxRows placed slot s])
      (slotAfter columns (placeCell columns maxRows placed slot s).row
        (placeCell columns maxRows placed slot s)) := by
  obtain ⟨free, hle, hrow, hcolumn, -⟩ := @placeCell_start columns maxRows slot placed hcolumns s
  have hsized := @placeCell_sized columns maxRows slot placed hcolumns s
  have hfree := fun c hc k => @placeCell_free columns maxRows slot placed s c hc k
  generalize placeCell columns maxRows placed slot s = next at *
  have hslot : next.row * columns + next.column = free := by
    rw [hrow, hcolumn, Nat.div_add_mod']
  refine ⟨?_, ?_, ?_⟩
  · simp only [List.mem_append, List.mem_singleton]
    rintro c (hc | rfl)
    · exact hplaced.sized c hc
    · exact hsized
  · simp only [List.mem_append, List.mem_singleton]
    rintro c (hc | rfl)
    · have hbefore := hplaced.before c hc
      simp only [slotAfter, Cell.endColumn] at hbefore ⊢
      omega
    · exact Nat.le_refl _
  · refine List.pairwise_append.2 ⟨hplaced.apart, List.pairwise_singleton _ _, ?_⟩
    simp only [List.mem_singleton, forall_eq]
    rintro c hc row column ⟨hcovers, hnext⟩
    obtain ⟨⟨hcrow, hcend⟩, hccolumn⟩ := Cell.covers_iff.1 hcovers
    obtain ⟨⟨hnrow, hnend⟩, hncolumn⟩ := Cell.covers_iff.1 hnext
    -- the earlier cell starts no lower, so it reaches the first row of the later one
    have habove : c.row ≤ next.row := by
      have hbefore := hplaced.before c hc
      have hlt : c.row * columns < (next.row + 1) * columns := by
        have hend := hsized.endColumn
        have hccolspan := (hplaced.sized c hc).colspan
        have hcolspan := hsized.colspan
        simp only [slotAfter, Cell.endColumn] at hbefore hend
        rw [Nat.add_mul]
        omega
      exact Nat.le_of_lt_succ (Nat.lt_of_mul_lt_mul_right hlt)
    have hfirst : next.covers next.row column = true :=
      Cell.covers_iff.2 ⟨⟨Nat.le_refl _, Nat.lt_add_of_pos_right hsized.rowspan⟩, hncolumn⟩
    exact hfree c hc column hfirst
      (Cell.covers_iff.2 ⟨⟨habove, by omega⟩, hccolumn⟩)

theorem settled_placeFrom (hcolumns : 0 < columns) (hplaced : Settled columns placed slot)
    (spans : List Span) :
    ∃ last, Settled columns (placeFrom columns maxRows placed slot spans) last := by
  induction spans generalizing placed slot with
  | nil => exact ⟨slot, hplaced⟩
  | cons s rest ih => exact ih (settled_placeCell hcolumns hplaced s)

end

theorem columnCount_pos (spans : List Span) (columns : Option Nat) :
    0 < columnCount spans columns := one_le_clamp _ _

theorem sized_placeCells (spans : List Span) (columns : Option Nat) :
    ∀ c ∈ placeCells spans columns, c.Sized (columnCount spans columns) :=
  have ⟨_, h⟩ := settled_placeFrom (columnCount_pos spans columns) (settled_nil _ 0) spans
  h.sized

/-- No slot is taken by two cells of a grid. -/
theorem apart_placeCells (spans : List Span) (columns : Option Nat) :
    (placeCells spans columns).Pairwise Cell.Apart :=
  have ⟨_, h⟩ := settled_placeFrom (columnCount_pos spans columns) (settled_nil _ 0) spans
  h.apart

end Trellis.Grid
