import Trellis.Proofs.Box.Evenness

/-!
# Every child keeps to its own bounds

However short or roomy a line is, and however it aligns its children, each child gets a size that
its own bounds admit: at least the lower bound, and at most the upper one unless the two conflict.
Nothing is asked of the weights, of the space or of the lengths, except that no upper bound is
negative: where there is no lower bound, a child that shares leftover space may be left with
nothing, and one that is stretched stops at zero.

* `admits_mains`: the main lengths, from one lemma for each way in which they are found
  (`admits_narrowMain`, `admits_tightMains`, `admits_roomyMains`).
* `admits_alignCross`: the cross lengths, under all alignments.
* `solve_within_bounds`: both for a whole line.
-/
namespace Trellis.Box

variable {ω : Type}

/-! ## Requests -/

namespace Request

/-- No upper bound of the request is negative. -/
structure CapsNonneg (r : Request ω) : Prop where
  width : ∀ hi ∈ r.widthBounds.greatest?, 0 ≤ hi
  height : ∀ hi ∈ r.heightBounds.greatest?, 0 ≤ hi

instance (r : Request ω) : Decidable r.CapsNonneg :=
  decidable_of_iff ((∀ hi ∈ r.widthBounds.greatest?, 0 ≤ hi) ∧
      ∀ hi ∈ r.heightBounds.greatest?, 0 ≤ hi)
    ⟨fun ⟨w, h⟩ => ⟨w, h⟩, fun ⟨w, h⟩ => ⟨w, h⟩⟩

/-- The size is within the bounds of the request on both axes. -/
structure Admits (r : Request ω) (s : Size) : Prop where
  width : r.widthBounds.Admits s.width
  height : r.heightBounds.Admits s.height

variable {r : Request ω}

theorem CapsNonneg.mainBounds (h : r.CapsNonneg) (a : Axis) :
    ∀ hi ∈ (r.mainBounds a).greatest?, 0 ≤ hi := by
  cases a
  · exact h.width
  · exact h.height

theorem CapsNonneg.crossBounds (h : r.CapsNonneg) (a : Axis) :
    ∀ hi ∈ (r.crossBounds a).greatest?, 0 ≤ hi := by
  cases a
  · exact h.height
  · exact h.width

theorem admits_rect {a : Axis} {main cross : Int} (hmain : (r.mainBounds a).Admits main)
    (hcross : (r.crossBounds a).Admits cross) (mainPos crossPos : Int) :
    r.Admits (a.rect mainPos crossPos main cross).size := by
  cases a
  · exact ⟨hmain, hcross⟩
  · exact ⟨hcross, hmain⟩

theorem admits_resolvedMain (r : Request ω) (a : Axis) :
    (r.mainBounds a).Admits (r.resolvedMain a) :=
  Bounds.admits_constrain _ _

theorem admits_narrowMain (r : Request ω) (a : Axis) :
    (r.mainBounds a).Admits (r.narrowMain a) := by
  unfold narrowMain
  cases hleast : (r.mainBounds a).least? with
  | none => exact admits_resolvedMain r a
  | some lo => exact Bounds.admits_least hleast

/-- A child with a length of its own may be shortened as far as its floor. -/
theorem admits_of_le_resolvedMain [Weight ω] {a : Axis} {n : Int} (hfloor : r.floorMain a ≤ n)
    (hle : n ≤ r.resolvedMain a) : (r.mainBounds a).Admits n := by
  refine (admits_resolvedMain r a).of_le hle fun lo hlo => ?_
  rwa [floorMain, hlo] at hfloor

end Request

/-! ## Main lengths -/

section

variable [Weight ω] {a : Axis} {innerMain short : Int} {boxes : List (Request ω)} {s : Summary}
  {lengths : List Int}

theorem admits_tightMains (hcaps : ∀ r ∈ boxes, r.CapsNonneg)
    (h : tightMains a short boxes = .ok lengths) :
    ∀ e ∈ lengths.zip boxes, (e.2.mainBounds a).Admits e.1 := by
  intro e he
  have hway := giveWay_tightMains h
  cases hflexed : e.2.isFlexed a with
  | true =>
    rw [hway.flexed e he hflexed, Request.floorMain_of_isFlexed hflexed]
    exact Bounds.admits_floor ((hcaps e.2 (List.of_mem_zip he).2).mainBounds a)
  | false =>
    obtain ⟨hfloor, hle⟩ := hway.fixed e he hflexed
    exact Request.admits_of_le_resolvedMain hfloor hle

theorem admits_roomyMains (h : roomyMains a innerMain s boxes = .ok lengths) :
    ∀ e ∈ lengths.zip boxes, (e.2.mainBounds a).Admits e.1 := by
  intro e he
  obtain ⟨shares, hshares, hlengths⟩ := exists_shares h
  obtain ⟨hshare, hown⟩ := hlengths e he
  cases hflexed : e.2.isFlexed a with
  | true =>
    obtain ⟨i, hmem⟩ := hshare hflexed
    exact hshares.admits hmem
  | false =>
    rw [hown hflexed]
    exact Request.admits_resolvedMain e.2 a

/-- Whichever way the main lengths are found, they are within the bounds of their children. -/
theorem admits_mains (hcaps : ∀ r ∈ boxes, r.CapsNonneg)
    (h : mains a innerMain s boxes = .ok lengths) :
    ∀ e ∈ lengths.zip boxes, (e.2.mainBounds a).Admits e.1 := by
  unfold mains at h
  split at h
  · cases h
    intro e he
    rw [← List.map_prod_right_eq_zip] at he
    obtain ⟨r, -, rfl⟩ := List.mem_map.1 he
    exact Request.admits_narrowMain r a
  · split at h
    · exact admits_tightMains hcaps h
    · exact admits_roomyMains h

end

/-! ## Cross lengths -/

variable {space : Space} {innerCross maxCross offset : Int}

theorem admits_alignCross {crossPos cross : Int} {r : Request ω} (hcaps : r.CapsNonneg)
    (h : alignCross space innerCross maxCross r = .ok (crossPos, cross)) :
    (r.crossBounds space.axis).Admits cross := by
  rcases cross_of_alignCross h with rfl | ⟨n, rfl⟩
  · exact Bounds.admits_constrain _ _
  · exact Bounds.admits_grounded (hcaps.crossBounds space.axis) n

/-- Children that are placed with main lengths within their bounds get sizes within their bounds. -/
theorem admits_place {items : List (Int × Request ω)} {rects : List Rect}
    (hcaps : ∀ item ∈ items, item.2.CapsNonneg)
    (hmains : ∀ item ∈ items, (item.2.mainBounds space.axis).Admits item.1)
    (h : place space innerCross maxCross offset items = .ok rects) :
    List.Forall₂ (fun item rect => item.2.Admits rect.size) items rects := by
  obtain ⟨hlength, hplaced⟩ := List.forall₂_iff_zip.1 (placed_of_place h)
  refine List.forall₂_iff_zip.2 ⟨hlength, fun hmem => ?_⟩
  have hitem := (List.of_mem_zip hmem).1
  obtain ⟨_, _, _, halign, rfl⟩ := hplaced hmem
  exact Request.admits_rect (hmains _ hitem) (admits_alignCross (hcaps _ hitem) halign) _ _

/-! ## Lines -/

variable [Weight ω] {boxes : List (Request ω)} {solution : Solution}

/-- A line that is laid out has one rectangle for each child, and its size is within the bounds of
that child on both axes. -/
theorem solve_within_bounds (hcaps : ∀ r ∈ boxes, r.CapsNonneg)
    (h : solve boxes space = .ok solution) :
    List.Forall₂ (fun r rect => r.Admits rect.size) boxes solution.rects := by
  by_cases hne : boxes = []
  · subst hne
    cases h
    exact .nil
  · obtain ⟨_, _, lengths, _, _, -, -, -, hlengths, -, -, hrects⟩ := solve_eq_ok hne h
    have hlength := length_mains hlengths
    have hboxes : (lengths.zip boxes).map Prod.snd = boxes := List.map_snd_zip (by omega)
    have hplaced := admits_place (fun item hitem => hcaps _ (List.of_mem_zip hitem).2)
      (admits_mains hcaps hlengths) hrects
    have hall : List.Forall₂ (fun r rect => r.Admits rect.size)
        ((lengths.zip boxes).map Prod.snd) solution.rects := List.forall₂_map_left_iff.2 hplaced
    rwa [hboxes] at hall

/-- Three children that share leftover space, one with at least 30 pixels, one with at most 10 and
one whose bounds conflict, and one of 20 by 40 that is cut down to 15 by 30. -/
def conflictedLine : List (Request Nat) :=
  [⟨none, none, ⟨5, 5⟩, ⟨some 30, none⟩, ⟨none, some 8⟩, 1, ⟨0, 2, 0, 1⟩⟩,
    ⟨none, none, ⟨5, 5⟩, ⟨none, some 10⟩, ⟨some 24, none⟩, 3, .zero⟩,
    ⟨none, none, ⟨5, 5⟩, ⟨some 12, some 10⟩, ⟨some 9, some 7⟩, 2, .zero⟩,
    ⟨some 20, some 40, ⟨5, 5⟩, ⟨none, some 15⟩, ⟨none, some 30⟩, 0, .zero⟩]

/-- Stretched to the tallest, which has 30 pixels, the first child stops at its upper bound; the
third has its lower bounds on both axes. -/
theorem conflictedLine_within_bounds :
    ∃ solution, solve conflictedLine ⟨.horizontal, ⟨100, 20⟩, .start, .stretchMax, ⟨0, 0, 0, 5⟩⟩ =
        .ok solution ∧
      (∀ r ∈ conflictedLine, r.CapsNonneg) ∧
      List.Forall₂ (fun r rect => r.Admits rect.size) conflictedLine solution.rects :=
  have h : solve conflictedLine ⟨.horizontal, ⟨100, 20⟩, .start, .stretchMax, ⟨0, 0, 0, 5⟩⟩ =
      .ok ⟨[⟨6, 0, 55, 8⟩, ⟨63, 0, 10, 30⟩, ⟨73, 0, 12, 9⟩, ⟨85, 0, 15, 30⟩],
        ⟨30, 15, 3, 60, 60, -35, false⟩⟩ := by
    decide +kernel
  ⟨_, h, by decide, solve_within_bounds (by decide) h⟩

end Trellis.Box
