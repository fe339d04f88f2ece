import Trellis.Box.Overflow
import Trellis.Proofs.Totals

/-!
# Horizontal and vertical lines are mirror images

Transposition swaps widths with heights, left with top, right with bottom and the two axes. Nothing
that happens to a line tells one axis from the other: each step reads the requests through their
main and cross lengths, and those are the same for a request and for its transpose.

* `summarize_transpose`, `mains_transpose`, `place_transpose`: the totals and the main lengths of a
  line are those of its transpose, and its rectangles are transposed.
* `menu_excess_transpose`, `takeUntilFreed_transpose`: what a menu computes does not see the axis.
* `solve_and_handlers_transpose`: a transposed line is solved with transposed rectangles, it
  overflows exactly when the line does, and handlers react to both in the same way.
-/
namespace Trellis.Box

variable {ω : Type}

namespace Request

@[simp] theorem margins_transpose (r : Request ω) : r.transpose.margins = r.margins.transpose := rfl

@[simp] theorem flex_transpose (r : Request ω) : r.transpose.flex = r.flex := rfl

@[simp] theorem narrowMain_transpose (r : Request ω) (a : Axis) :
    r.transpose.narrowMain a.transpose = r.narrowMain a := by
  simp only [narrowMain, mainBounds_transpose, resolvedMain_transpose]

@[simp] theorem desiredMain_transpose [Weight ω] (r : Request ω) (a : Axis) :
    r.transpose.desiredMain a.transpose = r.desiredMain a := by
  simp only [desiredMain, isFlexed_transpose, mainBounds_transpose, resolvedMain_transpose]

end Request

/-! ## Totals -/

section

variable [Weight ω] (a : Axis) (boxes : List (Request ω))

theorem filter_flexed_transpose :
    (boxes.map Request.transpose).filter (fun r => r.isFlexed a.transpose) =
      (boxes.filter fun r => r.isFlexed a).map Request.transpose := by
  rw [List.filter_map]
  exact congrArg _ (List.filter_congr fun r _ => r.isFlexed_transpose a)

theorem filter_fixed_transpose :
    (boxes.map Request.transpose).filter (fun r => !r.isFlexed a.transpose) =
      (boxes.filter fun r => !r.isFlexed a).map Request.transpose := by
  rw [List.filter_map]
  exact congrArg _ (List.filter_congr fun r _ => congrArg (!·) (r.isFlexed_transpose a))

theorem summarize_transpose (innerMain : Int) :
    summarize a.transpose innerMain (boxes.map Request.transpose) =
      summarize a innerMain boxes := by
  have hcross : maxCross a.transpose (boxes.map Request.transpose) = maxCross a boxes := by
    simp only [maxCross, List.foldlM_map, Request.resolvedCross_transpose,
      Request.margins_transpose, Axis.crossSides_transpose]
  have hnonFlex : nonFlexMain a.transpose (boxes.map Request.transpose) = nonFlexMain a boxes := by
    simp only [nonFlexMain, filter_fixed_transpose, Length.total_map,
      Request.resolvedMain_transpose, Request.margins_transpose, Axis.mainSides_transpose]
  have hflex : flexMargins a.transpose (boxes.map Request.transpose) = flexMargins a boxes := by
    simp only [flexMargins, filter_flexed_transpose, Length.total_map,
      Request.margins_transpose, Axis.mainSides_transpose]
  simp only [summarize, hcross, hnonFlex, hflex, Length.total_map, Request.margins_transpose,
    Axis.mainSides_transpose, Request.desiredMain_transpose, Request.outerFloor_transpose]

/-! ## Main lengths -/

omit [Weight ω] in
theorem zipIdx_transpose :
    (boxes.map Request.transpose).zipIdx = boxes.zipIdx.map fun e => (e.1.transpose, e.2) := by
  rw [List.zipIdx_map]
  rfl

theorem shrinkables_transpose :
    shrinkables a.transpose (boxes.map Request.transpose) = shrinkables a boxes := by
  rw [shrinkables, shrinkables, zipIdx_transpose, List.filter_map, List.map_map]
  simp only [Function.comp_def, Request.isFlexed_transpose, Request.resolvedMain_transpose,
    Request.floorMain_transpose]

theorem claims_transpose : claims a.transpose (boxes.map Request.transpose) = claims a boxes := by
  rw [claims, claims, zipIdx_transpose, List.filter_map, List.map_map]
  simp only [Function.comp_def, Request.isFlexed_transpose, Request.mainBounds_transpose,
    Request.flex_transpose]

theorem totalWeight_transpose :
    totalWeight a.transpose (boxes.map Request.transpose) = totalWeight a boxes := by
  simp only [totalWeight, filter_flexed_transpose, List.foldl_map, Request.flex_transpose]

theorem tightMains_transpose (shortfall : Int) :
    tightMains a.transpose shortfall (boxes.map Request.transpose) =
      tightMains a shortfall boxes := by
  simp only [tightMains, shrinkables_transpose, zipIdx_transpose, List.map_map, Function.comp_def,
    Request.isFlexed_transpose, Request.floorMain_transpose, Request.resolvedMain_transpose]

theorem roomyMains_transpose (innerMain : Int) (s : Summary) :
    roomyMains a.transpose innerMain s (boxes.map Request.transpose) =
      roomyMains a innerMain s boxes := by
  simp only [roomyMains, totalWeight_transpose, claims_transpose, zipIdx_transpose, List.map_map,
    Function.comp_def, Request.isFlexed_transpose, Request.resolvedMain_transpose]

theorem mains_transpose (innerMain : Int) (s : Summary) :
    mains a.transpose innerMain s (boxes.map Request.transpose) = mains a innerMain s boxes := by
  simp only [mains, tightMains_transpose, roomyMains_transpose, List.map_map, Function.comp_def,
    Request.narrowMain_transpose]

end

/-! ## Rectangles -/

theorem zip_transpose (mains : List Int) (boxes : List (Request ω)) :
    mains.zip (boxes.map Request.transpose) =
      (mains.zip boxes).map fun e => (e.1, e.2.transpose) := by
  rw [List.zip_map_right]
  rfl

theorem used_transpose (a : Axis) (boxes : List (Request ω)) (mains : List Int) :
    used a.transpose (boxes.map Request.transpose) mains = used a boxes mains := by
  simp only [used, zip_transpose, Length.total_map, Request.margins_transpose,
    Axis.mainSides_transpose]

theorem alignCross_transpose (space : Space) (innerCross maxCross : Int) (r : Request ω) :
    alignCross space.transpose innerCross maxCross r.transpose =
      alignCross space innerCross maxCross r := by
  simp only [alignCross, Space.transpose, Request.margins_transpose, Axis.crossSides_transpose,
    Axis.crossStart_transpose, Request.crossBounds_transpose, Request.resolvedCross_transpose]

theorem place_transpose (space : Space) (innerCross maxCross offset : Int)
    (items : List (Int × Request ω)) :
    place space.transpose innerCross maxCross offset
        (items.map fun e => (e.1, e.2.transpose)) =
      List.map Rect.transpose <$> place space innerCross maxCross offset items := by
  induction items generalizing offset with
  | nil => rfl
  | cons item rest ih =>
    obtain ⟨main, r⟩ := item
    have haxis : space.transpose.axis = space.axis.transpose := rfl
    simp only [List.map_cons, place, alignCross_transpose, haxis, Request.margins_transpose,
      Axis.mainStart_transpose, Axis.mainEnd_transpose, Axis.rect_transpose, ih]
    simp only [map_bind, bind_map_left, map_pure, List.map_cons]

/-! ## Handlers -/

section

variable [Weight ω]

omit [Weight ω] in
theorem members_transpose (l : Line ω) :
    l.transpose.members = l.members.map fun e => (e.1, e.2.transpose) := by
  simp only [Line.members, Line.transpose, List.zip_map_right]
  rfl

omit [Weight ω] in
theorem menu_excess_transpose (m : Menu) (l : Line ω) : m.excess l.transpose = m.excess l := by
  simp only [Menu.excess, Line.minimumMain, Line.transpose, Solution.transpose,
    Space.innerMain_transpose]

theorem takeUntilFreed_transpose (a : Axis) (delta freed : Int)
    (members : List (ComponentId × Request ω)) :
    Menu.takeUntilFreed a.transpose delta freed (members.map fun e => (e.1, e.2.transpose)) =
      Menu.takeUntilFreed a delta freed members := by
  induction members generalizing freed with
  | nil => rfl
  | cons member rest ih =>
    obtain ⟨id, r⟩ := member
    simp only [List.map_cons, Menu.takeUntilFreed, Request.outerFloor_transpose, ih]

theorem hideTrailing_transpose (m : Menu) (l : Line ω) (delta : Int) :
    m.hideTrailing l.transpose delta = m.hideTrailing l delta := by
  have haxis : l.transpose.space.axis = l.space.axis.transpose := rfl
  simp only [Menu.hideTrailing, members_transpose, ← List.map_reverse, haxis,
    takeUntilFreed_transpose]

theorem menu_handle_transpose (m : Menu) (l : Line ω) : m.handle l.transpose = m.handle l := by
  simp only [Menu.handle, menu_excess_transpose, hideTrailing_transpose]

theorem menu_clear_transpose (m : Menu) (l : Line ω) : m.clear l.transpose = m.clear l := by
  have hinner : l.transpose.space.innerMain = l.space.innerMain := l.space.innerMain_transpose
  have hminimum : l.transpose.minimumMain = l.minimumMain := rfl
  simp only [Menu.clear, menu_excess_transpose, hideTrailing_transpose, hinner, hminimum]

omit [Weight ω] in
theorem scroll_handle_transpose (s : Scroll) (l : Line ω) :
    s.handle l.transpose = s.handle l := by
  have hinner : l.transpose.space.innerMain = l.space.innerMain := l.space.innerMain_transpose
  have hminimum : l.transpose.minimumMain = l.minimumMain := rfl
  simp only [Scroll.handle, hinner, hminimum]

theorem solve_transpose (boxes : List (Request ω)) (space : Space) :
    solve (boxes.map Request.transpose) space.transpose =
      Solution.transpose <$> solve boxes space := by
  have haxis : space.transpose.axis = space.axis.transpose := rfl
  have hpadding : space.transpose.padding = space.padding.transpose := rfl
  have hpack : space.transpose.pack = space.pack := rfl
  unfold solve
  rw [List.isEmpty_map]
  split
  · rfl
  · simp only [haxis, hpadding, hpack, Space.innerMain_transpose, Space.innerCross_transpose,
      summarize_transpose, mains_transpose, used_transpose, Axis.mainStart_transpose,
      zip_transpose, place_transpose]
    simp only [map_bind, bind_map_left, map_pure, Solution.transpose]

theorem line_solve_transpose (items : List ComponentId) (boxes : List (Request ω)) (space : Space) :
    Line.solve items (boxes.map Request.transpose) space.transpose =
      Line.transpose <$> Line.solve items boxes space := by
  simp only [Line.solve, solve_transpose, map_bind, bind_map_left, map_pure, Line.transpose]

/-- A line and its transpose are laid out as mirror images of each other, with the same totals, so
one of them overflows exactly when the other does; where lengths leave their range, they do so for
both. A menu and a scroller in any state react to a line and to its transpose with the same outcome
and the same next state. -/
theorem solve_and_handlers_transpose (boxes : List (Request ω)) (space : Space) :
    solve (boxes.map Request.transpose) space.transpose =
      Solution.transpose <$> solve boxes space ∧
    (∀ items, Line.solve items (boxes.map Request.transpose) space.transpose =
      Line.transpose <$> Line.solve items boxes space) ∧
    ∀ (l : Line ω) (h : Handler),
      l.transpose.isTooNarrow = l.isTooNarrow ∧
      h.handle l.transpose = h.handle l ∧ h.clear l.transpose = h.clear l := by
  refine ⟨solve_transpose boxes space, fun items => line_solve_transpose items boxes space,
    fun l h => ⟨rfl, ?_⟩⟩
  cases h with
  | menu m =>
    simp only [Handler.handle, Handler.clear, menu_handle_transpose, menu_clear_transpose,
      and_self]
  | scroll s => simp only [Handler.handle, Handler.clear, scroll_handle_transpose, and_self]

end

end Trellis.Box
