import Trellis.Proofs.Border.Footing
import Trellis.Proofs.Border.Tiling

/-!
# What a thicker region leaves to the center

The center is as long as what the strips at both ends of an axis and its own margins leave of the
content box, and nothing if they take more than that. So a region that becomes thicker takes the
center's length only after it has taken what the strips exceed the content box by.

* `stripDepth_of_layRegion`: what a strip takes does not depend on the area it is cut off.
* `center_length`: what is left to the center.
* `place_resized`: what is left to it when one region has got another thickness.
-/
namespace Trellis

/-- The edge at the other end of the axis. -/
def Edge.opposite : Edge → Edge
  | .north => .south
  | .south => .north
  | .west => .east
  | .east => .west

/-- The sides of a rectangle along an axis, without regard to the range of lengths. -/
def Axis.ends (a : Axis) (m : Sides) : Int := a.mainStart m + a.mainEnd m

theorem Sides.Nonneg.ends {m : Sides} (hm : m.Nonneg) (a : Axis) : 0 ≤ a.ends m := by
  have := hm.top
  have := hm.right
  have := hm.bottom
  have := hm.left
  cases a <;> simp only [Axis.ends, Axis.mainStart, Axis.mainEnd] <;> omega

theorem Axis.main_grow (a : Axis) (r : Rect) (m : Sides) :
    a.main (r.grow m).size = a.main r.size + a.ends m := by
  cases a <;> simp only [main, ends, mainStart, mainEnd, Rect.size, Rect.grow] <;> omega

theorem Axis.main_inset (a : Axis) {area rect : Rect} {m : Sides} (h : area.inset m = .ok rect) :
    a.main rect.size = max (a.main area.size - a.ends m) 0 := by
  simp only [Rect.inset, Sides.horizontal, Sides.vertical, Length.bind_eq_ok, Length.add_eq_ok,
    Length.sub_eq_ok, pure, Except.pure, Except.ok.injEq, and_assoc, exists_eq_left] at h
  obtain ⟨-, -, -, -, -, -, rfl⟩ := h
  cases a <;> rfl

namespace Border

variable {layout : LayoutConfig} {t : Tree} {b b₂ after after₂ : Border} {e f : Edge}
  {area rest : Rect} {r : Region} {m : Member} {hidden : Bool}
  {members : ComponentId → Checked (Member × Bool)}

/-! ## One strip -/

/-- What the strip of a region takes of the area's length. -/
def span (layout : LayoutConfig) (e : Edge) (r : Region) (m : Member) (hidden : Bool) : Int :=
  match r.state with
  | .expanded =>
    if hidden then 0
    else max (thickness e r m) 0 + e.axis.ends (m.config.marginSides layout) + splitSize m.config
  | .collapsed | .floating =>
    max (m.config.collapsedSize.getD standardCollapsedSize) 0 +
      e.axis.ends (collapsedMargins e m.config).value

theorem main_carved (area : Rect) (e : Edge) (thickness : Int) (m : Sides) (split : Int) :
    e.axis.main (carved area e thickness m split).rect.size = max thickness 0 := by
  cases e <;> rfl

theorem depth_carved (area : Rect) (e : Edge) (thickness : Int) (m : Sides) (split : Int) :
    (carved area e thickness m split).depth e m = max thickness 0 + e.axis.ends m + split := by
  rw [Strip.depth, Axis.main_grow, main_carved, main_bar_carved]

theorem span_of_shown (hstate : r.state = .expanded) :
    span layout e r m false =
      max (thickness e r m) 0 + e.axis.ends (m.config.marginSides layout) + splitSize m.config := by
  simp [span, hstate]

theorem span_of_folded (hstate : r.state ≠ .expanded) :
    span layout e r m hidden = max (m.config.collapsedSize.getD standardCollapsedSize) 0 +
      e.axis.ends (collapsedMargins e m.config).value := by
  unfold span
  cases hr : r.state with
  | expanded => exact absurd hr hstate
  | _ => rfl

/-- An expanded region whose component is shown takes its thickness, margins and splitter. -/
theorem layRegion_shown {laid : Laid} (hstate : r.state = .expanded)
    (h : (layRegion layout area e r m false).run.value = .ok laid) :
    ∃ strip, strip = carved area e (thickness e r m) (m.config.marginSides layout)
        (splitSize m.config) ∧
      laid.region.state = .expanded ∧ laid.region.rect = some strip.rect ∧
      laid.region.splitter = if 0 < splitSize m.config then some strip.bar else none := by
  unfold layRegion at h
  simp only [hstate, Bool.false_eq_true, if_false, Draft.value_bind, Draft.value_noted,
    Draft.value_checked, Length.ok_bind] at h
  obtain ⟨strip, hstrip, h⟩ := Length.bind_eq_ok.1 h
  cases h
  exact ⟨strip, carve_eq_ok hstrip, rfl, rfl, rfl⟩

/-- What a strip takes does not depend on the area that it is cut off. -/
theorem stripDepth_of_layRegion {configs : ComponentId → Option ItemConfig} {laid : Laid}
    (h : (layRegion layout area e r m hidden).run.value = .ok laid)
    (hget : b.get e = some laid.region) (hconfig : configs laid.region.component = some m.config) :
    stripDepth layout configs b e = span layout e r m hidden := by
  by_cases hstate : r.state = .expanded
  · cases hidden with
    | true =>
      unfold layRegion at h
      simp only [hstate, if_true] at h
      cases h
      simp [stripDepth, stripPieces, hget, hconfig, Region.body, span, hstate]
    | false =>
      obtain ⟨strip, rfl, hkept, hrect, hsplitter⟩ := layRegion_shown hstate h
      have hbody : laid.region.body = some _ := (if_pos hkept).trans hrect
      have hmargins : bodyMargins layout e laid.region m.config = m.config.marginSides layout :=
        if_pos hkept
      obtain ⟨-, hdepth, -⟩ := @strip_of_cut layout configs b e _ _ _ _ hget hconfig hbody
        (main_bar_carved ..) (splitSize_nonneg m.config) hsplitter
      rw [hdepth, hmargins, span_of_shown hstate, depth_carved]
  · obtain ⟨strip, hstrip, -, hfixture, -⟩ := layRegion_folded hstate h
    obtain rfl := carve_eq_ok hstrip
    simp only [Region.fixture, Prod.mk.injEq] at hfixture
    have hfolded : ¬ laid.region.state = .expanded := by
      rwa [(Region.look_eq_iff.1 (Region.look_of_bare (layRegion_keeps h).1)).2.1]
    have hbody : laid.region.body = some _ := (if_neg hfolded).trans hfixture.1
    have hmargins : bodyMargins layout e laid.region m.config =
        (collapsedMargins e m.config).value := if_neg hfolded
    obtain ⟨-, hdepth, -⟩ := @strip_of_cut layout configs b e _ _ _ _ hget hconfig hbody
      (main_bar_carved ..) (Int.le_refl 0) hfixture.2
    rw [hdepth, hmargins, span_of_folded hstate, depth_carved, Int.add_zero]

/-! ## All strips -/

/-- What is left of a length by two things that take it in turn. -/
theorem EdgeLaid.leaves (h : EdgeLaid layout t b e area rest) {n : Int} (hn : 0 ≤ n) :
    max (e.axis.main rest.size - n) 0 =
        max (e.axis.main area.size - stripDepth layout t.config? b e - n) 0 ∧
      e.axis.cross rest.size = e.axis.cross area.size := by
  rcases h.cases with ⟨hpieces, rfl⟩ | ⟨m, thickness, split, -, -, rfl, -, hdepth, -⟩
  · simp [stripDepth, hpieces]
  · obtain ⟨hmain, hcross⟩ := carved_leaves area e thickness m split
    rw [hdepth, hmain]
    exact ⟨by omega, hcross⟩

/-- What the strips at both ends of an axis and the margins of the center take together. -/
def taken (layout : LayoutConfig) (configs : ComponentId → Option ItemConfig) (b : Border)
    (e : Edge) : Int :=
  stripDepth layout configs b e + stripDepth layout configs b e.opposite +
    e.axis.ends (centerMargins layout configs b)

/-- What they exceed the content box by. -/
def overfill (layout : LayoutConfig) (configs : ComponentId → Option ItemConfig) (b : Border)
    (e : Edge) (content : Rect) : Int :=
  max (taken layout configs b e - e.axis.main content.size) 0

theorem nonneg_centerMargins (layout : LayoutConfig) (configs : ComponentId → Option ItemConfig)
    (b : Border) : (centerMargins layout configs b).Nonneg := by
  unfold centerMargins
  cases b.center.bind configs with
  | none => exact ⟨Int.le_refl 0, Int.le_refl 0, Int.le_refl 0, Int.le_refl 0⟩
  | some c => exact c.nonneg_marginSides layout

/-- The center is as long as what is left to it. -/
theorem Chain.center_length {content rect : Rect} (h : Chain layout t b Edge.all content rest)
    (hinset : rest.inset (centerMargins layout t.config? b) = .ok rect) (e : Edge) :
    e.axis.main rect.size = max (e.axis.main content.size - taken layout t.config? b e) 0 := by
  obtain ⟨a₁, hnorth, a₂, hsouth, a₃, hwest, a₄, heast, rfl⟩ := h
  have hvertical := (nonneg_centerMargins layout t.config? b).ends .vertical
  have hhorizontal := (nonneg_centerMargins layout t.config? b).ends .horizontal
  have hsouthDepth := hsouth.depth_nonneg
  have heastDepth := heast.depth_nonneg
  obtain ⟨hmainN, hcrossN⟩ := hnorth.leaves (Int.add_nonneg hsouthDepth hvertical)
  obtain ⟨hmainS, hcrossS⟩ := hsouth.leaves hvertical
  obtain ⟨hmainW, hcrossW⟩ := hwest.leaves (Int.add_nonneg heastDepth hhorizontal)
  obtain ⟨hmainE, hcrossE⟩ := heast.leaves hhorizontal
  simp only [Edge.axis, Axis.main, Axis.cross, Rect.size] at hmainN hcrossN hmainS hcrossS
  simp only [Edge.axis, Axis.main, Axis.cross, Rect.size] at hmainW hcrossW hmainE hcrossE
  rw [e.axis.main_inset hinset]
  cases e <;> simp only [taken, Edge.opposite, Edge.axis, Axis.main, Rect.size] <;> omega

/-! ## A region with another thickness -/

section

variable {center : ComponentId} {content : Rect} {placements placements₂ : List Placement}
  (hmembers : ∀ id m hidden, members id = .ok (m, hidden) →
    ∃ c, t.get? id = some c ∧ m.config = c.config ∧ hidden = c.state.hidden)

include hmembers

/-- How a region is laid out, and what its strip takes. -/
theorem laid_of_place (hr : b.get e = some r)
    (h : (b.place layout members center content).run.value = .ok (after, placements)) :
    ∃ left m hidden laid, members r.component = .ok (m, hidden) ∧
      (layRegion layout left e r m hidden).run.value = .ok laid ∧
      after.get e = some laid.region ∧
      stripDepth layout t.config? after e = span layout e r m hidden := by
  have hbare := bare_place h e
  obtain ⟨all, others, rest, _, _, rect, hall, -, -, rfl, -⟩ := place_eq_ok h
  rw [hr, Option.map_some, get_centerRect] at hbare
  obtain ⟨q, hq, hsame⟩ := Option.map_eq_some_iff.1 hbare
  obtain ⟨left, r', m, hidden, laid, hr', hm, hlaid, rfl, -⟩ :=
    (layAll_region (by decide) hall).2 e e.mem_all q hq
  obtain rfl := Option.some.inj (hr.symm.trans hr')
  obtain ⟨c, hc, hconfig, -⟩ := hmembers _ _ _ hm
  have hcomponent := (Region.look_eq_iff.1 (Region.look_of_bare (layRegion_keeps hlaid).1)).1
  refine ⟨left, m, hidden, laid, hm, hlaid, by rw [get_centerRect, hq],
    stripDepth_of_layRegion hlaid (by rw [get_centerRect, hq]) ?_⟩
  rw [hcomponent, Tree.config?, hc, Option.map_some, hconfig]

/-- Strips of regions that are as they were take what they took. -/
theorem stripDepth_congr (hget : b₂.get e = b.get e)
    (h : (b.place layout members center content).run.value = .ok (after, placements))
    (h₂ : (b₂.place layout members center content).run.value = .ok (after₂, placements₂)) :
    stripDepth layout t.config? after₂ e = stripDepth layout t.config? after e := by
  cases hr : b.get e with
  | none =>
    have hnone := bare_place h e
    have hnone₂ := bare_place h₂ e
    rw [hget, hr, Option.map_none, Option.map_eq_none_iff] at hnone₂
    rw [hr, Option.map_none, Option.map_eq_none_iff] at hnone
    simp only [stripDepth, stripPieces, hnone, hnone₂]
  | some r =>
    obtain ⟨_, m, hidden, _, hm, -, -, hdepth⟩ := laid_of_place hmembers hr h
    obtain ⟨_, m₂, hidden₂, _, hm₂, -, -, hdepth₂⟩ := laid_of_place hmembers (hget.trans hr) h₂
    rw [hm] at hm₂
    cases hm₂
    rw [hdepth, hdepth₂]

/-- The region at one edge gets another thickness, and everything is laid out again: what the strips
exceeded the content box by goes first. -/
theorem place_resized {size : Int} (hsize : 0 ≤ size) (hr : b.get e = some r)
    (hget : ∀ f, b₂.get f = if f = e then some { r with size := some size } else b.get f)
    (hcenter : b.center = some center) (hcenter₂ : b₂.center = some center)
    (hstate : r.state = .expanded) (hm : members r.component = .ok (m, false))
    (h : (b.place layout members center content).run.value = .ok (after, placements))
    (h₂ : (b₂.place layout members center content).run.value = .ok (after₂, placements₂)) :
    ∃ q body before now, after.get e = some q ∧ q.rect = some body ∧
      e.axis.main body.size = max (thickness e r m) 0 ∧
      after.centerRect = some before ∧ after₂.centerRect = some now ∧
      e.axis.main now.size = max (e.axis.main body.size + e.axis.main before.size -
        overfill layout t.config? after e content - size) 0 := by
  obtain ⟨left, before, hchain, hbare, hinset, hbefore⟩ := chain_of_place hmembers hcenter h
  obtain ⟨left₂, now, hchain₂, hbare₂, hinset₂, hnow⟩ := chain_of_place hmembers hcenter₂ h₂
  obtain ⟨_, m₁, _, laid, hm₁, hlaid, hq, hdepth⟩ := laid_of_place hmembers hr h
  rw [hm] at hm₁
  cases hm₁
  obtain ⟨_, m₂, _, laid₂, hm₂, -, -, hdepth₂⟩ :=
    laid_of_place hmembers ((hget e).trans (if_pos rfl)) h₂
  rw [hm] at hm₂
  cases hm₂
  have hopposite : stripDepth layout t.config? after₂ e.opposite =
      stripDepth layout t.config? after e.opposite :=
    stripDepth_congr hmembers ((hget _).trans (if_neg (by cases e <;> nofun))) h h₂
  have hmargins : centerMargins layout t.config? after₂ = centerMargins layout t.config? after := by
    unfold centerMargins
    rw [center_place h, center_place h₂, hcenter, hcenter₂]
  obtain ⟨strip, rfl, -, hbody, -⟩ := layRegion_shown hstate hlaid
  refine ⟨laid.region, _, before, now, hq, hbody, main_carved .., hbefore, hnow, ?_⟩
  rw [hchain.center_length hinset e, hchain₂.center_length hinset₂ e, main_carved, overfill, taken,
    taken, hopposite, hmargins, hdepth, hdepth₂, span_of_shown hstate,
    span_of_shown (r := { r with size := some size }) hstate]
  simp only [thickness, Option.getD_some]
  omega

end

end Border

end Trellis
