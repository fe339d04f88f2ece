import Trellis.Layout.Accordion
import Trellis.Layout.Columns
import Trellis.Layout.Lines
import Trellis.Layout.Stack
import Trellis.Layout.Table
import Trellis.Proofs.Border.Carving
import Trellis.Proofs.Border.Passes
import Trellis.Proofs.Box.Containment
import Trellis.Proofs.Relayout.Anchors

/-!
# No layout computes a negative size

Settings and measurements that are not negative are all that it takes: margins, paddings, labels,
splitters and what a handler reserves are subtracted from lengths that then stop at zero, and the
bounds of a component apply to lengths that are not negative.

* `ItemConfig.Nonneg`, `Member.Nonneg`: settings and measurements; `Member.nonneg_natural`,
  `Member.nonneg_request`: what a layout makes of them.
* `Box.nonneg_solve`: a line, whether it is too narrow, short or has room to spare.
* `Stack.nonneg_place`, `Columns.nonneg_placeRow`, `Table.nonneg_placeAll`,
  `Anchored.nonneg_placeFrom`, `Border.nonneg_place`: the other layouts.
-/
namespace Trellis

/-! ## Settings and measurements -/

structure Size.Nonneg (s : Size) : Prop where
  width : 0 ≤ s.width
  height : 0 ≤ s.height

instance (s : Size) : Decidable s.Nonneg :=
  decidable_of_iff (0 ≤ s.width ∧ 0 ≤ s.height) ⟨fun ⟨w, h⟩ => ⟨w, h⟩, fun ⟨w, h⟩ => ⟨w, h⟩⟩

theorem Axis.nonneg_size_rect {a : Axis} {mp cp m c : Int} (hm : 0 ≤ m) (hc : 0 ≤ c) :
    (a.rect mp cp m c).size.Nonneg := by
  cases a
  · exact ⟨hm, hc⟩
  · exact ⟨hc, hm⟩

theorem Rect.nonneg_inset {r rect : Rect} {margins : Sides} (h : r.inset margins = .ok rect) :
    rect.size.Nonneg := by
  simp only [inset, Length.bind_eq_ok] at h
  obtain ⟨_, -, _, -, _, -, _, -, _, -, _, -, h⟩ := h
  cases h
  exact ⟨Int.le_max_right .., Int.le_max_right ..⟩

/-- No configured or intrinsic length and no bound of the component is negative. -/
structure ItemConfig.Nonneg (c : ItemConfig) : Prop where
  width : ∀ n ∈ c.width, 0 ≤ n
  height : ∀ n ∈ c.height, 0 ≤ n
  intrinsicWidth : ∀ n ∈ c.intrinsicWidth, 0 ≤ n
  intrinsicHeight : ∀ n ∈ c.intrinsicHeight, 0 ≤ n
  widthBounds : c.widthBounds.Nonneg
  heightBounds : c.heightBounds.Nonneg

instance (c : ItemConfig) : Decidable c.Nonneg :=
  decidable_of_iff ((∀ n ∈ c.width, 0 ≤ n) ∧ (∀ n ∈ c.height, 0 ≤ n) ∧
      (∀ n ∈ c.intrinsicWidth, 0 ≤ n) ∧ (∀ n ∈ c.intrinsicHeight, 0 ≤ n) ∧
      c.widthBounds.Nonneg ∧ c.heightBounds.Nonneg)
    ⟨fun ⟨w, h, iw, ih, wb, hb⟩ => ⟨w, h, iw, ih, wb, hb⟩,
      fun ⟨w, h, iw, ih, wb, hb⟩ => ⟨w, h, iw, ih, wb, hb⟩⟩

theorem getD_nonneg {n : Option Int} {otherwise : Int} (hn : ∀ k ∈ n, 0 ≤ k)
    (hother : 0 ≤ otherwise) : 0 ≤ n.getD otherwise := by
  cases n with
  | none => exact hother
  | some k => exact hn k rfl

/-- The size that settings give the content is not negative. -/
theorem ItemConfig.Nonneg.contentSize {c : ItemConfig} (h : c.Nonneg) : c.contentSize.Nonneg := by
  have hor : ∀ {i n : Option Int}, (∀ k ∈ i, 0 ≤ k) → (∀ k ∈ n, 0 ≤ k) → 0 ≤ (i.or n).getD 0 := by
    intro i n hi hn
    cases i with
    | none => exact getD_nonneg hn (Int.le_refl 0)
    | some k => exact hi k rfl
  exact ⟨hor h.intrinsicWidth h.width, hor h.intrinsicHeight h.height⟩

namespace Member

/-- The child has settings and a measured size that are not negative. -/
structure Nonneg (m : Member) : Prop where
  config : m.config.Nonneg
  measured : m.measured.Nonneg

theorem nonneg_natural {m : Member} (h : m.Nonneg) : m.natural.Nonneg :=
  ⟨Bounds.constrain_nonneg h.config.widthBounds (getD_nonneg h.config.width h.measured.width),
    Bounds.constrain_nonneg h.config.heightBounds (getD_nonneg h.config.height h.measured.height)⟩

theorem nonneg_request {m : Member} (h : m.Nonneg) (layout : LayoutConfig) :
    (m.request layout).value.Nonneg :=
  ⟨h.config.width, h.config.height, h.measured.width, h.measured.height, h.config.widthBounds,
    h.config.heightBounds, m.config.nonneg_marginSides layout⟩

end Member

/-! ## Lines -/

namespace Box

variable {ω : Type}

theorem Request.narrowMain_nonneg {r : Request ω} (h : r.Nonneg) (a : Axis) :
    0 ≤ r.narrowMain a :=
  getD_nonneg (mainBounds_nonneg h a).least (resolvedMain_nonneg h a)

theorem Request.crossBounds_nonneg {r : Request ω} (h : r.Nonneg) (a : Axis) :
    (r.crossBounds a).Nonneg := by
  cases a
  · exact h.heightBounds
  · exact h.widthBounds

theorem Request.resolvedCross_nonneg {r : Request ω} (h : r.Nonneg) (a : Axis) :
    0 ≤ r.resolvedCross a := by
  cases a
  · exact Bounds.constrain_nonneg h.heightBounds (getD_nonneg h.height h.naturalHeight)
  · exact Bounds.constrain_nonneg h.widthBounds (getD_nonneg h.width h.naturalWidth)

theorem alignCross_nonneg {space : Space} {innerCross maxCross crossPos cross : Int}
    {r : Request ω} (hr : r.Nonneg)
    (h : alignCross space innerCross maxCross r = .ok (crossPos, cross)) : 0 ≤ cross := by
  rcases cross_of_alignCross h with rfl | ⟨n, rfl⟩
  · exact Request.resolvedCross_nonneg hr space.axis
  · exact Int.le_trans (Bounds.floor_nonneg (Request.crossBounds_nonneg hr space.axis))
      (Bounds.least_le_constrain rfl n)

theorem nonneg_place {space : Space} {innerCross maxCross offset : Int}
    {items : List (Int × Request ω)} {rects : List Rect}
    (hitems : ∀ item ∈ items, 0 ≤ item.1 ∧ item.2.Nonneg)
    (h : place space innerCross maxCross offset items = .ok rects) :
    ∀ rect ∈ rects, rect.size.Nonneg := by
  replace h := placed_of_place h
  induction h with
  | nil => exact fun _ hrect => nomatch hrect
  | cons hplaced _ ih =>
    obtain ⟨_, _, cross, halign, rfl⟩ := hplaced
    obtain ⟨hmain, hr⟩ := hitems _ (.head _)
    intro rect hrect
    rcases List.mem_cons.1 hrect with rfl | hrect
    · exact Axis.nonneg_size_rect hmain (alignCross_nonneg hr halign)
    · exact ih (fun item hitem => hitems item (List.mem_cons_of_mem _ hitem)) rect hrect

variable [Weight ω]

theorem mains_nonneg {a : Axis} {innerMain : Int} {s : Summary} {boxes : List (Request ω)}
    {lengths : List Int}
    (hshare : ∀ (space : Int) (weight total : ω), 0 ≤ Weight.share space weight total)
    (hboxes : ∀ r ∈ boxes, r.Nonneg) (h : mains a innerMain s boxes = .ok lengths) :
    ∀ n ∈ lengths, 0 ≤ n := by
  unfold mains at h
  split at h
  · cases h
    intro n hn
    obtain ⟨r, hr, rfl⟩ := List.mem_map.1 hn
    exact Request.narrowMain_nonneg (hboxes r hr) a
  · split at h
    · exact tightMains_nonneg hboxes h
    · exact roomyMains_nonneg hshare hboxes h

/-- A line of children gives none of them a negative size. -/
theorem nonneg_solve {boxes : List (Request ω)} {space : Space} {solution : Solution}
    (hshare : ∀ (space : Int) (weight total : ω), 0 ≤ Weight.share space weight total)
    (hboxes : ∀ r ∈ boxes, r.Nonneg) (h : solve boxes space = .ok solution) :
    ∀ rect ∈ solution.rects, rect.size.Nonneg := by
  by_cases hempty : boxes = []
  · subst hempty
    cases h
    exact fun _ hrect => nomatch hrect
  · obtain ⟨innerMain, innerCross, lengths, used, start, -, -, -, hmains, -, -, hplace⟩ :=
      solve_eq_ok hempty h
    refine nonneg_place (fun item hitem => ?_) hplace
    obtain ⟨hlength, hr⟩ := List.of_mem_zip hitem
    exact ⟨mains_nonneg hshare hboxes hmains _ hlength, hboxes _ hr⟩

/-- What a weight stands for in binary64 arithmetic is not negative. -/
theorem share_float_nonneg (space : Int) (weight total : Float) :
    0 ≤ Weight.share space weight total :=
  Int.le_max_right ..

end Box

theorem Lines.nonneg_place {offset : Int} {l : Box.Line Float} {placements : List Placement}
    (hrects : ∀ rect ∈ l.solution.rects, rect.size.Nonneg)
    (h : Lines.place offset l = .ok placements) : ∀ p ∈ placements, p.rect.size.Nonneg := by
  intro p hp
  obtain ⟨⟨id, rect⟩, hmem, hp⟩ := Length.exists_of_mem_mapM h hp
  obtain ⟨moved, hmoved, hp⟩ := Length.bind_eq_ok.1 hp
  cases hp
  rw [Lines.shift_rect_size hmoved]
  exact hrects rect (List.of_mem_zip hmem).2

/-- What the panels of an accordion ask for: the active one any height, the others their header. -/
theorem Accordion.nonneg_panelRequest {m : Member} (h : m.Nonneg) (layout : LayoutConfig)
    (active : Option ComponentId) : (Accordion.panelRequest layout active m).value.Nonneg := by
  have hr := m.nonneg_request h layout
  simp only [Accordion.panelRequest, Noted.value_bind]
  split
  · refine ⟨hr.width, ?_, hr.naturalWidth, Int.le_refl 0, hr.widthBounds, hr.heightBounds,
      hr.margins⟩
    exact fun n hn => nomatch hn
  · refine ⟨hr.width, fun n hn => ?_, hr.naturalWidth, hr.naturalHeight, hr.widthBounds, ?_,
      hr.margins⟩
    · cases hn
      exact Int.le_max_right ..
    · exact (by decide : Bounds.Nonneg ⟨none, none⟩)

/-! ## Natural sizes -/

section

variable {framed : List Framed} {placements : List Placement}

theorem Stack.nonneg_place {left y : Int} (hframed : ∀ f ∈ framed, f.member.Nonneg)
    (h : Stack.place left y framed = .ok placements) : ∀ p ∈ placements, p.rect.size.Nonneg := by
  induction framed generalizing y placements with
  | nil =>
    cases h
    exact fun _ hp => nomatch hp
  | cons f rest ih =>
    simp only [Stack.place, Length.bind_eq_ok] at h
    obtain ⟨_, -, _, -, _, -, _, -, others, hrest, h⟩ := h
    cases h
    intro p hp
    rcases List.mem_cons.1 hp with rfl | hp
    · exact Member.nonneg_natural (hframed f (by simp))
    · exact ih (fun f hf => hframed f (List.mem_cons_of_mem _ hf)) hrest p hp

theorem Columns.nonneg_width {remainder width : Int} {f : Framed} (hf : f.member.Nonneg)
    (h : Columns.width remainder f = .ok width) : 0 ≤ width := by
  unfold Columns.width at h
  split at h
  · cases h
    exact (Member.nonneg_natural hf).width
  · obtain ⟨_, -, h⟩ := Length.bind_eq_ok.1 h
    obtain ⟨_, -, h⟩ := Length.bind_eq_ok.1 h
    cases h
    exact Int.le_max_right ..

theorem Columns.nonneg_place {top remainder x : Int} (hframed : ∀ f ∈ framed, f.member.Nonneg)
    (h : Columns.place top remainder x framed = .ok placements) :
    ∀ p ∈ placements, p.rect.size.Nonneg := by
  induction framed generalizing x placements with
  | nil =>
    cases h
    exact fun _ hp => nomatch hp
  | cons f rest ih =>
    simp only [Columns.place, Length.bind_eq_ok] at h
    obtain ⟨width, hwidth, _, -, _, -, _, -, _, -, others, hrest, h⟩ := h
    cases h
    have hf := hframed f (by simp)
    intro p hp
    rcases List.mem_cons.1 hp with rfl | hp
    · exact ⟨Columns.nonneg_width hf hwidth, (Member.nonneg_natural hf).height⟩
    · exact ih (fun f hf => hframed f (List.mem_cons_of_mem _ hf)) hrest p hp

theorem Columns.nonneg_placeRow {content : Rect} (hframed : ∀ f ∈ framed, f.member.Nonneg)
    (h : Columns.placeRow content framed = .ok placements) :
    ∀ p ∈ placements, p.rect.size.Nonneg := by
  obtain ⟨_, -, h⟩ := Length.bind_eq_ok.1 h
  obtain ⟨_, -, h⟩ := Length.bind_eq_ok.1 h
  exact Columns.nonneg_place hframed h

theorem Table.nonneg_placeAll {content : Rect} {columns : Option Nat}
    (hframed : ∀ f ∈ framed, f.member.Nonneg)
    (h : Table.placeAll content columns framed = .ok placements) :
    ∀ p ∈ placements, p.rect.size.Nonneg := by
  obtain ⟨widths, -, h⟩ := Length.bind_eq_ok.1 h
  obtain ⟨heights, -, h⟩ := Length.bind_eq_ok.1 h
  intro p hp
  obtain ⟨placed, hplaced, hp⟩ := Length.exists_of_mem_mapM h hp
  obtain ⟨⟨cell, f⟩, hf, rfl⟩ := List.mem_map.1 hplaced
  simp only [Table.place, Length.bind_eq_ok] at hp
  obtain ⟨_, -, _, -, _, -, _, -, hp⟩ := hp
  cases hp
  exact Member.nonneg_natural (hframed f (List.of_mem_zip hf).2)

end

/-! ## Anchored children -/

namespace Anchored

theorem length_nonneg {anchored : Option Int} {natural label n : Int} {margins : Checked Int}
    {bounds : Bounds} (h : length anchored natural margins label bounds = .ok n) : 0 ≤ n := by
  unfold length at h
  split at h
  · cases h
    exact Int.le_max_right ..
  · obtain ⟨_, -, h⟩ := Length.bind_eq_ok.1 h
    obtain ⟨_, -, h⟩ := Length.bind_eq_ok.1 h
    obtain ⟨_, -, h⟩ := Length.bind_eq_ok.1 h
    cases h
    exact Int.le_max_right ..

/-- Whatever the anchors give, the field stops at zero. -/
theorem nonneg_placeField {mode : AnchorMode} {layout : LayoutConfig} {content : Rect} {y : Int}
    {f : Framed} {lengths : Option Int × Option Int} {placed : Placed}
    (h : placeField mode layout content y f lengths = .ok placed) : placed.field.size.Nonneg := by
  simp only [placeField, Length.bind_eq_ok] at h
  obtain ⟨_, -, width, hwidth, height, hheight, _, -, _, -, _, -, _, -, _, -, h⟩ := h
  cases h
  exact ⟨length_nonneg hwidth, length_nonneg hheight⟩

theorem nonneg_placeFrom {layout : LayoutConfig} {content : Rect}
    {reference : Option Int × Option Int} {a b : Anchored} {y : Int} {members : List Member}
    {placed : List Placed}
    (h : (placeFrom layout content reference a y members).run.value = .ok (b, placed)) :
    ∀ p ∈ placed, p.field.size.Nonneg := by
  induction members generalizing a y placed with
  | nil =>
    cases h
    exact fun _ hp => nomatch hp
  | cons m rest ih =>
    obtain ⟨pair, p, y', others, -, hp, -, hrest, rfl⟩ := placeFrom_cons_eq_ok h
    intro q hq
    rcases List.mem_cons.1 hq with rfl | hq
    · exact nonneg_placeField hp
    · exact ih hrest q hq

end Anchored

/-! ## Regions -/

namespace Border

/-- No region has a negative thickness set by its splitter. -/
def Nonneg (b : Border) : Prop := ∀ e r, b.get e = some r → ∀ n ∈ r.size, 0 ≤ n

variable {layout : LayoutConfig} {members : ComponentId → Checked (Member × Bool)} {b b' : Border}
  {placements : List Placement}

theorem nonneg_carve {area : Rect} {e : Edge} {thickness split : Int} {margins : Sides}
    {strip : Strip} (h : carve area e thickness margins split = .ok strip) :
    strip.rect.size.Nonneg := by
  rw [carve_eq_ok h]
  cases e <;> exact ⟨Int.le_max_right .., Int.le_max_right ..⟩

theorem nonneg_floatBeside {placeholder overlay : Rect} {e : Edge} {thickness : Int}
    (hplaceholder : placeholder.size.Nonneg) (hthickness : 0 ≤ thickness)
    (h : floatBeside placeholder e thickness = .ok overlay) : overlay.size.Nonneg := by
  obtain ⟨hwidth, hheight⟩ := hplaceholder
  cases e with
  | north | south =>
    obtain ⟨_, -, h⟩ := Length.bind_eq_ok.1 h
    cases h
    exact ⟨hwidth, hthickness⟩
  | west | east =>
    obtain ⟨_, -, h⟩ := Length.bind_eq_ok.1 h
    cases h
    exact ⟨hthickness, hheight⟩

theorem thickness_nonneg {e : Edge} {r : Region} {m : Member} (hr : ∀ n ∈ r.size, 0 ≤ n)
    (hm : m.Nonneg) : 0 ≤ thickness e r m := by
  have hnatural := Member.nonneg_natural hm
  refine getD_nonneg hr ?_
  split
  · exact hnatural.height
  · exact hnatural.width

theorem nonneg_layRegion {area : Rect} {e : Edge} {r : Region} {m : Member} {hidden : Bool}
    {laid : Laid} (hr : ∀ n ∈ r.size, 0 ≤ n) (hm : m.Nonneg)
    (h : (layRegion layout area e r m hidden).run.value = .ok laid) :
    ∀ p ∈ laid.placement, p.rect.size.Nonneg := by
  unfold layRegion at h
  cases hstate : r.state with
  | expanded =>
    simp only [hstate] at h
    split at h
    · cases h
      exact fun _ hp => nomatch hp
    · simp only [Draft.value_bind, Draft.value_noted, Draft.value_checked, Length.ok_bind] at h
      obtain ⟨strip, hstrip, h⟩ := Length.bind_eq_ok.1 h
      cases h
      intro p hp
      cases hp
      exact nonneg_carve hstrip
  | collapsed =>
    simp only [hstate, Draft.value_bind, Draft.value_noted, Draft.value_checked,
      Length.ok_bind] at h
    obtain ⟨strip, -, h⟩ := Length.bind_eq_ok.1 h
    cases h
    exact fun _ hp => nomatch hp
  | floating =>
    simp only [hstate, Draft.value_bind, Draft.value_noted, Draft.value_checked,
      Length.ok_bind] at h
    obtain ⟨strip, hstrip, h⟩ := Length.bind_eq_ok.1 h
    obtain ⟨overlay, hoverlay, h⟩ := Length.bind_eq_ok.1 h
    cases h
    intro p hp
    cases hp
    exact nonneg_floatBeside (nonneg_carve hstrip) (thickness_nonneg hr hm) hoverlay

/-- Laying regions out changes none of the thicknesses. -/
theorem Nonneg.of_bare (h : b.Nonneg)
    (hbare : ∀ e, (b'.get e).map Region.bare = (b.get e).map Region.bare) : b'.Nonneg := by
  intro e r hr n hn
  have hsize := congrArg (Option.map Region.size) (hbare e)
  rw [hr] at hsize
  cases hget : b.get e with
  | none =>
    rw [hget] at hsize
    cases hsize
  | some known =>
    rw [hget] at hsize
    have heq : r.size = known.size := Option.some.inj hsize
    exact h e known hget n (heq ▸ hn)

theorem nonneg_layAll (hmembers : ∀ id m hidden, members id = .ok (m, hidden) → m.Nonneg)
    {edges : List Edge} {area rest : Rect} (hb : b.Nonneg)
    (h : (layAll layout members edges b area).run.value = .ok (b', placements, rest)) :
    ∀ p ∈ placements, p.rect.size.Nonneg := by
  induction edges generalizing b area placements with
  | nil =>
    cases h
    exact fun _ hp => nomatch hp
  | cons e edges ih =>
    rcases layAll_cons_eq_ok h with ⟨-, hrest⟩ |
      ⟨r, m, hidden, laid, others, hr, hm, hlaid, hrest, rfl⟩
    · exact ih hb hrest
    · have hset := hb.of_bare (bare_set hr (layRegion_keeps hlaid).1)
      intro p hp
      rcases List.mem_append.1 hp with hp | hp
      · exact nonneg_layRegion (hb e r hr) (hmembers _ _ _ hm) hlaid p (by simpa using hp)
      · exact ih hset hrest p hp

/-- Regions and center are placed without a negative size. -/
theorem nonneg_place (hmembers : ∀ id m hidden, members id = .ok (m, hidden) → m.Nonneg)
    {center : ComponentId} {content : Rect} (hb : b.Nonneg)
    (h : (b.place layout members center content).run.value = .ok (b', placements)) :
    b'.Nonneg ∧ ∀ p ∈ placements, p.rect.size.Nonneg := by
  refine ⟨hb.of_bare (bare_place h), fun p hp => ?_⟩
  obtain ⟨laid, others, left, m, hidden, rect, hlaid, -, hrect, -, rfl⟩ := place_eq_ok h
  rcases List.mem_append.1 hp with hp | hp
  · exact nonneg_layAll hmembers hb hlaid p hp
  · cases List.mem_singleton.1 hp
    exact Rect.nonneg_inset hrect

theorem Nonneg.set (h : b.Nonneg) (e : Edge) {r : Region} (hr : ∀ n ∈ r.size, 0 ≤ n) :
    (b.set e (some r)).Nonneg := by
  intro f q hq
  rw [Border.get_set] at hq
  split at hq
  · cases hq
    exact hr
  · exact h f q hq

/-- A region that is picked up anew has no thickness of its own yet. -/
theorem Nonneg.sync (h : b.Nonneg) (children : List Slot) : (b.sync children).Nonneg := by
  have hfresh : ∀ {name component collapsed} {n : Int},
      n ∈ (Region.fresh name component collapsed).size → 0 ≤ n := fun hn => nomatch hn
  intro e r hr n hn
  rw [get_sync] at hr
  unfold regionAt at hr
  split at hr
  · split at hr
    · next known hknown =>
      split at hr
      · cases hr
        exact h e _ hknown n hn
      · cases hr
        exact hfresh hn
    · cases hr
      exact hfresh hn
  · exact h e r (Option.filter_eq_some_iff.1 hr).1 n hn

end Border

end Trellis
