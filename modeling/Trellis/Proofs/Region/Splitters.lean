import Trellis.Proofs.Border.Splitting
import Trellis.Proofs.Region.Drawing

/-!
# Moving a splitter

A splitter gives its region at most what leaves the center its least length, going by the lengths
that the last pass has recorded. These do not tell how much the strips and margins of that pass
exceeded the content box by, since no length is negative; so the center keeps its least length only
if they did not.

* `UpToDate`: laying out the container again would change nothing that is known of its regions.
* `Stages.alike`: such a pass picks up nothing, and neither does one with other sizes.
* `center_after_splitter`: the center's length after a splitter has been moved, and when it is what
  it should be.
-/
namespace Trellis

namespace Border

/-- A region whose component is the one that would be picked up is kept, and hides nothing. -/
theorem regionAt_settled {slots : List Slot} {known known' : Option Region} {name : RegionName}
    (h : (regionAt slots known name).map Region.component = known.map Region.component)
    (hsame : known'.map Region.component = known.map Region.component) :
    regionAt slots known' name = known' ∧ newlyHidden slots known' name = none := by
  unfold regionAt newlyHidden at *
  cases known with
  | none =>
    rw [Option.map_none, Option.map_eq_none_iff] at hsame
    subst hsame
    cases hholder : holder slots name with
    | none => exact ⟨rfl, rfl⟩
    | some slot =>
      rw [hholder] at h
      cases h
  | some r =>
    rw [Option.map_some] at hsame
    obtain ⟨r', rfl, hcomponent⟩ := Option.map_eq_some_iff.1 hsame
    cases hholder : holder slots name with
    | none =>
      rw [hholder] at h
      have hchild : (slots.map Slot.id).contains r.component = true := by
        simpa [Option.filter_some] using h
      exact ⟨by simp only [Option.filter_some, hcomponent, hchild, if_true], rfl⟩
    | some slot =>
      rw [hholder] at h
      by_cases heq : r.component = slot.id
      · rw [← hcomponent] at heq
        simp [heq]
      · simp only [if_neg heq, Option.map_some, Option.some.injEq] at h
        exact absurd h.symm heq

end Border

namespace Scene

variable {s s' u : Scene} {c : ComponentId} {layout : LayoutConfig} {e : Edge} {r : Region}

/-- Laying out the container once more would change nothing that is known of its regions. -/
def UpToDate (s : Scene) (c : ComponentId) : Prop :=
  ∃ s', s.run (Step.layout c) = .ok (.ok (), s') ∧ s'.regions c = s.regions c

/-- The least length that the center is to have along the axis of an edge. -/
def centerLeast (s : Scene) (c : ComponentId) (e : Edge) : Int :=
  (((s.regions c).center.bind s.tree.config?).bind fun config =>
    match e.axis with
    | .horizontal => config.minWidth
    | .vertical => config.minHeight).getD SplitBounds.standardCenterMin

/-! ## Passes that pick up nothing -/

section

variable {ready mid laid : Scene} {slots : List Border.Slot} {after : Border}
  {placements : List Placement} (h : Stages layout c s ready mid laid s' slots after placements)
  (hsettled : ∀ e : Edge, Border.regionAt slots ((s.regions c).get e) e.region =
      (s.regions c).get e ∧
    Border.newlyHidden slots ((s.regions c).get e) e.region = none)

include h

/-- The regions that a pass leaves are those that it has picked up. -/
theorem Stages.component_eq (e : Edge) :
    (Border.regionAt slots ((s.regions c).get e) e.region).map Region.component =
      ((s'.regions c).get e).map Region.component := by
  have hcomponent := congrArg (Option.map Region.component) (h.bare_eq e)
  rw [Option.map_map, Option.map_map, Border.get_sync] at hcomponent
  exact hcomponent.symm

include hsettled

theorem Stages.mid_eq : mid.tree = s.tree.renderChildren c ∧ mid.host = s.host := by
  have hnothing : (s.regions c).hiddenBySync slots = [] := by
    unfold Border.hiddenBySync
    rw [List.filterMap_eq_nil_iff]
    exact fun e _ => (hsettled e).2
  refine ⟨?_, h.syncs.host.trans h.readied.host⟩
  rw [h.syncs.tree, hnothing, h.readied.tree]
  rfl

end

theorem content_eq_of_tree (htree : s.tree = u.tree) (hhost : s.host = u.host) :
    s.content layout c = u.content layout c := by
  unfold content
  rw [htree, hhost]

theorem regionMember_eq_of_tree (htree : s.tree = u.tree) (hhost : s.host = u.host) :
    s.regionMember = u.regionMember := by
  funext id
  unfold regionMember
  rw [htree, hhost]

/-! ## Bounds of a splitter -/

theorem clamp_le {bounds : SplitBounds} {requested size : Int}
    (h : bounds.clamp requested = .ok size) :
    size ≤ max (bounds.region + bounds.center - bounds.centerMin) 0 := by
  simp only [SplitBounds.clamp, Length.bind_eq_ok, Length.add_eq_ok, Length.sub_eq_ok, and_assoc,
    exists_eq_left] at h
  obtain ⟨-, -, h⟩ := h
  cases h
  omega

/-- A splitter leaves the center its least length, going by what has been recorded. -/
theorem size_le {b : Border} {config : ItemConfig} {center : Option ItemConfig} {m : Member}
    {requested size : Int} {body before : Rect}
    (h : (Step.splitBounds b e r config center).clamp requested = .ok size)
    (hbody : r.rect = some body) (hbefore : b.centerRect = some before)
    (hthickness : e.axis.main body.size = max (Border.thickness e r m) 0) :
    size ≤ max (e.axis.main body.size + e.axis.main before.size -
      (Step.splitBounds b e r config center).centerMin) 0 := by
  have hcenter : (Step.splitBounds b e r config center).center = e.axis.main before.size := by
    simp only [Step.splitBounds, hbefore, Option.map_some, Option.getD_some]
    cases e <;> rfl
  have hregion : (Step.splitBounds b e r config center).region ≤ e.axis.main body.size := by
    simp only [Step.splitBounds, hbody, Option.map_some]
    unfold Border.thickness at hthickness
    cases hsize : r.size with
    | some n =>
      rw [hsize, Option.getD_some] at hthickness
      simp only [Option.some_or, Option.getD_some]
      omega
    | none =>
      simp only [Option.none_or, Option.getD_some]
      cases e <;> exact Int.le_refl _
  have hle := clamp_le h
  rw [hcenter] at hle
  omega

theorem centerMin_eq {config : ItemConfig} : (Step.splitBounds (s.regions c) e r config
    (((s.regions c).center.bind s.tree.get?).map Component.config)).centerMin =
      s.centerLeast c e := by
  unfold Step.splitBounds centerLeast
  cases (s.regions c).center with
  | none => rfl
  | some i => cases e <;> rfl

section

variable {ready₁ mid₁ laid₁ s₁ ready₂ mid₂ laid₂ s₂ : Scene} {slots₁ slots₂ : List Border.Slot}
  {after₁ after₂ : Border} {placements₁ placements₂ : List Placement}

/-- Where the tree is the same, and so are the components in the regions, a pass picks up nothing if
another one has picked up nothing. Both lay out the same children in the same space. -/
theorem Stages.alike (h₁ : Stages layout c s ready₁ mid₁ laid₁ s₁ slots₁ after₁ placements₁)
    (h₂ : Stages layout c u ready₂ mid₂ laid₂ s₂ slots₂ after₂ placements₂)
    (hsame : s₁.regions c = s.regions c) (htree : u.tree = s.tree) (hhost : u.host = s.host)
    (hcomponent : ∀ f, ((u.regions c).get f).map Region.component =
      ((s.regions c).get f).map Region.component) :
    ∃ center content, ∃ b b₂ : Border, mid₁.tree = s.tree.renderChildren c ∧
      (s.ready layout c).content layout c = .ok content ∧
      (∀ f, b.get f = (s.regions c).get f) ∧ (∀ f, b₂.get f = (u.regions c).get f) ∧
      b.center = some center ∧ b₂.center = some center ∧
      (b.place layout mid₁.regionMember center content).run.value = .ok (after₁, placements₁) ∧
      (b₂.place layout mid₁.regionMember center content).run.value =
        .ok (after₂, placements₂) := by
  have hready : ready₂.tree = ready₁.tree := by
    rw [h₁.readied.tree, h₂.readied.tree, ready, ready, htree]
  obtain rfl : slots₂ = slots₁ := by
    have hfound := h₂.found
    unfold Scene.slots at hfound
    rw [hready] at hfound
    exact Except.ok.inj (hfound.symm.trans h₁.found)
  have hkept := h₁.component_eq
  rw [hsame] at hkept
  have hsettled₁ := fun f => Border.regionAt_settled (hkept f) rfl
  have hsettled₂ := fun f => Border.regionAt_settled (hkept f) (hcomponent f)
  obtain ⟨hmidTree₁, hmidHost₁⟩ := h₁.mid_eq hsettled₁
  obtain ⟨hmidTree₂, hmidHost₂⟩ := h₂.mid_eq hsettled₂
  rw [htree, ← hmidTree₁] at hmidTree₂
  rw [hhost, ← hmidHost₁] at hmidHost₂
  obtain ⟨center, content, hcenter, hcontent, hplace₁⟩ := h₁.lays.laid
  obtain ⟨center₂, content₂, hcenter₂, hcontent₂, hplace₂⟩ := h₂.lays.laid
  have hcenters : ((u.regions c).sync slots₂).center = some center := hcenter
  obtain rfl := Option.some.inj (hcenters.symm.trans hcenter₂)
  rw [content_eq_of_tree hmidTree₂ hmidHost₂, hcontent, Except.ok.injEq] at hcontent₂
  subst hcontent₂
  rw [regionMember_eq_of_tree hmidTree₂ hmidHost₂] at hplace₂
  refine ⟨center, content, _, _, hmidTree₁, ?_, fun f => ?_, fun f => ?_, hcenter, hcenters,
    hplace₁, hplace₂⟩
  · rw [← hcontent]
    exact content_eq_of_tree hmidTree₁.symm hmidHost₁.symm
  · rw [Border.get_sync]
    exact (hsettled₁ f).1
  · rw [Border.get_sync]
    exact (hsettled₂ f).1

/-- A pass that changes nothing, and one over the same container with another size of one region. -/
theorem center_resized {size : Int}
    (h₁ : Stages layout c s ready₁ mid₁ laid₁ s₁ slots₁ after₁ placements₁)
    (h₂ : Stages layout c u ready₂ mid₂ laid₂ s₂ slots₂ after₂ placements₂)
    (hsame : s₁.regions c = s.regions c) (htree : u.tree = s.tree) (hhost : u.host = s.host)
    (hget : ∀ f, (u.regions c).get f =
      if f = e then some { r with size := some size } else (s.regions c).get f)
    (hr : (s.regions c).get e = some r) (hstate : r.state = .expanded)
    (hshown : s.tree.isVisible r.component = true) (hsize : 0 ≤ size) :
    ∃ content m body before now, (s.ready layout c).content layout c = .ok content ∧
      r.rect = some body ∧ e.axis.main body.size = max (Border.thickness e r m) 0 ∧
      (s.regions c).centerRect = some before ∧ (s₂.regions c).centerRect = some now ∧
      e.axis.main now.size = max (e.axis.main body.size + e.axis.main before.size -
        Border.overfill layout s.tree.config? (s.regions c) e content - size) 0 := by
  have hcomponent : ∀ f, ((u.regions c).get f).map Region.component =
      ((s.regions c).get f).map Region.component := by
    intro f
    rw [hget]
    split
    · next heq => rw [heq, hr, Option.map_some, Option.map_some]
    · rfl
  obtain ⟨center, content, b, b₂, hmid, hcontent, hb, hb₂, hcenter, hcenter₂, hplace₁, hplace₂⟩ :=
    h₁.alike h₂ hsame htree hhost hcomponent
  have hmembers := fun id m hidden => @of_regionMember mid₁ id m hidden
  obtain ⟨_, m, hidden, _, hm, -⟩ := Border.laid_of_place hmembers ((hb e).trans hr) hplace₁
  obtain rfl : hidden = false := by
    obtain ⟨x, hx, -, rfl⟩ := of_regionMember hm
    rw [← Tree.isVisible_renderChildren s.tree c, ← hmid] at hshown
    simpa [Tree.isVisible, hx] using hshown
  obtain ⟨q, body, before, now, hq, hbody, hthickness, hbefore, hnow, hlength⟩ :=
    Border.place_resized hmembers hsize ((hb e).trans hr) (fun f => by rw [hb₂, hget, hb])
      hcenter hcenter₂ hstate hm hplace₁ hplace₂
  have hafter : after₁ = s.regions c := h₁.regions_eq.symm.trans hsame
  rw [hafter] at hq hbefore hlength
  rw [← h₁.agree_mid.tree.config?_eq] at hlength
  obtain rfl := Option.some.inj (hr.symm.trans hq)
  exact ⟨content, m, body, before, now, hcontent, hbody, hthickness, hbefore,
    by rw [h₂.regions_eq, hnow], hlength⟩

end

end Scene

open Border in
/-- What a splitter leaves to the center. In a border container whose last pass is up to date, the
splitter of a region that is shown is moved, which is not refused, and the host does not keep the
container from being laid out. Then the center gets what the region's new thickness leaves of the
two lengths, except that what strips and margins exceeded the content box by goes first. So the
center keeps its least length, or both lengths if they are less together, provided that strips and
margins did not exceed the content box; in general it keeps that exactly if the new thickness and
the excess leave it. -/
theorem center_after_splitter {s s' : Scene} {c : ComponentId} {layout : LayoutConfig} {e : Edge}
    {r : Region} {requested size : Int} (hforest : s.tree.Forest)
    (hlayout : s.tree.layoutOf c = .ok layout) (hborder : layout.kind = .border)
    (hheard : s.host.vetoed c .beforeLayout = false) (hcurrent : s.UpToDate c)
    (hr : (s.regions c).get e = some r) (hshown : s.tree.isVisible r.component = true)
    (hrun : s.run (Step.splitMove c e.region requested) = .ok (.ok size, s')) :
    ∃ content body before now, (s.ready layout c).content layout c = .ok content ∧
      r.rect = some body ∧ (s.regions c).centerRect = some before ∧
      (s'.regions c).centerRect = some now ∧
      e.axis.main now.size = max (e.axis.main body.size + e.axis.main before.size -
        overfill layout s.tree.config? (s.regions c) e content - size) 0 ∧
      (overfill layout s.tree.config? (s.regions c) e content = 0 →
        min (s.centerLeast c e) (e.axis.main body.size + e.axis.main before.size) ≤
          e.axis.main now.size) ∧
      (min (s.centerLeast c e) (e.axis.main body.size + e.axis.main before.size) ≤
          e.axis.main now.size ↔
        min (s.centerLeast c e) (e.axis.main body.size + e.axis.main before.size) ≤ 0 ∨
        min (s.centerLeast c e) (e.axis.main body.size + e.axis.main before.size) + size +
          overfill layout s.tree.config? (s.regions c) e content ≤
            e.axis.main body.size + e.axis.main before.size) := by
  obtain ⟨s₁, hrun₁, hsame⟩ := hcurrent
  obtain ⟨_, _, _, _, _, _, h₁⟩ := Scene.exists_stages hforest hlayout hborder hheard hrun₁
  obtain ⟨_, hx, -⟩ | ⟨t, hfinds, htree, ⟨⟨_, hx, -⟩, -⟩ |
    ⟨f, q, x, n, laid, hname, hq, hallowed, hx, hclamp, hrun₂, hn, hsilent⟩⟩ :=
    Scene.run_splitMove_cases hrun
  · cases hx
  · cases hx
  obtain rfl := Edge.region_injective hname
  obtain rfl := Option.some.inj (hr.symm.trans hq)
  obtain rfl := hn size rfl
  rw [htree] at hclamp
  have hstate : r.state = .expanded := by
    simp only [Region.canResize, Bool.and_eq_true, beq_iff_eq] at hallowed
    exact hallowed.2
  obtain ⟨_, _, _, _, _, _, h₂⟩ := Scene.exists_stages
    (s := t.changed c (s.regions c) e { r with size := some size } false) (htree ▸ hforest)
    (htree ▸ hlayout) hborder (hfinds.host ▸ hheard) hrun₂
  obtain ⟨content, m, body, before, now, hcontent, hbody, hthickness, hbefore, hnow, hlength⟩ :=
    Scene.center_resized h₁ h₂ hsame htree hfinds.host
      (fun f => by rw [Scene.regions_changed, Border.get_set]) hr hstate hshown
      (SplitBounds.clamp_nonneg hclamp)
  have hle := Scene.size_le hclamp hbody hbefore hthickness
  rw [Scene.centerMin_eq] at hle
  have hregions : s'.regions c = laid.regions c := Scene.regions_congr (by rw [hsilent.kept])
  refine ⟨content, body, before, now, hcontent, hbody, hbefore, by rw [hregions, hnow], hlength,
    fun hfits => ?_, ?_⟩
  · omega
  · omega

section

/-- What is known of a pane that is 200 wide in a window of 100, and of the page beside it. -/
private def overfullBorder : Border :=
  { Border.empty with
    west := some { Region.fresh .west 1 false with rect := some ⟨0, 0, 200, 100⟩ }
    center := some 2
    centerRect := some ⟨200, 0, 0, 100⟩ }

private def overfullPage : Scene :=
  let window : Scene := .ofTree ((Tree.ofDescription (.node { layout := some { kind := .border } }
    [.node { region := some .west, width := some 200 } [],
      .node { region := some .center } []])).applyRect 0 ⟨0, 0, 100, 100⟩) .standard
  { window with kept := window.kept.insert 0 (.border overfullBorder) }

open Border in
/-- The splitter's bounds are to leave the page 50 of 200 pixels, but 100 of these are outside the
window: it gets nothing, as long as the pane gets more than 50. -/
theorem cramped_page_gets_nothing :
    overfullPage.UpToDate 0 ∧ overfullPage.centerLeast 0 .west = 50 ∧
    overfill { kind := .border } overfullPage.tree.config? overfullBorder .west ⟨0, 0, 100, 100⟩ =
      100 ∧
    ∃ size s' now, overfullPage.run (Step.splitMove 0 .west 150) = .ok (.ok size, s') ∧
      (s'.regions 0).centerRect = some now ∧ now.width = 0 ∧ ¬ min 50 (200 + 0) ≤ now.width ∧
      50 < size := by
  obtain ⟨⟨⟩, s₁, h₁, hsame⟩ := Scene.run_of_viewAfter
    (show overfullPage.viewAfter (Step.layout 0) (fun s =>
      decide (s.regions 0 = overfullBorder)) = some true by decide +kernel)
  obtain ⟨size, s', h₂, hrect⟩ := Scene.run_of_viewAfter
    (show overfullPage.viewAfter (Step.splitMove 0 .west 150) (fun s =>
      (s.regions 0).centerRect) = some (some ⟨150, 0, 0, 100⟩) by decide +kernel)
  have hcurrent : overfullPage.UpToDate 0 := ⟨s₁, h₁, of_decide_eq_true hsame⟩
  have hleast : overfullPage.centerLeast 0 .west = 50 := by decide +kernel
  have hexcess : overfill { kind := .border } overfullPage.tree.config? overfullBorder .west
      ⟨0, 0, 100, 100⟩ = 100 := by decide +kernel
  obtain ⟨content, body, before, now, hcontent, hbody, hbefore, hnow, -, -, hiff⟩ :=
    center_after_splitter (e := .west)
      ((Tree.sameShape_applyRect _ 0 _).forest (Tree.nested_ofDescription _).forest) rfl rfl rfl
      hcurrent rfl rfl h₂
  obtain rfl : content = ⟨0, 0, 100, 100⟩ := Except.ok.inj (hcontent.symm.trans (by decide +kernel))
  cases hbody
  cases hbefore
  rw [hrect] at hnow
  cases hnow
  have hcramped : overfill { kind := .border } overfullPage.tree.config?
      (overfullPage.regions 0) .west ⟨0, 0, 100, 100⟩ = 100 := hexcess
  rw [hleast, hcramped] at hiff
  simp only [Edge.axis, Axis.main, Rect.size] at hiff
  exact ⟨hcurrent, hleast, hexcess, size, s', _, h₂, hrect, rfl, by decide, by omega⟩

end

end Trellis
