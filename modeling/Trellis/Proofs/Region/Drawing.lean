import Trellis.Proofs.Dirty.Marks
import Trellis.Proofs.Region.States

/-!
# How regions are drawn

A pass over a border container draws its regions anew. What it draws depends on how the regions
look, on which of their components are hidden, and on the space that there is, but not on anything
that was drawn before.

* `Drawing`: regions and center are where a pass places them; `Drawing.again`: what looks the same
  is drawn in the same places.
* `Kempt`: every region has its child, which is out of sight exactly while the region is collapsed.
* `Redraws`: what a pass over a border container does; `redraws_of_layout`: it does nothing else.
-/
namespace Trellis

namespace Tree

variable {p : ComponentId → Prop} {t u : Tree}

theorem Agree.rect?_eq (h : Agree p t u) {i : ComponentId} (hi : p i) : t.rect? i = u.rect? i :=
  h.eq_at (g := Option.map fun c : Component => c.state.rect) (by rintro (_ | _) <;> rfl) hi

@[simp] theorem rect?_renderChildren (t : Tree) (c : ComponentId) :
    (t.renderChildren c).rect? = t.rect? :=
  rect?_congr (t.mark?_renderChildren c)

@[simp] theorem rect?_setHidden (t : Tree) (id : ComponentId) (hidden : Bool) :
    (t.setHidden id hidden).rect? = t.rect? :=
  rect?_congr (t.mark?_setHidden id hidden)

@[simp] theorem rect?_setHiddens (t : Tree) (ids : List ComponentId) (hidden : Bool) :
    (ids.foldl (fun t id => t.setHidden id hidden) t).rect? = t.rect? :=
  rect?_congr (t.mark?_setHiddens ids fun _ => hidden)

end Tree

/-! ## What is placed -/

namespace Border

variable {layout : LayoutConfig} {members : ComponentId → Checked (Member × Bool)}
  {b after : Border} {area rest : Rect} {e : Edge} {r : Region} {m : Member}

/-- A region whose component is shown places it. -/
theorem layRegion_placed {laid : Laid} (hstate : r.state ≠ .collapsed)
    (h : (layRegion layout area e r m false).run.value = .ok laid) :
    ∃ p, laid.placement = some p ∧ p.id = r.component := by
  unfold layRegion at h
  cases hr : r.state with
  | collapsed => exact absurd hr hstate
  | expanded =>
    simp only [hr, Bool.false_eq_true, if_false, Draft.value_bind, Draft.value_noted,
      Draft.value_checked, Length.ok_bind] at h
    obtain ⟨strip, -, h⟩ := Length.bind_eq_ok.1 h
    cases h
    exact ⟨_, rfl, rfl⟩
  | floating =>
    simp only [hr, Draft.value_bind, Draft.value_noted, Draft.value_checked, Length.ok_bind] at h
    obtain ⟨strip, -, h⟩ := Length.bind_eq_ok.1 h
    obtain ⟨overlay, -, h⟩ := Length.bind_eq_ok.1 h
    cases h
    exact ⟨_, rfl, rfl⟩

theorem mem_ids_layAll {edges : List Edge} {placements : List Placement} (he : e ∈ edges)
    (hr : b.get e = some r) (hm : members r.component = .ok (m, false))
    (hstate : r.state ≠ .collapsed)
    (h : (layAll layout members edges b area).run.value = .ok (after, placements, rest)) :
    r.component ∈ placements.map Placement.id := by
  induction edges generalizing b area placements with
  | nil => cases he
  | cons f edges ih =>
    rcases layAll_cons_eq_ok h with ⟨hnone, hrest⟩ |
      ⟨q, m', hidden, laid, others, hq, hm', hlaid, hrest, rfl⟩
    · refine ih ((List.mem_cons.1 he).resolve_left ?_) hr hrest
      rintro rfl
      rw [hr] at hnone
      cases hnone
    · rw [List.map_append]
      by_cases heq : e = f
      · subst heq
        obtain rfl := Option.some.inj (hr.symm.trans hq)
        rw [hm] at hm'
        cases hm'
        obtain ⟨p, hp, hid⟩ := layRegion_placed hstate hlaid
        simp [hp, hid]
      · refine List.mem_append_right _ (ih ((List.mem_cons.1 he).resolve_left heq) ?_ hrest)
        rw [Border.get_set, if_neg heq, hr]

theorem mem_ids_place {center : ComponentId} {content : Rect} {placements : List Placement}
    (h : (b.place layout members center content).run.value = .ok (after, placements)) :
    center ∈ placements.map Placement.id ∧ ∀ e r m, b.get e = some r →
      members r.component = .ok (m, false) → r.state ≠ .collapsed →
      r.component ∈ placements.map Placement.id := by
  obtain ⟨laid, others, left, _, _, rect, hlaid, -, -, -, rfl⟩ := place_eq_ok h
  rw [List.map_append]
  refine ⟨by simp, fun e r m hr hm hstate => List.mem_append_left _ ?_⟩
  exact mem_ids_layAll e.mem_all hr hm hstate hlaid

end Border

namespace Scene

variable {s s' t : Scene} {c : ComponentId} {layout : LayoutConfig} {b : Border}

/-- The regions and the center of a container are drawn: they are where `before`, regions that look
the same, are placed. -/
structure Drawing (layout : LayoutConfig) (c : ComponentId) (s : Scene) where
  center : ComponentId
  content : Rect
  before : Border
  members : ComponentId → Checked (Member × Bool)
  after : Border
  placements : List Placement
  holds : s.tree.holder c .center = some center
  offers : s.content layout c = .ok content
  looks : ∀ e, (before.get e).map Region.look = ((s.regions c).get e).map Region.look
  sees : ∀ i ∈ s.tree.children c, members i = s.regionMember i
  placed : (before.place layout members center content).run.value = .ok (after, placements)
  drawn : ∀ e, (after.get e).map Region.geometry = ((s.regions c).get e).map Region.geometry
  centered : after.centerRect = (s.regions c).centerRect
  shows : s.tree.Shows placements

/-- Every region is there with its child, and what is not expanded is hidden exactly if it is
collapsed. -/
structure Kempt (c : ComponentId) (s : Scene) : Prop where
  held : ∀ e, ((s.regions c).get e).map Region.component = s.tree.holder c e.region
  folded : ∀ e r, (s.regions c).get e = some r → r.state ≠ .expanded →
    (s.tree.isHidden r.component = true ↔ r.state = .collapsed)

/-- The size that the host has for the children of `c` depends on nothing but `c` itself. -/
def Steady (s : Scene) (c : ComponentId) : Prop :=
  ∀ u : Tree, s.tree.SameShape u →
    (s.tree.get? c).map Component.clean = (u.get? c).map Component.clean →
    s.host.targetSize u c = s.host.targetSize s.tree c

theorem Steady.content_eq (h : s.Steady c) (hhost : t.host = s.host)
    (hshape : s.tree.SameShape t.tree)
    (hown : (s.tree.get? c).map Component.clean = (t.tree.get? c).map Component.clean)
    (layout : LayoutConfig) : t.content layout c = s.content layout c := by
  unfold content
  rw [hhost, h t.tree hshape hown]

theorem Steady.of_sameShape (h : s.Steady c) (hhost : t.host = s.host)
    (hshape : s.tree.SameShape t.tree)
    (hown : (s.tree.get? c).map Component.clean = (t.tree.get? c).map Component.clean) :
    t.Steady c := by
  intro u hu hc
  rw [hhost, h u (hshape.trans hu) (hown.trans hc), h t.tree hshape hown]

namespace Kempt

theorem holds (h : Kempt c s) {e : Edge} {r : Region} (hr : (s.regions c).get e = some r) :
    s.tree.holder c e.region = some r.component := by
  rw [← h.held e, hr]
  rfl

theorem mem_children (h : Kempt c s) {e : Edge} {r : Region} (hr : (s.regions c).get e = some r) :
    r.component ∈ s.tree.children c :=
  (Tree.mem_of_holder (h.holds hr)).1

/-- The child for a region has that region. -/
theorem exists_region (h : Kempt c s) {e : Edge} {i : ComponentId}
    (hi : s.tree.holder c e.region = some i) :
    ∃ r, (s.regions c).get e = some r ∧ r.component = i := by
  rw [← h.held e] at hi
  exact Option.map_eq_some_iff.1 hi

end Kempt

/-- A container that offers its own size. -/
theorem steady_of_ownSize (h : s.host.targetSize = Host.ownSize) (c : ComponentId) : s.Steady c :=
  fun u hshape hown =>
    (@targetSize_congr c s { s with tree := u } rfl hshape hown h).symm

/-- A border container that the host lets lay out, and whose size does not depend on what it is
drawn as. -/
structure Drawable (layout : LayoutConfig) (c : ComponentId) (s : Scene) : Prop where
  forest : s.tree.Forest
  layoutOf : s.tree.layoutOf c = .ok layout
  border : layout.kind = .border
  heard : s.host.vetoed c .beforeLayout = false
  steady : s.Steady c

namespace Drawable

theorem not_mem_children (h : Drawable layout c s) : c ∉ s.tree.children c := fun hmem =>
  h.forest.not_inside_child ((h.forest.mem_children c c).1 hmem) (s.tree.inside_self c)

theorem of_sameShape (h : Drawable layout c s) (hhost : t.host = s.host)
    (hshape : s.tree.SameShape t.tree)
    (hown : (s.tree.get? c).map Component.clean = (t.tree.get? c).map Component.clean) :
    Drawable layout c t where
  forest := hshape.forest h.forest
  layoutOf := by rw [← h.layoutOf, hshape.layoutOf_eq]
  border := h.border
  heard := by rw [hhost, h.heard]
  steady := h.steady.of_sameShape hhost hshape hown

end Drawable

/-! ## What looks the same is drawn in the same places -/

/-- Two drawings of regions that look the same, with the same components hidden. -/
theorem Drawing.again (d : Drawing layout c s) (d' : Drawing layout c t) (hkempt : Kempt c s)
    (hholder : t.tree.holder c = s.tree.holder c)
    (hchildren : t.tree.children c = s.tree.children c)
    (hcontent : t.content layout c = s.content layout c)
    (hlook : ∀ e, ((t.regions c).get e).map Region.look = ((s.regions c).get e).map Region.look)
    (hsees : ∀ name i, s.tree.holder c name = some i → t.regionMember i = s.regionMember i) :
    d'.placements = d.placements ∧ (t.regions c).centerRect = (s.regions c).centerRect ∧
      ∀ e, ((t.regions c).get e).map Region.geometry =
        ((s.regions c).get e).map Region.geometry := by
  have hcenter : d'.center = d.center := by
    have hholds := d'.holds
    rw [hholder, d.holds, Option.some.injEq] at hholds
    exact hholds.symm
  have hsame : d'.content = d.content := by
    have hoffers := d'.offers
    rw [hcontent, d.offers, Except.ok.injEq] at hoffers
    exact hoffers.symm
  have hplaced := d'.placed
  rw [hcenter, hsame] at hplaced
  have hmembers : ∀ id ∈ d.before.components Edge.all ++ [d.center],
      d'.members id = d.members id := by
    intro id hid
    have hheld : ∃ name, s.tree.holder c name = some id := by
      rcases List.mem_append.1 hid with hid | hid
      · obtain ⟨e, r, hr, rfl⟩ := Border.mem_components hid
        have he := d.looks e
        rw [hr, Option.map_some] at he
        obtain ⟨q, hq, hlook⟩ := Option.map_eq_some_iff.1 he.symm
        refine ⟨e.region, ?_⟩
        rw [hkempt.holds hq, (Region.look_eq_iff.1 hlook).1]
      · rw [List.mem_singleton.1 hid]
        exact ⟨.center, d.holds⟩
    obtain ⟨name, hname⟩ := hheld
    have hmem := (Tree.mem_of_holder hname).1
    rw [d'.sees id (by rwa [hchildren]), d.sees id hmem, hsees name id hname]
  obtain ⟨hplacements, hrect, hgeometry⟩ := Border.place_again
    (fun e => (d'.looks e).trans ((hlook e).trans (d.looks e).symm)) hmembers d.placed hplaced
  refine ⟨hplacements, ?_, fun e => ?_⟩
  · rw [← d'.centered, hrect, d.centered]
  · rw [← d'.drawn e, hgeometry e, d.drawn e]

/-! ## What a pass does -/

/-- What a pass over a border container does: it picks up the regions that are not known yet, and
draws them all. -/
structure Redraws (layout : LayoutConfig) (c : ComponentId) (s s' : Scene) : Prop where
  host : s'.host = s.host
  shape : s.tree.SameShape s'.tree
  own : (s.tree.get? c).map Component.clean = (s'.tree.get? c).map Component.clean
  held : ∀ e, ((s'.regions c).get e).map Region.component = s.tree.holder c e.region
  region : ∀ e r', (s'.regions c).get e = some r' →
    (∃ r, (s.regions c).get e = some r ∧ r'.bare = r.bare) ∨
      (s.regions c).get e = none ∧ (r'.state = .expanded ∨
        r'.state = .collapsed ∧ s'.tree.isHidden r'.component = true)
  flags : ∀ i ∈ s.tree.children c,
    (∀ e, (s.regions c).get e = none → s.tree.holder c e.region ≠ some i) →
    s'.tree.isHidden i = s.tree.isHidden i
  rects : ∀ i ∈ s.tree.children c, (∀ name, s.tree.holder c name ≠ some i) →
    s'.tree.rect? i = s.tree.rect? i
  drawn : Nonempty (Drawing layout c s')

/-- After picking up, every region is there with its child. -/
theorem held_sync {slots : List Border.Slot} (hslots : s.slots c = .ok slots)
    (hheld : ∀ e r, b.get e = some r → s.tree.holder c e.region = some r.component) (e : Edge) :
    ((b.sync slots).get e).map Region.component = s.tree.holder c e.region := by
  cases hr : b.get e with
  | some r =>
    rw [(get_sync_of_held hslots hr (hheld e r hr)).1, hheld e r hr]
    rfl
  | none =>
    rw [get_sync_of_unknown hr, Option.map_map, ← id_holder hslots]
    rfl

/-- The scenes that a pass over a border container goes through: the children are rendered, the
regions are picked up, and then they are placed. What follows leaves the container alone. -/
structure Stages (layout : LayoutConfig) (c : ComponentId) (s ready mid laid s' : Scene)
    (slots : List Border.Slot) (after : Border) (placements : List Placement) : Prop where
  readied : Silent (s.ready layout c) ready
  found : ready.slots c = .ok slots
  syncs : Syncs c (s.regions c) slots ready mid
  lays : LaysRegions layout c ((s.regions c).sync slots) after placements mid laid
  near : laid.Agree (laid.tree.Near c) (· = c) s'

theorem exists_stages (hforest : s.tree.Forest) (hlayout : s.tree.layoutOf c = .ok layout)
    (hborder : layout.kind = .border) (hheard : s.host.vetoed c .beforeLayout = false)
    (hrun : s.run (Step.layout c) = .ok (.ok (), s')) :
    ∃ ready mid laid slots after placements,
      Stages layout c s ready mid laid s' slots after placements := by
  obtain ⟨ready, r, laid, hready, harrange, hok, hnear⟩ :=
    exists_arranged hforest hlayout hheard hrun
  rw [hok rfl, arrangement_of_border hborder] at harrange
  obtain ⟨slots, mid, hslots, hsyncs, ⟨-, hrefused, -⟩ | ⟨-, after, placements, hlays⟩⟩ :=
    run_arrangeBorder_eq_ok harrange
  · cases hrefused
  · exact ⟨ready, mid, laid, slots, after, placements, hready, hslots, hsyncs, hlays, hnear⟩

namespace Stages

variable {ready mid laid : Scene} {slots : List Border.Slot} {after : Border}
  {placements : List Placement} (h : Stages layout c s ready mid laid s' slots after placements)

include h

theorem agree_ready : s.Agree (· ∉ s.tree.children c) (· ≠ c) ready :=
  (s.agree_ready layout c).trans (h.readied.agree _ _)

theorem touches_mid : Touches c ready mid := h.syncs.touches h.found

theorem touches_laid : Touches c mid laid :=
  h.lays.touches fun _ hid => h.lays.mem_children h.found h.syncs hid

theorem agree_mid : s.Agree (· ∉ s.tree.children c) (· ≠ c) mid := by
  have hmid := h.touches_mid.toAgree
  rw [← h.agree_ready.tree.children_eq] at hmid
  exact h.agree_ready.trans hmid

theorem agree_laid : s.Agree (· ∉ s.tree.children c) (· ≠ c) laid := by
  have hlaid := h.touches_laid.toAgree
  rw [← h.agree_mid.tree.children_eq] at hlaid
  exact h.agree_mid.trans hlaid

theorem shape : s.tree.SameShape s'.tree :=
  h.agree_laid.tree.toSameShape.trans h.near.tree.toSameShape

theorem host_eq : s'.host = s.host := (h.agree_laid.host.trans h.near.host).symm

theorem own (hout : c ∉ s.tree.children c) :
    (s.tree.get? c).map Component.clean = (s'.tree.get? c).map Component.clean :=
  (h.agree_laid.tree.clean c hout).trans (h.near.tree.clean c (.inl rfl))

theorem regions_eq : s'.regions c = after := by
  refine Scene.regions_eq ?_
  rw [← h.near.kept c rfl, h.lays.kept, IdMap.get?_insert, if_pos rfl]

theorem holder_eq : ready.tree.holder c = s.tree.holder c :=
  (Tree.holder_congr (congrFun h.agree_ready.tree.children_eq c)
    h.agree_ready.tree.config?_eq).symm

/-- The passes over the children leave these alone. -/
theorem near_child {i : ComponentId} (hi : i ∈ s.tree.children c) : laid.tree.Near c i :=
  .inr (h.agree_laid.tree.children_eq ▸ hi)

/-- Only picking up regions hides anything. -/
theorem isVisible_eq {i : ComponentId} (hi : i ∈ s.tree.children c) :
    s'.tree.isVisible i = mid.tree.isVisible i := by
  rw [← h.near.tree.isVisible_eq (h.near_child hi), h.lays.tree, Tree.isVisible_applyPlacements]

theorem isHidden_eq (hlinked : s.tree.Linked) {i : ComponentId} (hi : i ∈ s.tree.children c) :
    s'.tree.isHidden i =
      (s.tree.isHidden i || ((s.regions c).hiddenBySync slots).contains i) := by
  rw [(h.shape.linked hlinked).isHidden_child (h.shape.children_eq ▸ hi),
    hlinked.isHidden_child hi, h.isVisible_eq hi, h.syncs.tree, isVisible_hide, h.readied.tree,
    Scene.ready, Tree.isVisible_renderChildren]
  simp

theorem bare_eq (e : Edge) :
    ((s'.regions c).get e).map Region.bare =
      (((s.regions c).sync slots).get e).map Region.bare := by
  obtain ⟨center, content, -, -, hplace⟩ := h.lays.laid
  rw [h.regions_eq, Border.bare_place hplace]

variable (hheld : ∀ e r, (s.regions c).get e = some r →
  s.tree.holder c e.region = some r.component)

include hheld

theorem held_ready {e : Edge} {r : Region} (hr : (s.regions c).get e = some r) :
    ready.tree.holder c e.region = some r.component := by
  rw [h.holder_eq]
  exact hheld e r hr

theorem held_sync (e : Edge) :
    (((s.regions c).sync slots).get e).map Region.component = s.tree.holder c e.region := by
  rw [← h.holder_eq]
  exact Scene.held_sync h.found (fun _ _ hr => h.held_ready hheld hr) e

theorem mem_hidden {i : ComponentId} : i ∈ (s.regions c).hiddenBySync slots ↔
    ∃ e r, (s.regions c).get e = none ∧ ((s.regions c).sync slots).get e = some r ∧
      r.component = i ∧ r.state = .collapsed :=
  mem_hiddenBySync h.found fun _ _ hr => h.held_ready hheld hr

/-- A region that is there after the pass was there before, or is new and expanded, or is new and
collapsed, with its component hidden. -/
theorem region (hlinked : s.tree.Linked) {e : Edge} {r' : Region}
    (hr' : (s'.regions c).get e = some r') :
    (∃ r, (s.regions c).get e = some r ∧ r'.bare = r.bare) ∨
      (s.regions c).get e = none ∧ (r'.state = .expanded ∨
        r'.state = .collapsed ∧ s'.tree.isHidden r'.component = true) := by
  obtain ⟨r, hr, hsame⟩ := Border.get_of_bare h.bare_eq hr'
  cases hknown : (s.regions c).get e with
  | some q =>
    rw [(get_sync_of_held h.found hknown (h.held_ready hheld hknown)).1, Option.some.injEq] at hr
    exact .inl ⟨q, rfl, hr ▸ hsame⟩
  | none =>
    refine .inr ⟨rfl, ?_⟩
    obtain ⟨-, hcomponent, hstate, -⟩ := Region.bare_eq_iff.1 hsame
    have hnew : ((s.regions c).sync slots).get e = _ := get_sync_of_unknown hknown
    rw [hr] at hnew
    obtain ⟨slot, -, rfl⟩ := Option.map_eq_some_iff.1 hnew.symm
    cases hcollapsed : slot.collapsed with
    | false => exact .inl (by rw [hstate]; simp [Region.fresh, hcollapsed])
    | true =>
      rw [hcollapsed] at hr hcomponent hstate
      have hholds := h.held_sync hheld e
      rw [hr] at hholds
      refine .inr ⟨hstate, ?_⟩
      rw [hcomponent, h.isHidden_eq hlinked (Tree.mem_of_holder hholds.symm).1, Bool.or_eq_true,
        List.contains_iff_mem, h.mem_hidden hheld]
      exact .inr ⟨e, _, hknown, hr, rfl, rfl⟩

theorem flag_eq (hlinked : s.tree.Linked) {i : ComponentId} (hi : i ∈ s.tree.children c)
    (hknown : ∀ e, (s.regions c).get e = none → s.tree.holder c e.region ≠ some i) :
    s'.tree.isHidden i = s.tree.isHidden i := by
  have hnot : i ∉ (s.regions c).hiddenBySync slots := by
    rw [h.mem_hidden hheld]
    rintro ⟨e, r, hnone, hr, rfl, -⟩
    refine hknown e hnone ?_
    rw [← h.held_sync hheld e, hr]
    rfl
  rw [h.isHidden_eq hlinked hi]
  simp [hnot]

omit hheld in
/-- What is not placed stays where it was. -/
theorem rect_unplaced {i : ComponentId} (hi : i ∈ s.tree.children c)
    (hunplaced : i ∉ placements.map Placement.id) : s'.tree.rect? i = s.tree.rect? i := by
  have hkeeps : mid.tree.Agree (· ∉ placements.map Placement.id)
      (mid.tree.applyPlacements placements) :=
    Tree.agree_applyPlacements mid.tree fun _ hid hnot => hnot hid
  rw [← h.near.tree.rect?_eq (h.near_child hi), h.lays.tree, ← hkeeps.rect?_eq hunplaced,
    h.syncs.tree, Tree.rect?_setHiddens, h.readied.tree, Scene.ready, Tree.rect?_renderChildren]

/-- Only what is there for a region or as the center is placed. -/
theorem rect_eq {i : ComponentId} (hi : i ∈ s.tree.children c)
    (hother : ∀ name, s.tree.holder c name ≠ some i) : s'.tree.rect? i = s.tree.rect? i := by
  obtain ⟨center, content, hcenter, -, hplace⟩ := h.lays.laid
  refine h.rect_unplaced hi fun hid => ?_
  rcases List.mem_append.1 ((Border.ids_place hplace).subset hid) with hid | hid
  · obtain ⟨e, r, hr, rfl⟩ := Border.mem_components hid
    refine hother e.region ?_
    rw [← h.held_sync hheld e, hr]
    rfl
  · rw [List.mem_singleton.1 hid, ← h.holder_eq] at hother
    exact hother .center (holder_center h.found hcenter)

theorem shows : s'.tree.Shows placements := by
  obtain ⟨center, content, hcenter, -, hplace⟩ := h.lays.laid
  have hshows : laid.tree.Shows placements := by
    rw [h.lays.tree]
    refine Tree.shows_applyPlacements ((Border.ids_place hplace).nodup
      (nodup_held (fun e r hr => ?_) (holder_center h.found hcenter))) mid.tree
    rw [h.holder_eq, ← h.held_sync hheld e, hr]
    rfl
  refine hshows.of_agree h.near.tree fun id hid => .inr ?_
  rw [← h.touches_laid.tree.children_eq]
  exact h.lays.mem_children h.found h.syncs hid

/-- What is drawn is what has been placed. -/
theorem drawing (hsteady : s.Steady c) (hout : c ∉ s.tree.children c) :
    ∃ d : Drawing layout c s', d.placements = placements := by
  obtain ⟨center, content, hcenter, hcontent, hplace⟩ := h.lays.laid
  have hmid := h.agree_mid
  refine ⟨{
    center, content, before := (s.regions c).sync slots, members := mid.regionMember, after,
    placements, holds := ?_, offers := ?_, looks := fun e => ?_, sees := fun i hi => ?_,
    placed := hplace, drawn := fun e => by rw [h.regions_eq], centered := by rw [h.regions_eq],
    shows := h.shows hheld }, rfl⟩
  · rw [← Tree.holder_congr (congrFun h.shape.children_eq c) h.shape.config?_eq, ← h.holder_eq]
    exact holder_center h.found hcenter
  · rw [hsteady.content_eq h.host_eq h.shape (h.own hout),
      ← hsteady.content_eq hmid.host.symm hmid.tree.toSameShape (hmid.tree.clean c hout), hcontent]
  · exact (Border.look_congr h.bare_eq e).symm
  · rw [← h.shape.children_eq] at hi
    exact regionMember_congr (h.host_eq.trans hmid.host)
      (h.shape.symm.trans hmid.tree.toSameShape) (h.isVisible_eq hi)

end Stages

theorem redraws_of_layout (h : Drawable layout c s)
    (hheld : ∀ e r, (s.regions c).get e = some r → s.tree.holder c e.region = some r.component)
    (hrun : s.run (Step.layout c) = .ok (.ok (), s')) : Redraws layout c s s' := by
  obtain ⟨ready, mid, laid, slots, after, placements, hstages⟩ :=
    exists_stages h.forest h.layoutOf h.border h.heard hrun
  have hlinked := h.forest.toLinked
  refine ⟨hstages.host_eq, hstages.shape, hstages.own h.not_mem_children, fun e => ?_,
    fun e r' => hstages.region hheld hlinked, fun i => hstages.flag_eq hheld hlinked,
    fun i => hstages.rect_eq hheld, ?_⟩
  · have hcomponent := congrArg (Option.map Region.component) (hstages.bare_eq e)
    rw [Option.map_map, Option.map_map] at hcomponent
    rw [← hstages.held_sync hheld e]
    exact hcomponent
  · obtain ⟨d, -⟩ := hstages.drawing hheld h.steady h.not_mem_children
    exact ⟨d⟩

/-- A pass places what it draws, and leaves the other children where they were. -/
theorem exists_drawing_of_layout (h : Drawable layout c s)
    (hheld : ∀ e r, (s.regions c).get e = some r → s.tree.holder c e.region = some r.component)
    (hrun : s.run (Step.layout c) = .ok (.ok (), s')) :
    ∃ d : Drawing layout c s', ∀ i ∈ s.tree.children c, i ∉ d.placements.map Placement.id →
      s'.tree.rect? i = s.tree.rect? i := by
  obtain ⟨ready, mid, laid, slots, after, placements, hstages⟩ :=
    exists_stages h.forest h.layoutOf h.border h.heard hrun
  obtain ⟨d, rfl⟩ := hstages.drawing hheld h.steady h.not_mem_children
  exact ⟨d, fun i => hstages.rect_unplaced⟩

end Scene

end Trellis
