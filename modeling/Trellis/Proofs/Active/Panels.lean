import Trellis.Proofs.Box.Expanding
import Trellis.Proofs.Menu.Reactions
import Trellis.Proofs.Passes.Records

/-!
# The panels of an accordion

A pass over an accordion settles on one active panel, which is to take all the height that the
headers of the others leave. The panel that was active is chosen again only if it is visible. The
panel that the settings name is chosen whether it is visible or not, and if it is not, every panel
is reduced to its header.

* `chooseActive_mem_iff`: when the child that is chosen is a candidate.
* `Tree.Expands`: the heights of the panels; `Scene.expands_of_accordion`: one layout has them.
* `accordion_expands_active`: what a pass leaves of an accordion.
-/
namespace Trellis

/-! ## Choosing the active child -/

theorem exists_chooseActive {candidates : List ComponentId} (hne : candidates ≠ [])
    (active configured : Option ComponentId) :
    ∃ child, chooseActive candidates active configured = some child := by
  obtain ⟨first, rest, rfl⟩ := List.exists_cons_of_ne_nil hne
  rw [← Option.isSome_iff_exists, chooseActive, List.head?_cons, Option.isSome_or]
  simp

/-- The child that is chosen is a candidate if the one that was active still is, and otherwise
unless another one is configured. -/
theorem chooseActive_mem_iff {candidates : List ComponentId} {active configured : Option ComponentId}
    {child : ComponentId} (h : chooseActive candidates active configured = some child) :
    child ∈ candidates ↔
      (∃ a ∈ active, a ∈ candidates) ∨ ∀ i ∈ configured, i ∈ candidates := by
  refine ⟨fun hmem => ?_, fun hways => ?_⟩
  · by_cases hkept : ∃ a ∈ active, a ∈ candidates
    · exact .inl hkept
    · right
      rintro i rfl
      have hnone : active.filter candidates.contains = none :=
        Option.filter_eq_none_iff.2 fun a ha hmem => hkept ⟨a, ha, by simpa using hmem⟩
      rw [chooseActive, hnone] at h
      cases h
      exact hmem
  · rcases hways with ⟨a, rfl, hmem⟩ | hconfigured
    · have hkept : (some a).filter candidates.contains = some a := by simp [hmem]
      rw [chooseActive, hkept] at h
      cases h
      exact hmem
    · exact chooseActive_mem hconfigured h

/-! ## Heights of panels -/

namespace Tree

variable {t u : Tree} {layout : LayoutConfig} {container : ComponentId}

/-- The height that a layout has given a component. -/
def height (t : Tree) (i : ComponentId) : Int := (t.get? i).elim 0 fun c => c.state.rect.height

/-- The margins above and below a component, as a child of a container with this layout. -/
def marginsAround (t : Tree) (layout : LayoutConfig) (i : ComponentId) : Int :=
  (t.config? i).elim 0 fun c => (c.marginSides layout).top + (c.marginSides layout).bottom

/-- What the visible children take, one below the other, with these heights and their margins. -/
def stacked (t : Tree) (layout : LayoutConfig) (container : ComponentId)
    (heights : ComponentId → Int) : Int :=
  ((t.visibleChildren container).map fun i => heights i + t.marginsAround layout i).sum

end Tree

namespace Accordion

/-- The heights of panels of which the active one has the height `n` and the others their headers. -/
def heights (layout : LayoutConfig) (active : ComponentId) (n : Int) (i : ComponentId) : Int :=
  if i = active then n else max layout.headerHeight 0

variable {layout : LayoutConfig} {active : ComponentId} {m : Member}

theorem value_panelRequest (layout : LayoutConfig) (active : ComponentId) (m : Member) :
    (panelRequest layout (some active) m).value =
      if m.id = active then expanded (m.request layout).value
      else reduced (max layout.headerHeight 0) (m.request layout).value := by
  rw [panelRequest, Noted.value_bind]
  by_cases h : m.id = active <;> simp [h]

theorem isFlexed_panelRequest (layout : LayoutConfig) (active : ComponentId) (m : Member) :
    (panelRequest layout (some active) m).value.isFlexed .vertical = decide (m.id = active) := by
  rw [value_panelRequest]
  by_cases h : m.id = active
  · rw [if_pos h, decide_eq_true h]
    show (Weight.isPositive (1 : Float) && true) = true
    rw [Bool.and_true]
    decide
  · rw [if_neg h, decide_eq_false h]
    exact isFlexed_reduced _ _

theorem mainMargin_panelRequest (layout : LayoutConfig) (active : ComponentId) (m : Member) :
    (panelRequest layout (some active) m).value.mainMargin .vertical =
      (m.config.marginSides layout).top + (m.config.marginSides layout).bottom := by
  rw [value_panelRequest]
  split <;> rfl

theorem floorMain_panelRequest (layout : LayoutConfig) (active : ComponentId) (m : Member) :
    (panelRequest layout (some active) m).value.floorMain .vertical =
      heights layout active (m.config.minHeight.getD 0) m.id := by
  rw [Box.Request.floorMain, isFlexed_panelRequest, value_panelRequest, heights]
  by_cases h : m.id = active
  · rw [if_pos h, if_pos h, if_pos (decide_eq_true h)]
    rfl
  · rw [if_neg h, if_neg h, if_neg (by simp [h])]
    rfl

theorem resolvedMain_panelRequest (hne : m.id ≠ active) :
    (panelRequest layout (some active) m).value.resolvedMain .vertical =
      max layout.headerHeight 0 := by
  rw [value_panelRequest, if_neg hne]
  rfl

theorem least?_panelRequest (hne : m.id ≠ active) :
    ((panelRequest layout (some active) m).value.mainBounds .vertical).least? = none := by
  rw [value_panelRequest, if_neg hne]
  rfl

/-- The line of panels. -/
def line (layout : LayoutConfig) (active : ComponentId) (members : List Member) :
    List (Box.Request Float) :=
  members.map fun m => (panelRequest layout (some active) m).value

/-- The active panel alone shares leftover space. -/
theorem exists_sole (layout : LayoutConfig) {members : List Member}
    (hnodup : (members.map Member.id).Nodup) (hmem : active ∈ members.map Member.id) :
    ∃ m ∈ members, m.id = active ∧ ((line layout active members).filter fun r =>
      r.isFlexed .vertical) = [(panelRequest layout (some active) m).value] := by
  have hids : (members.filter fun m => decide (m.id = active)).map Member.id = [active] := by
    have hsole := @List.filter_eq _ _ _ _ (members.map Member.id) active
    rw [List.count_eq_one_of_mem hnodup hmem, List.filter_map] at hsole
    exact hsole
  obtain ⟨m, hm, hid⟩ := List.map_eq_singleton_iff.1 hids
  refine ⟨m, (List.mem_filter.1 (hm ▸ List.mem_singleton_self m)).1, hid, ?_⟩
  have hsame : (members.filter ((fun r : Box.Request Float => r.isFlexed .vertical) ∘
      fun m => (panelRequest layout (some active) m).value)) = [m] := by
    rw [← hm]
    exact List.filter_congr fun m _ => isFlexed_panelRequest layout active m
  rw [line, List.filter_map, hsame, List.map_singleton]

/-- A weight of one shares all of the space with itself. -/
theorem share_sole {n : Int} (hn : 0 ≤ n) (hshare : Box.flexShare n 1 1 = n) :
    Weight.share n (1 : Float) (Weight.add Weight.zero 1) = n := by
  show max (Box.flexShare n 1 (0 + 1)) 0 = n
  rw [show (0 : Float) + 1 = 1 from rfl, hshare]
  omega

end Accordion

/-- What an accordion leaves of its panels: all but the active one have the height of a header, and
if the least height of the active one fits, they fill the height `inner`. A negative least height
fits even where the headers alone are too high; then they take what they need. -/
structure Tree.Expands (t : Tree) (layout : LayoutConfig) (container : ComponentId)
    (active : ComponentId) (inner : Int) : Prop where
  reduced : ∀ i ∈ t.visibleChildren container, i ≠ active → t.height i = max layout.headerHeight 0
  fills : active ∈ t.visibleChildren container → (∀ n, 0 ≤ n → n ≤ inner → Box.flexShare n 1 1 = n) →
    ∀ c, t.config? active = some c → c.maxHeight = none →
    t.stacked layout container (Accordion.heights layout active (c.minHeight.getD 0)) ≤ inner →
    t.stacked layout container t.height =
        max inner (t.stacked layout container (Accordion.heights layout active 0)) ∧
      (0 ≤ c.minHeight.getD 0 → t.stacked layout container t.height = inner)

theorem Tree.stacked_mono {t : Tree} {f g : ComponentId → Int} (h : ∀ i, f i ≤ g i)
    (layout : LayoutConfig) (container : ComponentId) :
    t.stacked layout container f ≤ t.stacked layout container g :=
  List.sum_le_sum fun i _ => Int.add_le_add_right (h i) _

/-! ## One layout -/

section

variable {t : Tree} {layout : LayoutConfig} {container active : ComponentId}
  {members : List Member} {target : Size} {solution : Box.Solution}
  (hids : members.map Member.id = t.visibleChildren container)
  (hconfig : ∀ m ∈ members, t.config? m.id = some m.config)

include hids hconfig

/-- Sums over the panels are sums over what the layout sees of them. -/
theorem Tree.stacked_eq (active : ComponentId) (heights : ComponentId → Int) :
    t.stacked layout container heights = (members.map fun m => heights m.id +
      (Accordion.panelRequest layout (some active) m).value.mainMargin .vertical).sum := by
  rw [stacked, ← hids, List.map_map]
  refine congrArg List.sum (List.map_congr_left fun m hm => ?_)
  rw [Accordion.mainMargin_panelRequest, Function.comp_apply, marginsAround, hconfig m hm]
  rfl

theorem Accordion.unshared_line : Box.unshared .vertical (line layout active members) =
    t.stacked layout container (heights layout active 0) := by
  rw [Tree.stacked_eq hids hconfig active, Box.unshared, line, List.map_map]
  refine congrArg List.sum (List.map_congr_left fun m _ => ?_)
  rw [Function.comp_apply, isFlexed_panelRequest, Int.add_comm, heights]
  by_cases h : m.id = active
  · rw [if_pos h, if_pos (decide_eq_true h)]
  · rw [if_neg h, if_neg (by simp [h]), resolvedMain_panelRequest h]

theorem Accordion.floors_line {c : ItemConfig} (hc : t.config? active = some c) :
    ((line layout active members).map fun r => r.floorMain .vertical + r.mainMargin .vertical).sum =
      t.stacked layout container (heights layout active (c.minHeight.getD 0)) := by
  rw [Tree.stacked_eq hids hconfig active, line, List.map_map]
  refine congrArg List.sum (List.map_congr_left fun m hm => ?_)
  rw [Function.comp_apply, floorMain_panelRequest, heights, heights]
  by_cases h : m.id = active
  · obtain rfl : m.config = c := Option.some.inj ((hconfig m hm).symm.trans (h ▸ hc))
    rfl
  · rw [if_neg h, if_neg h]

theorem Accordion.used_line {used : Int}
    (hheights : (members.map fun m => t.height m.id) = solution.rects.map Rect.height)
    (h : solution.usedMain .vertical (line layout active members) = .ok used) :
    used = t.stacked layout container t.height := by
  have hlength : (members.map fun m => t.height m.id).length =
      (line layout active members).length := by
    rw [line, List.length_map, List.length_map]
  have hused : Box.used .vertical (line layout active members)
      (members.map fun m => t.height m.id) = .ok used := by
    rw [hheights]
    exact h
  rw [Box.used_eq_ok hlength hused, ← Box.sum_outer_zip hlength, line, List.zip_map', List.map_map,
    Tree.stacked_eq hids hconfig active]
  rfl

theorem Tree.stacked_heights_nonneg :
    0 ≤ t.stacked layout container (Accordion.heights layout active 0) := by
  rw [stacked_eq hids hconfig active]
  refine List.sum_nonneg fun n hn => ?_
  obtain ⟨m, -, rfl⟩ := List.mem_map.1 hn
  have hmargins := m.config.nonneg_marginSides layout
  have := hmargins.top
  have := hmargins.bottom
  rw [Accordion.mainMargin_panelRequest, Accordion.heights]
  split <;> omega

variable (hline : Box.solve (Accordion.line layout active members)
    { axis := .vertical, available := target, pack := .start, align := .stretch
      padding := layout.paddingSides } = .ok solution)
  (hheights : (members.map fun m => t.height m.id) = solution.rects.map Rect.height)

include hline hheights

omit hids hconfig in
theorem Accordion.height_of_reduced {m : Member} (hm : m ∈ members) (hne : m.id ≠ active) :
    t.height m.id = max layout.headerHeight 0 := by
  have hboxes : line layout active members ≠ [] := by
    rw [line]
    simpa using List.ne_nil_of_mem hm
  obtain ⟨inner, _, -, -, hmains, -⟩ := Box.mains_of_solve hboxes hline
  have hpair : (t.height m.id, (panelRequest layout (some active) m).value) ∈
      (solution.rects.map Rect.height).zip (line layout active members) := by
    rw [← hheights, line, List.zip_map']
    exact List.mem_map_of_mem hm
  rw [← resolvedMain_panelRequest hne]
  refine Box.resolvedMain_of_mains hmains hpair ?_ (least?_panelRequest hne)
  exact (isFlexed_panelRequest layout active m).trans (decide_eq_false hne)

/-- The panels take what there is, or what the headers take if that is more. -/
theorem Accordion.stacked_of_fitting {inner : Int} (hnodup : (members.map Member.id).Nodup)
    (hmem : active ∈ members.map Member.id)
    (hinner : inner = max (target.height - (layout.paddingSides.top + layout.paddingSides.bottom)) 0)
    (hshare : ∀ n, 0 ≤ n → n ≤ inner → Box.flexShare n 1 1 = n) {c : ItemConfig}
    (hc : t.config? active = some c) (hcap : c.maxHeight = none)
    (hfits : t.stacked layout container (heights layout active (c.minHeight.getD 0)) ≤ inner) :
    t.stacked layout container t.height =
      max inner (t.stacked layout container (heights layout active 0)) := by
  obtain ⟨m, hm, hid, hsole⟩ := exists_sole layout hnodup hmem
  obtain rfl : m.config = c := Option.some.inj ((hconfig m hm).symm.trans (hid ▸ hc))
  have hexpanded : (panelRequest layout (some active) m).value =
      expanded (m.request layout).value := by
    rw [value_panelRequest, if_pos hid]
  rw [hexpanded] at hsole
  have hboxes : line layout active members ≠ [] := by
    rw [line]
    simpa using List.ne_nil_of_mem hm
  obtain ⟨_, used, hlength, -, -, hused⟩ := Box.mains_of_solve hboxes hline
  obtain rfl := hinner.trans (Box.Space.innerMain_eq_ok hlength).symm
  have hunshared : Box.unshared .vertical (line layout active members) =
      t.stacked layout container (heights layout active 0) :=
    unshared_line hids hconfig
  have hfixed : ∀ r ∈ line layout active members, r.isFlexed .vertical = false →
      (r.mainBounds .vertical).least? = none := by
    intro r hr hopen
    obtain ⟨other, -, rfl⟩ := List.mem_map.1 hr
    refine least?_panelRequest fun heq => ?_
    rw [isFlexed_panelRequest, decide_eq_true heq] at hopen
    cases hopen
  have hpool : max (inner - Box.unshared .vertical (line layout active members)) 0 ≤ inner := by
    have hnonneg : 0 ≤ t.stacked layout container (heights layout active 0) :=
      Tree.stacked_heights_nonneg hids hconfig
    have := Box.innerMain_nonneg hlength
    omega
  have htotal := Box.solve_expands hlength hsole hfixed hcap
    (share_sole (Int.le_max_right ..) (hshare _ (Int.le_max_right ..) hpool)) hline
    ((floors_line hids hconfig hc).trans_le hfits)
  rw [hused] at htotal
  cases htotal
  rw [← used_line hids hconfig hheights hused, hunshared]

/-- The heights of a line of panels. -/
theorem Tree.expands_of_line (hnodup : (members.map Member.id).Nodup) :
    t.Expands layout container active
      (max (target.height - (layout.paddingSides.top + layout.paddingSides.bottom)) 0) := by
  refine ⟨fun i hi hne => ?reduced, fun hmem hshare c hc hcap hfits => ?fills⟩
  case reduced =>
    obtain ⟨m, hm, rfl⟩ := List.mem_map.1 (hids ▸ hi)
    exact Accordion.height_of_reduced hline hheights hm hne
  case fills =>
    have htotal := Accordion.stacked_of_fitting hids hconfig hline hheights hnodup (hids ▸ hmem) rfl
      hshare hc hcap hfits
    refine ⟨htotal, fun hmin => ?_⟩
    have hle : t.stacked layout container (Accordion.heights layout active 0) ≤
        t.stacked layout container (Accordion.heights layout active (c.minHeight.getD 0)) := by
      refine Tree.stacked_mono (fun i => ?_) layout container
      unfold Accordion.heights
      split <;> omega
    omega

end

/-! ## Passes -/

/-- Children that are placed have the heights of their rectangles. -/
theorem Tree.map_height_of_shows {u : Tree} {ids : List ComponentId} {rects : List Rect}
    (hlength : rects.length = ids.length) (hknown : ∀ i ∈ ids, (u.get? i).isSome = true)
    (h : u.Shows ((ids.zip rects).map fun (id, rect) => ⟨id, rect⟩)) :
    ids.map u.height = rects.map Rect.height := by
  induction ids generalizing rects with
  | nil =>
    rw [List.length_eq_zero_iff.1 hlength]
    rfl
  | cons i ids ih =>
    cases rects with
    | nil => cases hlength
    | cons rect rects =>
      obtain ⟨c, hc⟩ := Option.isSome_iff_exists.1 (hknown i (by simp))
      have hrect : u.height i = rect.height := by
        rw [height, hc]
        exact congrArg Rect.height (h ⟨i, rect⟩ (by simp) c hc).2
      rw [List.map_cons, List.map_cons, hrect]
      refine congrArg _ (ih (by simpa using hlength) (fun j hj => hknown j (by simp [hj])) ?_)
      exact fun p hp => h p (by simp only [List.zip_cons_cons, List.map_cons]; exact .tail _ hp)

namespace Scene

variable {s s' t u : Scene} {layout : LayoutConfig} {c d : ComponentId}
  {active : Option ComponentId} {r : Except LayoutError Unit}

/-- What a layout leaves of an accordion is still there when the containers among its panels have
been laid out. -/
theorem expands_of_accordion (hlinked : s.tree.Linked)
    (h : s.run (Accordion.arrange layout c active) = .ok (r, t))
    (hagree : t.Agree (t.tree.Near c) (· = c) s') (hshown : s'.tree.visibleChildren c ≠ []) :
    ∃ child target, s'.activeItem c = some child ∧
      chooseActive (s'.tree.visibleChildren c) active (s'.tree.resolve c layout.activeItem) =
        some child ∧
      s.host.targetSize s.tree c = .ok target ∧
      s'.tree.Expands layout c child
        (max (target.height - (layout.paddingSides.top + layout.paddingSides.bottom)) 0) := by
  have htouches := touches_accordion h
  obtain ⟨solution, hline, -, hplaces⟩ := run_accordion_eq_ok h
  have hshape := htouches.tree.toSameShape.trans hagree.tree.toSameShape
  have hvisible : s.tree.visibleChildren c = s'.tree.visibleChildren c := by
    rw [← hagree.visibleChildren_eq]
    unfold Tree.visibleChildren
    rw [hplaces.isVisible_eq, htouches.children_eq]
  have hchosen : s.activePanel layout c active =
      chooseActive (s'.tree.visibleChildren c) active (s'.tree.resolve c layout.activeItem) := by
    rw [activePanel, hvisible, hshape.resolve_eq]
  obtain ⟨child, hchild⟩ :=
    exists_chooseActive hshown active (s'.tree.resolve c layout.activeItem)
  rw [hchosen, hchild] at hline hplaces
  obtain ⟨members, hmembers, hline⟩ := Length.bind_eq_ok.1 hline
  obtain ⟨target, htarget, hline⟩ := Length.bind_eq_ok.1 hline
  have hids := ids_members hmembers
  have hkept : s'.activeItem c = some child := by
    rw [activeItem, ← hagree.kept c rfl, hplaces.kept]
    simp [Arrangement.active?]
  refine ⟨child, target, hkept, hchild, htarget, ?_⟩
  have hnodup : (members.map Member.id).Nodup := hids ▸ hlinked.nodup_visibleChildren c
  have hconfig : ∀ m ∈ members, s'.tree.config? m.id = some m.config := fun m hm => by
    rw [← hshape.config?_eq]
    exact (eq_of_mem_members hmembers hm).2.1
  refine Tree.expands_of_line (hids.trans hvisible) hconfig hline ?_ hnodup
  have hboxes : members ≠ [] := by
    rintro rfl
    exact hshown (hvisible ▸ hids.symm)
  have hlength : solution.rects.length = members.length := by
    obtain ⟨_, _, -, -, hmains, -⟩ := Box.mains_of_solve (by simpa using hboxes) hline
    simpa using Box.length_mains hmains
  -- the rectangles are those of the layout: what a later pass changes of a child is a mark at most
  have hplacements := ids_panelPlacements s c solution
  have hshows : s'.tree.Shows (s.panelPlacements c solution) := by
    have hlaid : t.tree.Shows (s.panelPlacements c solution) := by
      rw [hplaces.tree]
      exact Tree.shows_applyPlacements (hplacements.nodup (hlinked.nodup_visibleChildren c)) s.tree
    refine hlaid.of_agree hagree.tree fun id hid => .inr ?_
    rw [htouches.children_eq]
    exact mem_children_of_visible (hplacements.subset hid)
  have hknown : ∀ i ∈ members.map Member.id, (s'.tree.get? i).isSome = true := fun i hi => by
    obtain ⟨m, hm, rfl⟩ := List.mem_map.1 hi
    obtain ⟨x, hx, -⟩ := Option.map_eq_some_iff.1 (hconfig m hm)
    rw [hx, Option.isSome_some]
  rw [panelPlacements, ← hids] at hshows
  have hheights := Tree.map_height_of_shows (by simpa using hlength) hknown hshows
  rwa [List.map_map] at hheights

end Scene

theorem Arrangement.eq_accordion_of_kind {x : Arrangement} (h : x.kind = .accordion) :
    x = .accordion x.active? := by
  cases x with
  | accordion active => rfl
  | anchored a => cases hmode : a.mode <;> simp [kind, hmode] at h
  | linear l => cases haxis : l.axis <;> simp [kind, haxis] at h
  | _ => cases h

/-- In the course of any pass, the accordion `c` is laid out and has a visible panel. Then one panel
is active: the one that was, if it is visible, else the one in the settings, else the first visible
one. So it is hidden if the panel that was active is gone or hidden and the settings name a hidden
one. All other visible panels have the height of a header, and the active one, if it is visible,
takes what they leave. -/
theorem accordion_expands_active {s s' u : Scene} {c d : ComponentId} {layout : LayoutConfig}
    {r : Except LayoutError Unit} (hforest : s.tree.Forest)
    (hlayout : s.tree.layout? c = some layout) (hkind : layout.kind = .accordion)
    (hrun : s.run (Step.pass d) = .ok (r, s')) (hbegins : s.Begins d u c)
    (hheard : u.vetoes c = false) (hshown : s'.tree.visibleChildren c ≠ []) :
    ∃ active target, s'.activeItem c = some active ∧
      chooseActive (s'.tree.visibleChildren c) (u.arrangement layout c).active?
        (s'.tree.resolve c layout.activeItem) = some active ∧
      (active ∈ s'.tree.visibleChildren c ↔
        (∃ a ∈ (u.arrangement layout c).active?, a ∈ s'.tree.visibleChildren c) ∨
          ∀ i ∈ s'.tree.resolve c layout.activeItem, i ∈ s'.tree.visibleChildren c) ∧
      u.host.targetSize (u.tree.renderChildren c) c = .ok target ∧
      s'.tree.Expands layout c active
        (max (target.height - (layout.paddingSides.top + layout.paddingSides.bottom)) 0) := by
  obtain ⟨r₁, laid, hopens, hagree⟩ := hbegins.laidOut hforest hlayout hheard hrun
  have harranged := hopens.arranged
  rw [Arrangement.eq_accordion_of_kind ((u.kind_arrangement layout c).trans hkind)] at harranged
  have hlinked : (u.begun layout c).tree.Linked :=
    (hbegins.undisturbed.trans (Scene.undisturbed_begun u layout c)).shape.linked hforest.toLinked
  obtain ⟨active, target, hactive, hchosen, htarget, hexpands⟩ :=
    Scene.expands_of_accordion hlinked harranged hagree hshown
  refine ⟨active, target, hactive, hchosen, chooseActive_mem_iff hchosen, ?_, hexpands⟩
  rw [Scene.begun, Scene.ready] at htarget
  simpa using htarget

section

private def drawerLayout (setting : Nat) : LayoutConfig :=
  { kind := .accordion, headerHeight := 10, activeItem := some (.position setting) }

/-- Three panels, the last of which is hidden. -/
private def drawers (setting : Nat) : Scene :=
  .ofTree ((Tree.ofDescription (.node { layout := some (drawerLayout setting) }
    [.node {} [], .node { minHeight := some 20 } [], .node { hidden := true } []])).applyRect 0
      ⟨0, 0, 50, 60⟩) .standard

/-- The second panel fills what the first one leaves of 60 pixels. If the settings name the hidden
panel, it is active, and the two others are reduced to their headers. -/
theorem hidden_setting_expands_nothing :
    (∃ s' r, (drawers 1).run (Step.pass 0) = .ok (r, s') ∧ s'.activeItem 0 = some 2 ∧
      s'.tree.stacked (drawerLayout 1) 0 s'.tree.height = 60) ∧
    ∃ s' r, (drawers 2).run (Step.pass 0) = .ok (r, s') ∧ s'.activeItem 0 = some 3 ∧
      s'.tree.visibleChildren 0 = [1, 2] ∧ ∀ i ∈ [1, 2], s'.tree.height i = 10 := by
  have hforest : ∀ setting, (drawers setting).tree.Forest := fun setting =>
    (Tree.sameShape_applyRect _ 0 _).forest (Tree.nested_ofDescription _).forest
  refine ⟨?visible, ?hidden⟩
  case visible =>
    obtain ⟨_, s', hrun, hview⟩ := Scene.run_of_viewAfter
      (show (drawers 1).viewAfter (Step.pass 0) (fun s' =>
          (s'.activeItem 0, s'.tree.visibleChildren 0,
            s'.tree.stacked (drawerLayout 1) 0 (Accordion.heights (drawerLayout 1) 2 20))) =
        some (some 2, [1, 2], 30) by decide +kernel)
    simp only [Prod.mk.injEq] at hview
    obtain ⟨hactive, hpanels, hleast⟩ := hview
    have hshape := Scene.undisturbed_pass hrun
    have hc : s'.tree.config? 2 = some { minHeight := some 20 } := by
      rw [← hshape.shape.config?_eq]
      rfl
    obtain ⟨active, target, hsome, -, -, htarget, hexpands⟩ :=
      @accordion_expands_active (drawers 1) s' (drawers 1) 0 0 (drawerLayout 1) _ (hforest 1) rfl rfl
        hrun (.self ⟨rfl, rfl⟩ _) rfl (by rw [hpanels]; decide)
    obtain rfl : 2 = active := Option.some.inj (hactive.symm.trans hsome)
    obtain rfl : ⟨50, 60⟩ = target := Except.ok.inj htarget
    have hall : ∀ n : Fin 61, Box.flexShare n.val 1 1 = n.val := by decide +kernel
    have hshare : ∀ n : Int, 0 ≤ n → n ≤ 60 → Box.flexShare n 1 1 = n := fun n hn hle => by
      have := hall ⟨n.toNat, by omega⟩
      rwa [Int.toNat_of_nonneg hn] at this
    have hfills := hexpands.fills (by rw [hpanels]; decide) hshare _ hc rfl
      (hleast.trans_le (by decide))
    exact ⟨s', _, hrun, hactive, hfills.2 (by decide)⟩
  case hidden =>
    obtain ⟨_, s', hrun, hview⟩ := Scene.run_of_viewAfter
      (show (drawers 2).viewAfter (Step.pass 0) (fun s' =>
          (s'.activeItem 0, s'.tree.visibleChildren 0)) = some (some 3, [1, 2]) by decide +kernel)
    obtain ⟨hactive, hpanels⟩ := Prod.mk.inj hview
    obtain ⟨active, target, hsome, -, -, -, hexpands⟩ :=
      @accordion_expands_active (drawers 2) s' (drawers 2) 0 0 (drawerLayout 2) _ (hforest 2) rfl rfl
        hrun (.self ⟨rfl, rfl⟩ _) rfl (by rw [hpanels]; decide)
    obtain rfl : 3 = active := Option.some.inj (hactive.symm.trans hsome)
    refine ⟨s', _, hrun, hactive, hpanels, fun i hi => ?_⟩
    refine hexpands.reduced i (by rwa [hpanels]) ?_
    rintro rfl
    exact absurd hi (by decide)

end

end Trellis
