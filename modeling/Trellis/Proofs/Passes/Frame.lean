import Trellis.Proofs.Histories.Passes
import Trellis.Proofs.Passes.Levels

/-!
# A pass stays inside its container

What layouts remember from earlier passes, they check against the children that the container has
now, before they write to them: active children, anchors, regions and the items that a handler has
hidden. So the layout of a container writes to its children only, whatever is kept for it, and a
pass to what lies in its container.

* `spares_arrange`: the layout of a container spares all but its children, for each kind of layout.
* `layout_stays_inside`: what a pass changes, however it ends.
-/
namespace Trellis

namespace Scene

variable {s s' t u mid : Scene} {layout : LayoutConfig} {container : ComponentId}
  {r : Except LayoutError Unit}

/-! ## The layout of a container -/

/-- Only children of `container` are written to. -/
def SparesOthers (container : ComponentId) (s s' : Scene) : Prop :=
  s.tree.Spares (· ∉ s.tree.children container) s'.tree

theorem SparesOthers.trans (h : SparesOthers container s t) (h' : SparesOthers container t u) :
    SparesOthers container s u := by
  have hchildren := congrFun (Tree.Spares.toSameShape h).children_eq container
  unfold SparesOthers at h'
  rw [← hchildren] at h'
  exact Tree.Spares.trans h h'

theorem SparesOthers.children_eq (h : SparesOthers container s t) :
    t.tree.children container = s.tree.children container :=
  (congrFun (Tree.Spares.toSameShape h).children_eq container).symm

theorem SparesOthers.of_tree_eq (h : t.tree = s.tree) : SparesOthers container s t := by
  unfold SparesOthers
  rw [h]
  exact .refl _ s.tree

theorem Places.spares {placements : List Placement} (h : s.Places s' placements)
    (hids : ∀ id ∈ placements.map Placement.id, id ∈ s.tree.children container) :
    SparesOthers container s s' := by
  unfold SparesOthers
  rw [h.tree]
  exact s.tree.spares_applyPlacements fun id hid hnot => hnot (hids id hid)

theorem spares_placing {place : Rect → List Framed → Checked (List Placement)}
    (hplace : ∀ content framed placements, place content framed = .ok placements →
      placements.map Placement.id = framed.map fun f => f.member.id)
    (h : s.run (Step.placing layout container place) = .ok (r, s')) :
    SparesOthers container s s' := by
  obtain ⟨content, framed, placements, -, hframed, hplaced, -, hplaces⟩ := run_placing_eq_ok h
  refine hplaces.spares fun id hid => ?_
  rw [hplace _ _ _ hplaced, ids_framed hframed] at hid
  exact mem_children_of_visible hid

theorem spares_fill {child : ComponentId} (hchild : child ∈ s.tree.children container)
    (h : s.run (Fill.fill layout container child) = .ok (r, s')) :
    SparesOthers container s s' := by
  obtain ⟨_, _, placement, -, -, -, rfl, -, hplaces⟩ := run_fill_eq_ok h
  refine hplaces.spares fun id hid => ?_
  rw [List.map_singleton, List.mem_singleton] at hid
  rwa [hid]

theorem spares_fit (h : s.run (Fill.arrange layout container) = .ok (r, s')) :
    SparesOthers container s s' := by
  rw [run_fit] at h
  split at h
  · cases h
    exact .of_tree_eq rfl
  · next child rest hvisible =>
    exact spares_fill (mem_children_of_visible (by rw [hvisible]; simp)) h

theorem spares_dealt (s : Scene) (container : ComponentId) (active : Option ComponentId) :
    SparesOthers container s (s.dealt container active) :=
  s.tree.spares_setHiddens fun _ hid hnot => hnot hid

/-- The active card that is remembered is a child, or it is not active any more. -/
theorem spares_cards {active : Option ComponentId} (hlinked : s.tree.Linked)
    (h : s.run (Fill.arrangeCards layout container active) = .ok (r, s')) :
    SparesOthers container s s' := by
  rw [run_cards] at h
  split at h
  · next card hcard =>
    have hdealt := spares_dealt s container (some card)
    refine hdealt.trans (spares_fill ?_ h)
    rw [hdealt.children_eq]
    exact activeCard_mem hlinked hcard
  · cases h
    exact spares_dealt s container none

theorem spares_columns (h : s.run (Columns.arrange layout container) = .ok (r, s')) :
    SparesOthers container s s' := by
  obtain ⟨mid, hfirst, hrest⟩ := run_columns_rounds h
  have hplaced := spares_placing (fun _ _ _ => Columns.ids_placeRow) hfirst
  rcases hrest with ⟨-, rfl⟩ | hsecond
  · exact hplaced
  · exact hplaced.trans (spares_placing (fun _ _ _ => Columns.ids_placeRow) hsecond)

theorem spares_accordion {active : Option ComponentId}
    (h : s.run (Accordion.arrange layout container active) = .ok (r, s')) :
    SparesOthers container s s' := by
  obtain ⟨solution, -, -, hplaces⟩ := run_accordion_eq_ok h
  exact hplaces.spares fun id hid =>
    mem_children_of_visible ((ids_panelPlacements s container solution).subset hid)

theorem spares_anchoredPass {a : Anchored} {r : Except LayoutError Anchored}
    (h : s.run (Anchored.pass layout container a) = .ok (r, s')) :
    SparesOthers container s s' := by
  obtain ⟨content, sized, members, b, placed, hanchors, -⟩ := run_anchoredPass_eq_ok h
  unfold SparesOthers
  rw [hanchors.tree]
  refine Anchored.spares_applyAll s.tree fun id hid hnot => hnot ?_
  rw [(Anchored.leaves_placeFrom hanchors.placed_eq).ids, ids_members hanchors.members_eq] at hid
  exact mem_children_of_visible hid

theorem spares_anchored {a : Anchored} (h : s.run (a.arrange layout container) = .ok (r, s')) :
    SparesOthers container s s' := by
  obtain ⟨-, b, mid, hfirst, rfl | ⟨b', hsecond⟩⟩ := run_anchored_rounds h
  · exact spares_anchoredPass hfirst
  · exact (spares_anchoredPass hfirst).trans (spares_anchoredPass hsecond)

/-- Regions are picked up anew, so what is hidden and placed are children. -/
theorem spares_border {b : Border}
    (h : s.run (Step.arrangeBorder layout container b) = .ok (r, s')) :
    SparesOthers container s s' := by
  obtain ⟨slots, mid, hslots, hsync, hlays⟩ := run_arrangeBorder_eq_ok h
  have hpicked : SparesOthers container s mid := by
    unfold SparesOthers
    rw [hsync.tree]
    refine s.tree.spares_setHiddens fun id hid hnot => hnot ?_
    obtain ⟨e, slot, hslot, -, rfl⟩ := Border.mem_slots_of_hidden hid
    exact (of_mem_slots hslots hslot).1
  rcases hlays with ⟨-, -, rfl⟩ | ⟨-, after, placements, hlaid⟩
  · exact hpicked
  · refine hpicked.trans ?_
    unfold SparesOthers
    rw [hlaid.tree]
    exact mid.tree.spares_applyPlacements fun id hid hnot =>
      hnot (hlaid.mem_children hslots hsync hid)

/-- A handler forgets hidden items that are no children any more, and hides only what is in the
line. -/
theorem spares_linear {l : Linear} (h : s.run (Lines.arrange layout container l) = .ok (r, s')) :
    SparesOthers container s s' := by
  cases hoverflow : l.overflow with
  | none =>
    obtain ⟨-, target, first, placements, -, hfirst, hplace, hplaces, -⟩ :=
      run_linear_of_none hoverflow h
    obtain ⟨_, -, -, hitems⟩ := line_eq_ok hfirst
    refine hplaces.spares fun id hid => ?_
    have hvisible := (ids_place hplace).subset hid
    rw [hitems] at hvisible
    exact mem_children_of_visible hvisible
  | some handler =>
    obtain ⟨-, target, first, next, outcome, _, _, _, hhandles⟩ :=
      run_linear_of_handler hoverflow h
    have hreacted : SparesOthers container s (s.reacted container l next outcome) := by
      obtain ⟨hhide, hreveal⟩ := Box.Handler.react_mem hhandles.react_eq
      obtain ⟨_, -, -, hitems⟩ := line_eq_ok hhandles.first_eq
      rw [hitems] at hhide
      have hhidden : s.tree.Spares (fun i => i ∉ s.tree.children container)
          (outcome.hide.foldl (fun t id => t.setHidden id true) s.tree) :=
        s.tree.spares_setHiddens fun id hid hnot => hnot (mem_children_of_visible (hhide id hid))
      exact hhidden.trans (Tree.spares_setHiddens _ fun id hid hnot =>
        hnot (Box.Handler.mem_hiddenItems_retain.1 (hreveal id hid)).2)
    refine hreacted.trans (hhandles.places.spares fun id hid => ?_)
    rw [hreacted.children_eq]
    exact hhandles.ids_sublist.subset hid

theorem spares_arrange {a : Arrangement} (hlinked : s.tree.Linked)
    (h : s.run (Step.arrange layout container a) = .ok (r, s')) : SparesOthers container s s' := by
  cases a with
  | auto => exact spares_placing (fun _ _ _ => Stack.ids_place) h
  | fit => exact spares_fit h
  | column => exact spares_columns h
  | table => exact spares_placing (fun _ _ _ => Table.ids_placeAll) h
  | card active => exact spares_cards hlinked h
  | accordion active => exact spares_accordion h
  | anchored a => exact spares_anchored h
  | border b => exact spares_border h
  | linear l => exact spares_linear h

/-! ## Passes -/

/-- What is changed of the tree is in one of `containers`, but not one of them; what is kept anew is
for one of them or for containers in them. -/
structure StaysInside (containers : List ComponentId) (s s' : Scene) : Prop where
  tree : s.tree.Spares (fun i => ∀ c ∈ containers, s.tree.Inside c i → i = c) s'.tree
  kept : ∀ i, ¬ s.tree.Within containers i → s'.kept.get? i = s.kept.get? i

variable {containers : List ComponentId} {n : Nat}

theorem StaysInside.refl (containers : List ComponentId) (s : Scene) :
    StaysInside containers s s :=
  ⟨.refl _ s.tree, fun _ _ => rfl⟩

/-- The layout of a container in one of `containers`. -/
theorem StaysInside.of_children {d : ComponentId} (h : StaysInside containers s t)
    (hforest : s.tree.Forest) (hd : s.tree.Within containers d) (htree : SparesOthers d t u)
    (hkept : ∀ i, i ≠ d → u.kept.get? i = t.kept.get? i) : StaysInside containers s u := by
  have hshape := h.tree.toSameShape
  obtain ⟨c, hc, hd⟩ := hd
  refine ⟨h.tree.trans (htree.mono fun i hi hmem => ?_), fun i hi => ?_⟩
  · -- a child of `d` is in `c`, and it is not `c`, as `d` is in `c`
    rw [← hshape.children_eq, hforest.mem_children] at hmem
    obtain rfl : i = c := hi c hc (.head hmem hd)
    exact hforest.not_inside_child hmem hd
  · rw [hkept i, h.kept i hi]
    rintro rfl
    exact hi ⟨c, hc, hd⟩

theorem preserved_inside (hforest : s.tree.Forest) (containers : List ComponentId) :
    Preserved (s.tree.Within containers) (StaysInside containers s) := by
  constructor
  case silent =>
    intro t u hsilent ht
    refine ⟨?_, fun i hi => ?_⟩
    · rw [hsilent.tree]
      exact ht.tree
    · rw [hsilent.kept]
      exact ht.kept i hi
  case down =>
    intro t d ht ⟨c, hc, hd⟩ x hx
    rw [← ht.tree.toSameShape.children_eq, hforest.mem_children] at hx
    exact ⟨c, hc, .head hx hd⟩
  case ready =>
    intro t d layout ht hd _
    exact ht.of_children hforest hd (t.tree.spares_renderChildren d) fun i hi => by
      rw [kept_ready (.refl t), if_neg hi]
  case arrange =>
    intro t u d layout a r ht hd _ _ _ hrun
    have hlinked := ht.tree.toSameShape.linked hforest.toLinked
    exact ht.of_children hforest hd (spares_arrange hlinked hrun)
      (Step.writesOnly_arrange layout a hrun).others

theorem staysInside_forM (hforest : s.tree.Forest)
    (h : s.run (containers.forM (Step.passOver n)) = .ok (r, s')) :
    StaysInside containers s s' :=
  (preserved_inside hforest containers).of_forM (fun x hx => ⟨x, hx, s.tree.inside_self x⟩)
    (.refl containers s) h

theorem staysInside_passes (hforest : s.tree.Forest)
    (h : s.run (containers.forM Step.pass) = .ok (r, s')) : StaysInside containers s s' :=
  (preserved_inside hforest containers).of_passes (fun x hx => ⟨x, hx, s.tree.inside_self x⟩)
    (.refl containers s) h

/-- A container that is in none of `containers` is left as it is, and so are its children. -/
theorem StaysInside.agree_near {x : ComponentId} (h : StaysInside containers s s')
    (hforest : s.tree.Forest) (hsame : Undisturbed s s') (hout : ¬ s.tree.Within containers x) :
    s.Agree (s.tree.Near x) (· = x) s' := by
  refine ⟨hsame.host.symm, ⟨hsame.shape, fun i hi => congrArg _ ?_⟩, ?_⟩
  · refine (h.tree.same i fun c hc hin => ?_).symm
    rcases hi with rfl | hchild
    · exact absurd ⟨c, hc, hin⟩ hout
    · rcases Relation.ReflTransGen.cases_head hin with heq | ⟨p, hp, hin⟩
      · exact heq
      · rw [(hforest.mem_children x i).1 hchild, Option.some.injEq] at hp
        exact absurd ⟨c, hc, hp ▸ hin⟩ hout
  · rintro i rfl
    exact (h.kept i hout).symm

theorem staysInside_passWithin (hforest : s.tree.Forest)
    (h : s.run (Step.passWithin n container) = .ok (r, s')) : StaysInside [container] s s' :=
  (preserved_inside hforest [container]).of_passWithin
    ((s.tree.within_singleton container container).2 (s.tree.inside_self container))
    (.refl [container] s) h

/-- A pass over a container changes the state of what is in the container only, no settings and no
places in the tree, keeps layouts for the container and for what is in it only, and gives up the
container's own request. That holds however the pass ends, and whatever is kept at first. -/
theorem layout_stays_inside (hforest : s.tree.Forest)
    (h : s.run (Step.layout container) = .ok (r, s')) :
    s.tree.SameShape s'.tree ∧
      (∀ i, s'.tree.get? i ≠ s.tree.get? i → s.tree.Inside container i ∧ i ≠ container) ∧
      (∀ i, s'.kept.get? i ≠ s.kept.get? i →
        s.tree.Inside container i ∧ (s'.kept.get? i).isSome) ∧
      ∀ i, s'.timers.get? i =
        if i = container then (s.timers.get? i).map Debounce.cancel else s.timers.get? i := by
  have hinside : StaysInside [container] s s' := by
    rw [run_layout, run_pass] at h
    obtain ⟨htree, hkept⟩ := staysInside_passWithin (s := s.relieved container) hforest h
    exact ⟨htree, hkept⟩
  have hpass := undisturbed_pass (run_layout s container ▸ h)
  refine ⟨hinside.tree.toSameShape, fun i hi => ?_, fun i hi => ?_, fun i => ?_⟩
  · by_contra hnot
    refine hi (hinside.tree.same i fun c hc hin => ?_)
    rw [List.mem_singleton] at hc
    subst hc
    by_contra hne
    exact hnot ⟨hin, hne⟩
  · refine ⟨?_, ?_⟩
    · by_contra hnot
      refine hi (hinside.kept i ?_)
      rwa [Tree.within_singleton]
    · cases hafter : s'.kept.get? i with
      | some a => rfl
      | none =>
        -- nothing that was kept is lost
        have hbefore : s.kept.get? i ≠ none := fun hnone => hi (by rw [hafter, hnone])
        have hkeeps := hpass.keeps i (Option.isSome_iff_ne_none.2 hbefore)
        rw [hafter] at hkeeps
        cases hkeeps
  · rw [hpass.timers]
    exact IdMap.get?_modify ..

section

/-- A page and a pane beside it. The page still knows the pane as a collapsed region of its own,
from a time before the pane was moved. -/
private def pageWithFormerPane : Scene :=
  let page : Description := .node { layout := some { kind := .border } }
    [.node { region := some .center } []]
  let pane : Description := .node { region := some .west, collapsed := true } []
  let known := { Border.empty with west := some (.fresh .west 3 true) }
  { Scene.ofTree (.ofDescription (.node { layout := some { kind := .auto } } [page, pane]))
      .standard with
    kept := IdMap.empty.insert 1 (.border known) }

/-- The pass over the page does not touch the pane any more. -/
theorem layout_spares_former_pane :
    ∃ s', pageWithFormerPane.run (Step.layout 1) = .ok (.ok (), s') ∧
      s'.tree.get? 3 = pageWithFormerPane.tree.get? 3 ∧
      s'.tree.children = pageWithFormerPane.tree.children := by
  obtain ⟨s, r, s', hs, hrun, hview⟩ := runs_of_viewLast
    (show pageWithFormerPane.viewLast [] (Step.layout 1) (fun _ r _ => r) = some (.ok ())
      by decide +kernel)
  cases hs
  cases hview
  have hnested : pageWithFormerPane.tree.Nested := Tree.nested_ofDescription _
  obtain ⟨hshape, htree, -⟩ := layout_stays_inside hnested.forest hrun
  refine ⟨s', hrun, ?_, hshape.children_eq.symm⟩
  by_contra hchanged
  have hsame := hnested.apart (c := 0) (by decide +kernel) (by decide +kernel)
    (htree 3 hchanged).1 (pageWithFormerPane.tree.inside_self 3)
  cases hsame

end

end Scene

end Trellis
