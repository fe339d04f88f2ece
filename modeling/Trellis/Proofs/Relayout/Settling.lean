import Trellis.Layout.Accordion
import Trellis.Layout.Columns
import Trellis.Layout.Fill
import Trellis.Layout.Stack
import Trellis.Proofs.Relayout.Agreement
import Trellis.Proofs.Relayout.Nesting
import Trellis.Proofs.Table.Layout

/-!
# Layouts that settle

A layout *touches* a container if it changes nothing but the container's children and what is kept
for it. What a layout leaves behind is *settled* if the layout, repeated, is not refused and leaves
the tree as it is. Both are shown here for the layouts that keep nothing: these place the same
children in the same rectangles again.

* `Touches`, `Settles`: the two properties, of every kind of layout.
* `touches_placing`, `settles_placing`: layouts that place all visible children.
* `run_columns_eq_ok`: columns need no second round where a container offers its own size.
* `touches_fill`, `settles_fill`, `settles_fit`: a child that fills the container.
-/
namespace Trellis

theorem Tree.SameShape.nested {t u : Tree} (h : t.SameShape u) (hnested : t.Nested) :
    u.Nested := by
  have hchildren := h.children_eq
  have hparent := h.parent?_eq
  exact ⟨by rw [← hchildren, ← hparent]; exact hnested.mem_children,
    by rw [← hparent]; exact hnested.older, by rw [← hchildren]; exact hnested.nodup⟩

namespace Scene

/-- Nothing changes but the children of `container` and what is kept for it, and the host has seen
no other children. -/
structure Touches (container : ComponentId) (s s' : Scene) : Prop extends
    s.Agree (fun i => i ∉ s.tree.children container) (· ≠ container) s' where
  rendered : s'.tree.isRendered = s.tree.isRendered

/-- The step is not refused and leaves the tree as it is. -/
def Rests (t : Scene) (x : Step Unit) : Prop :=
  ∀ r t', t.run x = .ok (r, t') → r = .ok () ∧ t'.tree = t.tree

/-- Wherever the container and its children are as in `s`, the step leaves the tree as it is. -/
def Settles (container : ComponentId) (s : Scene) (x : Step Unit) : Prop :=
  ∀ t, s.Agree (s.tree.Near container) (fun _ => False) t → t.Rests x

variable {s s' t u : Scene} {layout : LayoutConfig} {container : ComponentId}

theorem Touches.trans (h : Touches container s t) (h' : Touches container t u) :
    Touches container s u := by
  obtain ⟨hagree, hrendered⟩ := h'
  rw [← h.tree.children_eq] at hagree
  exact ⟨h.toAgree.trans hagree, hrendered.trans h.rendered⟩

theorem Touches.refl (container : ComponentId) (s : Scene) : Touches container s s :=
  ⟨.refl _ _ s, rfl⟩

theorem Touches.children_eq (h : Touches container s s') : s'.tree.children = s.tree.children :=
  h.tree.children_eq.symm

/-- A container is not touched by its own layout. -/
theorem Touches.own (h : Touches container s s') (hnested : s.tree.Nested) :
    (s.tree.get? container).map Component.clean = (s'.tree.get? container).map Component.clean := by
  refine h.tree.clean container fun hmem => ?_
  exact Nat.lt_irrefl _ (hnested.older _ _ ((hnested.mem_children _ _).1 hmem))

/-- A layout that hides and shows nothing sees what it saw before. -/
theorem Touches.sees (h : Touches container s s') (hnested : s.tree.Nested)
    (hshown : s'.tree.isVisible = s.tree.isVisible) : Sees container s s' :=
  ⟨h.host, h.tree.toSameShape, h.own hnested, fun i _ => (congrFun hshown i).symm⟩

theorem Touches.targetSize_eq (h : Touches container s s') (hnested : s.tree.Nested)
    (hown : s.host.targetSize = Host.ownSize) :
    s.host.targetSize s.tree container = s'.host.targetSize s'.tree container :=
  targetSize_congr h.host h.tree.toSameShape (h.own hnested) hown

theorem Sees.of_near (h : s.Agree (s.tree.Near container) (fun _ => False) t) :
    Sees container s t :=
  h.sees fun _ hi => hi

/-- Children are visible as before, if they are there. -/
theorem Sees.exists_get? (h : Sees container s t) {i : ComponentId}
    (hi : i ∈ s.tree.children container) {d : Component} (hd : t.tree.get? i = some d) :
    ∃ c, s.tree.get? i = some c ∧ c.state.hidden = d.state.hidden := by
  have hbare := h.shape.bare i
  rw [hd] at hbare
  obtain ⟨c, hc, -⟩ := Option.map_eq_some_iff.1 hbare
  have hshown := h.shown i hi
  simp only [Tree.isVisible, hc, hd, Option.any_some, Bool.not_inj_iff] at hshown
  exact ⟨c, hc, hshown⟩

/-! ## Placing children -/

theorem Places.touches {placements : List Placement} (h : s.Places s' placements)
    (hids : ∀ id ∈ placements.map Placement.id, id ∈ s.tree.children container) :
    Touches container s s' := by
  refine ⟨⟨h.host.symm, ?_, fun i _ => by rw [h.kept]⟩, ?_⟩
  · rw [h.tree]
    exact Tree.agree_applyPlacements s.tree fun id hid hnot => hnot (hids id hid)
  · rw [h.tree, Tree.isRendered_applyPlacements]

theorem Places.isVisible_eq {placements : List Placement} (h : s.Places s' placements) :
    s'.tree.isVisible = s.tree.isVisible := by
  rw [h.tree, Tree.isVisible_applyPlacements]

/-- Children that have been placed are not changed by placing them again. -/
theorem Places.again {placements : List Placement} (h : s.Places s' placements)
    (hnodup : (placements.map Placement.id).Nodup)
    (hids : ∀ id ∈ placements.map Placement.id, id ∈ s'.tree.children container)
    (ht : s'.Agree (s'.tree.Near container) (fun _ => False) t) :
    t.tree.applyPlacements placements = t.tree := by
  have hshows : s'.tree.Shows placements := by
    rw [h.tree]
    exact Tree.shows_applyPlacements hnodup s.tree
  exact Tree.applyPlacements_eq_self (hshows.of_agree ht.tree fun id hid => .inr (hids id hid))

theorem sublist_map_fst_zip {α β : Type} (xs : List α) (ys : List β) :
    ((xs.zip ys).map Prod.fst).Sublist xs := by
  induction xs generalizing ys with
  | nil => simp
  | cons x xs ih =>
    cases ys with
    | nil => simp
    | cons y ys => exact (ih ys).cons_cons x

theorem mem_children_of_visible {i : ComponentId} (h : i ∈ s.tree.visibleChildren container) :
    i ∈ s.tree.children container :=
  (List.mem_filter.1 h).1

section

variable {place : Rect → List Framed → Checked (List Placement)} {r : Except LayoutError Unit}

theorem touches_placing
    (hplace : ∀ content framed placements, place content framed = .ok placements →
      placements.map Placement.id = framed.map fun f => f.member.id)
    (h : s.run (Step.placing layout container place) = .ok (r, s')) : Touches container s s' := by
  obtain ⟨content, framed, placements, -, hframed, hplaced, -, hplaces⟩ := run_placing_eq_ok h
  refine hplaces.touches fun id hid => ?_
  rw [hplace _ _ _ hplaced, ids_framed hframed] at hid
  exact mem_children_of_visible hid

theorem isVisible_placing (h : s.run (Step.placing layout container place) = .ok (r, s')) :
    s'.tree.isVisible = s.tree.isVisible := by
  obtain ⟨_, _, _, -, -, -, -, hplaces⟩ := run_placing_eq_ok h
  exact hplaces.isVisible_eq

theorem settles_placing (hnested : s.tree.Nested) (hown : s.host.targetSize = Host.ownSize)
    (hplace : ∀ content framed placements, place content framed = .ok placements →
      placements.map Placement.id = framed.map fun f => f.member.id)
    (h : s.run (Step.placing layout container place) = .ok (r, s')) :
    Settles container s' (Step.placing layout container place) := by
  intro t ht r' t' h'
  have htouches := touches_placing hplace h
  have hsees := (htouches.sees hnested (isVisible_placing h)).trans (.of_near ht)
  obtain ⟨content, framed, placements, hcontent, hframed, hplaced, -, hplaces⟩ :=
    run_placing_eq_ok h
  obtain ⟨content', framed', placements', hcontent', hframed', hplaced', hr, hplaces'⟩ :=
    run_placing_eq_ok h'
  rw [← hsees.content_eq hown, hcontent] at hcontent'
  rw [← hsees.framed_eq, hframed] at hframed'
  cases hcontent'
  cases hframed'
  rw [hplaced] at hplaced'
  cases hplaced'
  have hids := (hplace _ _ _ hplaced).trans (ids_framed hframed)
  refine ⟨hr, hplaces'.tree.trans (hplaces.again ?_ (fun id hid => ?_) ht)⟩
  · rw [hids]
    exact hnested.linked.nodup_visibleChildren container
  · rw [hids] at hid
    rw [htouches.children_eq]
    exact mem_children_of_visible hid

end

end Scene

namespace Stack

theorem ids_place {left y : Int} {framed : List Framed} {placements : List Placement}
    (h : place left y framed = .ok placements) :
    placements.map Placement.id = framed.map fun f => f.member.id := by
  induction framed generalizing y placements with
  | nil =>
    cases h
    rfl
  | cons f rest ih =>
    simp only [place, Length.bind_eq_ok] at h
    obtain ⟨_, _, _, _, _, _, _, _, placements', hrest, h⟩ := h
    cases h
    simp [ih hrest]

end Stack

namespace Columns

theorem ids_place {top remainder x : Int} {framed : List Framed} {placements : List Placement}
    (h : place top remainder x framed = .ok placements) :
    placements.map Placement.id = framed.map fun f => f.member.id := by
  induction framed generalizing x placements with
  | nil =>
    cases h
    rfl
  | cons f rest ih =>
    simp only [place, Length.bind_eq_ok] at h
    obtain ⟨_, _, _, _, _, _, _, _, _, _, placements', hrest, h⟩ := h
    cases h
    simp [ih hrest]

theorem ids_placeRow {content : Rect} {framed : List Framed} {placements : List Placement}
    (h : placeRow content framed = .ok placements) :
    placements.map Placement.id = framed.map fun f => f.member.id := by
  obtain ⟨fixed, -, h⟩ := Length.bind_eq_ok.1 h
  obtain ⟨remainder, -, h⟩ := Length.bind_eq_ok.1 h
  exact ids_place h

end Columns

namespace Scene

variable {s s' t : Scene} {layout : LayoutConfig} {container child : ComponentId}
  {r : Except LayoutError Unit}

/-- Columns are laid out in one round or in two. -/
theorem run_columns_rounds (h : s.run (Columns.arrange layout container) = .ok (r, s')) :
    ∃ mid, s.run (Step.placing layout container Columns.placeRow) = .ok (.ok (), mid) ∧
      ((r = .ok () ∧ s' = mid) ∨
        mid.run (Step.placing layout container Columns.placeRow) = .ok (r, s')) := by
  obtain ⟨_, _, mid, _, -, hfirst, -, ⟨-, hr, hs'⟩ | ⟨-, hsecond⟩⟩ :=
    run_rounds (placing_not_refused s layout container Columns.placeRow) h
  · exact ⟨mid, hfirst, .inl ⟨hr, hs'⟩⟩
  · exact ⟨mid, hfirst, .inr hsecond⟩

/-- One pass is enough where a container offers its own size: placing its children does not change
that. -/
theorem run_columns_eq_ok (hnested : s.tree.Nested) (hown : s.host.targetSize = Host.ownSize)
    (h : s.run (Columns.arrange layout container) = .ok (r, s')) :
    s.run (Step.placing layout container Columns.placeRow) = .ok (r, s') := by
  obtain ⟨before, _, mid, after, hbefore, hfirst, hafter, ⟨-, rfl, rfl⟩ | ⟨hchanged, -⟩⟩ :=
    run_rounds (placing_not_refused s layout container Columns.placeRow) h
  · exact hfirst
  · have htouches := touches_placing (fun _ _ _ => Columns.ids_placeRow) hfirst
    rw [← htouches.targetSize_eq hnested hown, hbefore] at hafter
    cases hafter
    exact absurd rfl hchanged

theorem touches_columns (h : s.run (Columns.arrange layout container) = .ok (r, s')) :
    Touches container s s' := by
  obtain ⟨mid, hfirst, ⟨-, rfl⟩ | hsecond⟩ := run_columns_rounds h
  · exact touches_placing (fun _ _ _ => Columns.ids_placeRow) hfirst
  · exact (touches_placing (fun _ _ _ => Columns.ids_placeRow) hfirst).trans
      (touches_placing (fun _ _ _ => Columns.ids_placeRow) hsecond)

/-! ## A child that fills the container -/

theorem run_fill_eq_ok (h : s.run (Fill.fill layout container child) = .ok (r, s')) :
    ∃ content m placement, s.content layout container = .ok content ∧ s.member child = .ok m ∧
      (Fill.place layout content m).run.value = .ok placement ∧ placement.id = child ∧
      r = .ok () ∧ s.Places s' [placement] := by
  rw [Fill.fill, run_bind, Length.bind_eq_ok] at h
  obtain ⟨⟨_, _⟩, hfirst, h⟩ := h
  obtain ⟨content, notices, hcontent, rfl, rfl⟩ := run_contentBox_eq_ok hfirst
  simp only [run_bind, run_member] at h
  cases hmember : s.member child with
  | error fault =>
    rw [show (s.log notices).member child = .error fault from hmember] at h
    cases h
  | ok m =>
    rw [show (s.log notices).member child = .ok m from hmember] at h
    simp only [Length.ok_bind, run_draft, bind_assoc, run_apply] at h
    obtain ⟨placement, hplace, h⟩ := Length.bind_eq_ok.1 h
    cases h
    refine ⟨content, m, placement, hcontent, rfl, hplace, ?_, rfl, rfl, rfl, rfl⟩
    simp only [Fill.place, Draft.value_bind, Draft.value_noted, Draft.value_checked,
      Length.ok_bind, Length.bind_eq_ok] at hplace
    obtain ⟨rect, -, hplace⟩ := hplace
    cases hplace
    obtain ⟨c, -, hmember⟩ := Length.bind_eq_ok.1 hmember
    cases hmember
    rfl

theorem touches_fill (hchild : child ∈ s.tree.children container)
    (h : s.run (Fill.fill layout container child) = .ok (r, s')) : Touches container s s' := by
  obtain ⟨_, _, placement, -, -, -, rfl, -, hplaces⟩ := run_fill_eq_ok h
  refine hplaces.touches fun id hid => ?_
  rw [List.map_singleton, List.mem_singleton] at hid
  rwa [hid]

theorem isVisible_fill (h : s.run (Fill.fill layout container child) = .ok (r, s')) :
    s'.tree.isVisible = s.tree.isVisible := by
  obtain ⟨_, _, _, -, -, -, -, -, hplaces⟩ := run_fill_eq_ok h
  exact hplaces.isVisible_eq

theorem settles_fill (hnested : s.tree.Nested) (hown : s.host.targetSize = Host.ownSize)
    (hchild : child ∈ s.tree.children container)
    (h : s.run (Fill.fill layout container child) = .ok (r, s')) :
    Settles container s' (Fill.fill layout container child) := by
  intro t ht r' t' h'
  have htouches := touches_fill hchild h
  have hsees := (htouches.sees hnested (isVisible_fill h)).trans (.of_near ht)
  obtain ⟨content, m, placement, hcontent, hmember, hplaced, hid, -, hplaces⟩ := run_fill_eq_ok h
  obtain ⟨content', m', placement', hcontent', hmember', hplaced', -, hr, hplaces'⟩ :=
    run_fill_eq_ok h'
  rw [← hsees.content_eq hown, hcontent] at hcontent'
  rw [← hsees.member_eq, hmember] at hmember'
  cases hcontent'
  cases hmember'
  rw [hplaced] at hplaced'
  cases hplaced'
  refine ⟨hr, hplaces'.tree.trans (hplaces.again (by simp) (fun id hmem => ?_) ht)⟩
  rw [List.map_singleton, List.mem_singleton] at hmem
  rw [hmem, hid, htouches.children_eq]
  exact hchild

theorem run_fit (s : Scene) : s.run (Fill.arrange layout container) =
    match s.tree.visibleChildren container with
    | [] => .ok (.ok (), s)
    | child :: _ => s.run (Fill.fill layout container child) := by
  rw [Fill.arrange, run_bind, run_tree, Length.ok_bind]
  dsimp only
  cases s.tree.visibleChildren container <;> rfl

theorem touches_fit (h : s.run (Fill.arrange layout container) = .ok (r, s')) :
    Touches container s s' := by
  rw [run_fit] at h
  split at h
  · cases h
    exact .refl container s
  · next child rest hvisible =>
    exact touches_fill (mem_children_of_visible (by rw [hvisible]; simp)) h

theorem settles_fit (hnested : s.tree.Nested) (hown : s.host.targetSize = Host.ownSize)
    (h : s.run (Fill.arrange layout container) = .ok (r, s')) :
    Settles container s' (Fill.arrange layout container) := by
  intro t ht r' t' h'
  rw [run_fit] at h h'
  rw [← (Sees.of_near ht).visibleChildren_eq] at h'
  split at h
  · next hvisible =>
    cases h
    rw [hvisible] at h'
    cases h'
    exact ⟨rfl, rfl⟩
  · next child rest hvisible =>
    have hchild : child ∈ s.tree.children container :=
      mem_children_of_visible (by rw [hvisible]; simp)
    have hsees := (touches_fill hchild h).sees hnested (isVisible_fill h)
    rw [← hsees.visibleChildren_eq, hvisible] at h'
    exact settles_fill hnested hown hchild h t ht r' t' h'

end Scene

end Trellis
