import Trellis.Proofs.Histories.Shown

/-!
# What the layout of a container writes

A layout places children, hides and shows some of them, keeps something for its container and tells
the host of overflow. Whatever else the scene holds stays as it is, in any tree and whether the
layout goes through or is refused.

* `Writes`: what the scenes before and after a layout have in common.
* `Step.WritesOnly`: a step never writes more; `WritesOnly.bind`: neither do two in a row.
* `writesOnly_arrange`: one case for each kind of layout.
-/
namespace Trellis

namespace Scene

variable {s t u : Scene} {container : ComponentId}

/-- What the scenes before and after the layout of `container` have in common. -/
structure Writes (container : ComponentId) (s s' : Scene) : Prop where
  host : s'.host = s.host
  timers : s'.timers = s.timers
  shape : s.tree.SameShape s'.tree
  others : ∀ i, i ≠ container → s'.kept.get? i = s.kept.get? i
  keeps : ∀ i, (s.kept.get? i).isSome → (s'.kept.get? i).isSome
  /-- The host is told of nothing but overflow. -/
  flips : ∃ flips : List Bool,
    s'.events = s.events ++ flips.map fun b => (container, .overflowChange b)

namespace Writes

theorem refl (container : ComponentId) (s : Scene) : Writes container s s :=
  ⟨rfl, rfl, .refl s.tree, fun _ _ => rfl, fun _ h => h, [], by simp⟩

theorem trans (h : Writes container s t) (h' : Writes container t u) : Writes container s u := by
  obtain ⟨first, hfirst⟩ := h.flips
  obtain ⟨second, hsecond⟩ := h'.flips
  refine ⟨h'.host.trans h.host, h'.timers.trans h.timers, h.shape.trans h'.shape, ?_, ?_,
    first ++ second, ?_⟩
  · intro i hi
    rw [h'.others i hi, h.others i hi]
  · exact fun i hi => h'.keeps i (h.keeps i hi)
  · rw [hsecond, hfirst, List.map_append, List.append_assoc]

theorem log (container : ComponentId) (s : Scene) (notices : List Notice) :
    Writes container s (s.log notices) :=
  ⟨rfl, rfl, .refl s.tree, fun _ _ => rfl, fun _ h => h, [], by simp [Scene.log]⟩

theorem tree (container : ComponentId) (s : Scene) {t : Tree} (h : s.tree.SameShape t) :
    Writes container s { s with tree := t } :=
  ⟨rfl, rfl, h, fun _ _ => rfl, fun _ h => h, [], by simp⟩

theorem kept (container : ComponentId) (s : Scene) (a : Arrangement) :
    Writes container s { s with kept := s.kept.insert container a } := by
  refine ⟨rfl, rfl, .refl s.tree, fun i hi => ?_, fun i h => ?_, [], by simp⟩
  · rw [IdMap.get?_insert, if_neg hi]
  · rw [IdMap.get?_insert]
    split
    · rfl
    · exact h

theorem overflow (container : ComponentId) (s : Scene) (overflowing : Bool) :
    Writes container s (s.told container (.overflowChange overflowing)) := by
  refine ⟨host_told .., timers_told .., ?_, fun i _ => by rw [kept_told],
    fun i h => by rwa [kept_told], ?_⟩
  · rw [tree_told]
    exact .refl s.tree
  · unfold told
    split
    · exact ⟨[overflowing], rfl⟩
    · exact ⟨[], by simp⟩

end Writes

end Scene

/-! ## Steps that write no more -/

/-- However the step ends, it writes no more than the layout of `container` may. -/
def Step.WritesOnly {α : Type} (container : ComponentId) (x : Step α) : Prop :=
  ∀ ⦃s s' : Scene⦄ ⦃r : Except LayoutError α⦄, s.run x = .ok (r, s') → s.Writes container s'

namespace Step

open Scene

variable {α β : Type} {container : ComponentId}

theorem WritesOnly.bind {x : Step α} {f : α → Step β} (hx : WritesOnly container x)
    (hf : ∀ a, WritesOnly container (f a)) : WritesOnly container (x >>= f) := by
  intro s s' r h
  rw [run_bind, Length.bind_eq_ok] at h
  obtain ⟨⟨_ | a, mid⟩, hfirst, h⟩ := h
  · cases h
    exact hx hfirst
  · exact (hx hfirst).trans (hf a h)

theorem writesOnly_pure (a : α) : WritesOnly container (pure a) := by
  intro s s' r h
  cases h
  exact .refl container s

theorem writesOnly_throw (e : LayoutError) : WritesOnly container (throw e : Step α) := by
  intro s s' r h
  cases h
  exact .refl container s

theorem writesOnly_get : WritesOnly container get := by
  intro s s' r h
  cases h
  exact .refl container s

theorem writesOnly_tree : WritesOnly container Step.tree := by
  intro s s' r h
  cases h
  exact .refl container s

theorem writesOnly_check (x : Checked α) : WritesOnly container (check x) := by
  intro s s' r h
  rw [run_check] at h
  obtain ⟨a, -, h⟩ := Length.bind_eq_ok.1 h
  cases h
  exact .refl container s

theorem writesOnly_draft (x : Draft α) : WritesOnly container (draft x) := by
  intro s s' r h
  rw [run_draft] at h
  obtain ⟨a, -, h⟩ := Length.bind_eq_ok.1 h
  cases h
  exact .log container s _

theorem writesOnly_targetSize (id : ComponentId) : WritesOnly container (targetSize id) :=
  .bind writesOnly_get fun _ => writesOnly_check _

theorem writesOnly_modifyTree {f : Tree → Tree} (hf : ∀ t : Tree, t.SameShape (f t)) :
    WritesOnly container (modifyTree f) := by
  intro s s' r h
  cases h
  exact .tree container s (hf s.tree)

theorem writesOnly_keep (a : Arrangement) : WritesOnly container (keep container a) := by
  intro s s' r h
  cases h
  exact .kept container s a

theorem writesOnly_overflow (overflowing : Bool) :
    WritesOnly container (notify container (.overflowChange overflowing)) := by
  intro s s' r h
  rw [run_notify_eq] at h
  cases h
  exact .overflow container s overflowing

theorem writesOnly_mapM {f : α → Step β} (hf : ∀ a, WritesOnly container (f a)) (xs : List α) :
    WritesOnly container (xs.mapM f) := by
  induction xs with
  | nil => exact writesOnly_pure []
  | cons x xs ih =>
    rw [List.mapM_cons]
    exact (hf x).bind fun _ => ih.bind fun _ => writesOnly_pure _

/-! ## What layouts do -/

theorem writesOnly_member (id : ComponentId) : WritesOnly container (member id) :=
  .bind writesOnly_get fun _ => (writesOnly_check _).bind fun _ => writesOnly_pure _

theorem writesOnly_members (id : ComponentId) : WritesOnly container (members id) :=
  .bind writesOnly_tree fun _ => writesOnly_mapM writesOnly_member _

theorem writesOnly_contentBox (layout : LayoutConfig) (id : ComponentId) :
    WritesOnly container (contentBox layout id) :=
  .bind (writesOnly_targetSize id) fun _ => writesOnly_draft _

theorem writesOnly_apply (placements : List Placement) :
    WritesOnly container (apply placements) :=
  writesOnly_modifyTree fun t => t.sameShape_applyPlacements placements

theorem writesOnly_placing (layout : LayoutConfig)
    (place : Rect → List Framed → Checked (List Placement)) :
    WritesOnly container (placing layout container place) :=
  .bind (writesOnly_contentBox layout container) fun _ =>
    .bind (writesOnly_members container) fun _ =>
    .bind (writesOnly_draft _) fun _ =>
    .bind (writesOnly_check _) fun _ => writesOnly_apply _

theorem writesOnly_fill (layout : LayoutConfig) (child : ComponentId) :
    WritesOnly container (Fill.fill layout container child) :=
  .bind (writesOnly_contentBox layout container) fun _ =>
    .bind (writesOnly_member child) fun _ =>
    .bind (writesOnly_draft _) fun _ => writesOnly_apply _

theorem writesOnly_fit (layout : LayoutConfig) :
    WritesOnly container (Fill.arrange layout container) := by
  refine .bind writesOnly_tree fun t => ?_
  cases t.visibleChildren container with
  | nil => exact writesOnly_pure ()
  | cons child _ => exact writesOnly_fill layout child

theorem writesOnly_cards (layout : LayoutConfig) (active : Option ComponentId) :
    WritesOnly container (Fill.arrangeCards layout container active) := by
  refine .bind writesOnly_tree fun t => .bind (writesOnly_keep _) fun _ =>
    .bind (writesOnly_modifyTree fun u => ?_) fun _ => ?_
  · exact (Tree.agree_setHiddens (p := fun _ => False) u fun _ _ h => h).toSameShape
  · cases chooseActive (t.children container) active (t.resolve container layout.activeItem) with
    | none => exact writesOnly_pure ()
    | some card => exact writesOnly_fill layout card

theorem writesOnly_columns (layout : LayoutConfig) :
    WritesOnly container (Columns.arrange layout container) := by
  refine .bind (writesOnly_targetSize container) fun before =>
    .bind (writesOnly_placing layout Columns.placeRow) fun _ =>
    .bind (writesOnly_targetSize container) fun after => ?_
  split
  · exact writesOnly_placing layout Columns.placeRow
  · exact writesOnly_pure ()

theorem writesOnly_accordion (layout : LayoutConfig) (active : Option ComponentId) :
    WritesOnly container (Accordion.arrange layout container active) :=
  .bind writesOnly_tree fun _ =>
    .bind (writesOnly_keep _) fun _ =>
    .bind (writesOnly_members container) fun _ =>
    .bind (writesOnly_draft _) fun _ =>
    .bind (writesOnly_targetSize container) fun _ =>
    .bind (writesOnly_draft _) fun _ =>
    .bind (writesOnly_check _) fun _ => writesOnly_apply _

theorem writesOnly_anchoredPass (layout : LayoutConfig) (a : Anchored) :
    WritesOnly container (Anchored.pass layout container a) := by
  refine .bind (writesOnly_contentBox layout container) fun _ =>
    .bind writesOnly_tree fun _ =>
    .bind (writesOnly_check _) fun _ =>
    .bind (writesOnly_members container) fun _ =>
    .bind (writesOnly_draft _) fun placed =>
    .bind (writesOnly_keep _) fun _ =>
    .bind (writesOnly_modifyTree fun t => ?_) fun _ => writesOnly_pure _
  exact (Anchored.agree_applyAll (q := fun _ => False) t fun _ _ h => h).toSameShape

theorem writesOnly_anchored (layout : LayoutConfig) (a : Anchored) :
    WritesOnly container (a.arrange layout container) := by
  refine .bind (writesOnly_targetSize container) fun _ =>
    .bind (writesOnly_anchoredPass layout a) fun b =>
    .bind (writesOnly_targetSize container) fun _ => ?_
  split
  · exact .bind (writesOnly_anchoredPass layout b) fun _ => writesOnly_pure ()
  · exact writesOnly_pure ()

theorem writesOnly_syncBorder (b : Border) : WritesOnly container (syncBorder container b) := by
  refine .bind (.bind writesOnly_tree fun t => writesOnly_mapM (fun id => ?_) _) fun children =>
    .bind (writesOnly_draft _) fun _ =>
    .bind (writesOnly_modifyTree fun t => ?_) fun _ =>
    .bind (writesOnly_keep _) fun _ => writesOnly_pure _
  · exact .bind (writesOnly_check _) fun _ => writesOnly_pure _
  · exact t.sameShape_setHiddens _ true

theorem writesOnly_border (layout : LayoutConfig) (b : Border) :
    WritesOnly container (arrangeBorder layout container b) := by
  refine .bind (writesOnly_syncBorder b) fun synced => ?_
  cases synced.center with
  | none => exact writesOnly_throw _
  | some center =>
    exact .bind (writesOnly_contentBox layout container) fun _ =>
      .bind writesOnly_get fun _ =>
      .bind (writesOnly_draft _) fun _ =>
      .bind (writesOnly_keep _) fun _ => writesOnly_apply _

theorem writesOnly_line (layout : LayoutConfig) (axis : Axis) (available : Size) :
    WritesOnly container (Lines.line layout axis container available) :=
  .bind (writesOnly_members container) fun _ =>
    .bind (writesOnly_draft _) fun _ =>
    .bind (writesOnly_draft _) fun _ => writesOnly_check _

theorem writesOnly_conclude (handler next : Box.Handler) (final : Box.Line Float) :
    WritesOnly container (conclude container handler next final) := by
  refine .bind (writesOnly_check _) fun _ => ?_
  split
  · exact .bind (writesOnly_overflow _) fun _ => .bind (writesOnly_check _) fun _ =>
      writesOnly_apply _
  · exact .bind (writesOnly_check _) fun _ => writesOnly_apply _

theorem writesOnly_linear (layout : LayoutConfig) (l : Linear) :
    WritesOnly container (Lines.arrange layout container l) := by
  refine .bind (writesOnly_targetSize container) fun target =>
    .bind (writesOnly_line layout l.axis target) fun first => ?_
  cases l.overflow with
  | none => exact .bind (writesOnly_check _) fun _ => writesOnly_apply _
  | some handler =>
    refine .bind writesOnly_tree fun t =>
      .bind (writesOnly_check _) fun reacted =>
      .bind (writesOnly_keep _) fun _ =>
      .bind (writesOnly_modifyTree fun u => ?_) fun _ => ?_
    · exact (u.sameShape_setHiddens _ true).trans (Tree.sameShape_setHiddens _ _ false)
    · change WritesOnly container
        (if (reacted.2.recalculate || decide (reacted.1.reserved ≠ .none)) = true then do
          let rest ← check (Lines.remaining l.axis target reacted.1.reserved)
          let final ← Lines.line layout l.axis container rest
          conclude container handler reacted.1 final
        else do
          let final ← pure first
          conclude container handler reacted.1 final)
      split
      · exact .bind (writesOnly_check _) fun rest =>
          .bind (writesOnly_line layout l.axis rest) fun final =>
          writesOnly_conclude handler reacted.1 final
      · exact .bind (writesOnly_pure first) fun final =>
          writesOnly_conclude handler reacted.1 final

/-- Whatever kind of layout the container has. -/
theorem writesOnly_arrange (layout : LayoutConfig) (a : Arrangement) :
    WritesOnly container (arrange layout container a) := by
  cases a with
  | auto => exact writesOnly_placing layout fun content => Stack.place content.x content.y
  | fit => exact writesOnly_fit layout
  | column => exact writesOnly_columns layout
  | table => exact writesOnly_placing layout fun content => Table.placeAll content layout.columns
  | card active => exact writesOnly_cards layout active
  | accordion active => exact writesOnly_accordion layout active
  | anchored a => exact writesOnly_anchored layout a
  | border b => exact writesOnly_border layout b
  | linear l => exact writesOnly_linear layout l

end Step

end Trellis
