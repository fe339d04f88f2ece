import Trellis.Engine
import Trellis.Proofs.Relayout.Active
import Trellis.Proofs.Relayout.Anchors
import Trellis.Proofs.Relayout.Lines
import Trellis.Proofs.Relayout.Regions

/-!
# All kinds of layout

The layouts of containers in one place. Each of them touches its container only. A layout that has
not been used before settles what it leaves behind, as the layout that it has become; it stays of
the same kind, so it will be found again.

* `touches_arrange`, `refused_arrange`, `settles_arrange`: one case for each kind.
-/
namespace Trellis.Scene

variable {s s' t : Scene} {layout : LayoutConfig} {container : ComponentId}
  {r : Except LayoutError Unit}

/-- The tree is nested; the host vetoes nothing, and a container offers the size of its own
rectangle. -/
structure Plain (s : Scene) : Prop where
  nested : s.tree.Nested
  ownSize : s.host.targetSize = Host.ownSize
  vetoesNothing : ∀ id e, s.host.vetoed id e = false

theorem Agree.plain {p q : ComponentId → Prop} (h : s.Agree p q t) (hs : s.Plain) : t.Plain := by
  obtain ⟨hnested, hown, hvetoes⟩ := hs
  rw [h.host] at hown hvetoes
  exact ⟨h.tree.toSameShape.nested hnested, hown, hvetoes⟩

theorem Silent.agree (h : Silent s t) (p q : ComponentId → Prop) : s.Agree p q t := by
  refine ⟨h.host.symm, ?_, fun i _ => by rw [h.kept]⟩
  rw [h.tree]
  exact .refl p s.tree

theorem touches_arrange (hlinked : s.tree.Linked) {a : Arrangement}
    (h : s.run (Step.arrange layout container a) = .ok (r, s')) : Touches container s s' := by
  cases a with
  | auto => exact touches_placing (fun _ _ _ => Stack.ids_place) h
  | fit => exact touches_fit h
  | column => exact touches_columns h
  | table => exact touches_placing (fun _ _ _ => Table.ids_placeAll) h
  | card active => exact touches_cards hlinked h
  | accordion active => exact touches_accordion h
  | anchored a => exact touches_anchored h
  | border b => exact touches_border h
  | linear l => exact touches_linear h

/-- A layout is refused only for want of a center. -/
theorem refused_arrange {a : Arrangement} {e : LayoutError}
    (h : s.run (Step.arrange layout container a) = .ok (.error e, s')) :
    e = .missingCenterRegion container := by
  have hfill : ∀ {s : Scene} {child}, s.run (Fill.fill layout container child) ≠
      .ok (.error e, s') := by
    intro s child hrun
    obtain ⟨_, _, _, -, -, -, -, hr, -⟩ := run_fill_eq_ok hrun
    cases hr
  cases a with
  | auto => exact absurd h (placing_not_refused s layout container _ e s')
  | fit =>
    change s.run (Fill.arrange layout container) = _ at h
    rw [run_fit] at h
    split at h
    · cases h
    · exact absurd h hfill
  | column =>
    obtain ⟨mid, hfirst, ⟨hr, -⟩ | hsecond⟩ := run_columns_rounds h
    · cases hr
    · exact absurd hsecond (placing_not_refused mid layout container _ e s')
  | table => exact absurd h (placing_not_refused s layout container _ e s')
  | card active =>
    change s.run (Fill.arrangeCards layout container active) = _ at h
    rw [run_cards] at h
    split at h
    · exact absurd h hfill
    · cases h
  | accordion active =>
    obtain ⟨_, -, hr, -⟩ := run_accordion_eq_ok h
    cases hr
  | anchored a =>
    obtain ⟨hr, -⟩ := run_anchored_rounds h
    cases hr
  | border b =>
    obtain ⟨_, _, -, -, ⟨-, hr, -⟩ | ⟨hr, -⟩⟩ := run_arrangeBorder_eq_ok h
    · cases hr
      rfl
    · cases hr
  | linear l =>
    cases hoverflow : l.overflow with
    | none =>
      obtain ⟨hr, -⟩ := run_linear_of_none hoverflow h
      cases hr
    | some handler =>
      obtain ⟨hr, -⟩ := run_linear_of_handler hoverflow h
      cases hr

theorem kept_fit (h : s.run (Fill.arrange layout container) = .ok (r, s')) :
    s'.kept.get? container = s.kept.get? container := by
  rw [run_fit] at h
  split at h
  · cases h
    rfl
  · obtain ⟨_, _, _, -, -, -, -, -, hplaces⟩ := run_fill_eq_ok h
    rw [hplaces.kept]

/-- A handler that has not been used before has hidden nothing. -/
theorem hiddenItems_fresh {l : Linear} {handler : Box.Handler}
    (hfresh : Arrangement.fresh layout = .linear l) (hoverflow : l.overflow = some handler) :
    handler.hiddenItems = [] := by
  unfold Arrangement.fresh at hfresh
  cases hlayout : layout.kind <;> rw [hlayout] at hfresh <;> cases hfresh
  all_goals
    obtain ⟨o, -, rfl⟩ := Option.map_eq_some_iff.1 hoverflow
    cases o <;> rfl

/-- A layout that has not been used before settles what it leaves behind. -/
theorem settles_arrange (hs : s.Plain) (hkept : s.kept.get? container = some (.fresh layout))
    (h : s.run (Step.arrange layout container (.fresh layout)) = .ok (.ok (), s')) :
    ∃ a, s'.kept.get? container = some a ∧ a.kind = layout.kind ∧
      Settles container s' (Step.arrange layout container a) := by
  have hkind := Arrangement.kind_fresh layout
  have hplacing : ∀ {place}, s.run (Step.placing layout container place) = .ok (.ok (), s') →
      s'.kept.get? container = some (.fresh layout) := by
    intro place hrun
    obtain ⟨_, _, _, -, -, -, -, hplaces⟩ := run_placing_eq_ok hrun
    rw [hplaces.kept, hkept]
  cases hfresh : Arrangement.fresh layout with
  | auto =>
    rw [hfresh] at h hkind hplacing
    exact ⟨.auto, hplacing h, hkind,
      settles_placing hs.nested hs.ownSize (fun _ _ _ => Stack.ids_place) h⟩
  | fit =>
    rw [hfresh] at h hkind hkept
    exact ⟨.fit, (kept_fit h).trans hkept, hkind, settles_fit hs.nested hs.ownSize h⟩
  | column =>
    rw [hfresh] at h hkind hplacing
    have hrow := run_columns_eq_ok hs.nested hs.ownSize h
    have hsettles := settles_placing hs.nested hs.ownSize (fun _ _ _ => Columns.ids_placeRow) hrow
    refine ⟨.column, hplacing hrow, hkind, fun t ht r' t' h' => ?_⟩
    have htouches := touches_placing (fun _ _ _ => Columns.ids_placeRow) hrow
    have ht' := ht.plain (htouches.toAgree.plain hs)
    exact hsettles t ht r' t' (run_columns_eq_ok ht'.nested ht'.ownSize h')
  | table =>
    rw [hfresh] at h hkind hplacing
    exact ⟨.table, hplacing h, hkind,
      settles_placing hs.nested hs.ownSize (fun _ _ _ => Table.ids_placeAll) h⟩
  | card active =>
    rw [hfresh] at h hkind
    obtain ⟨active', hkept', hsettles⟩ := settles_cards hs.nested hs.ownSize h
    exact ⟨.card active', hkept', hkind, hsettles⟩
  | accordion active =>
    rw [hfresh] at h hkind
    obtain ⟨active', hkept', hsettles⟩ := settles_accordion hs.nested hs.ownSize h
    exact ⟨.accordion active', hkept', hkind, hsettles⟩
  | anchored a =>
    rw [hfresh] at h hkind
    obtain ⟨b, hkept', hmode, hsettles⟩ := settles_anchored hs.nested hs.ownSize h
    refine ⟨.anchored b, hkept', ?_, hsettles⟩
    rw [← hkind]
    simp only [Arrangement.kind, hmode]
  | border b =>
    obtain rfl : b = .empty := by
      unfold Arrangement.fresh at hfresh
      cases hlayout : layout.kind <;> simp_all
    rw [hfresh] at h hkind
    obtain ⟨after, hkept', hsettles⟩ := settles_border hs.nested hs.ownSize h
    exact ⟨.border after, hkept', hkind, hsettles⟩
  | linear l =>
    rw [hfresh] at h hkind hkept
    cases hoverflow : l.overflow with
    | none =>
      obtain ⟨-, _, _, _, -, -, -, hplaces, -⟩ := run_linear_of_none hoverflow h
      exact ⟨.linear l, hplaces.kept ▸ hkept, hkind,
        settles_linear_of_none hs.nested hs.ownSize hoverflow h⟩
    | some handler =>
      obtain ⟨next, hkept', hsettles⟩ := settles_linear_of_handler hs.nested hs.ownSize hoverflow
        (hiddenItems_fresh hfresh hoverflow) h
      exact ⟨.linear { l with overflow := some next }, hkept', hkind, hsettles⟩

end Trellis.Scene
