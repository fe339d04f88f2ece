import Trellis.Proofs.Relayout.Passes

/-!
# A second pass

What a container's own layout has settled stays settled while its children are laid out. So by
induction on the depth, a pass that is repeated finds every container settled: it is not refused and
changes nothing.

* `settles_passOn`, `settles_forM`: one level of a pass, and the passes over the children.
* `settles_passWithin`: a pass settles all that is in its container.
* `relayout_changes_nothing`: laying out a described tree again, once the changes are taken, leaves
  every rectangle as it is and reports no change.
-/
namespace Trellis

namespace Scene

variable {s s' t : Scene} {layout : LayoutConfig} {container child : ComponentId} {n : Nat}
  {r : Except LayoutError Unit} {containers : List ComponentId}

/-! ## What a pass leaves settled -/

/-- Wherever all in `containers` is as in `s`, the step leaves the tree as it is. -/
def SettlesAll (containers : List ComponentId) (s : Scene) (x : Step Unit) : Prop :=
  ∀ t, s.Agree (s.tree.Within containers) (s.tree.Within containers) t → t.Rests x

/-- No layout in `containers` has been used before. -/
def Unused (containers : List ComponentId) (s : Scene) : Prop :=
  ∀ i, s.tree.Within containers i → s.kept.get? i = none

theorem settles_passOver (hshape : s.tree.SameShape s'.tree)
    (hone : s.run (Step.passWithin n child) = .ok (.ok (), s') →
      SettlesAll [child] s' (Step.passWithin n child))
    (h : s.run (Step.passOver n child) = .ok (.ok (), s')) :
    SettlesAll [child] s' (Step.passOver n child) := by
  intro t ht r t' h'
  rw [run_passOver] at h h'
  rw [← ht.tree.toSameShape.layout?_eq, ← hshape.layout?_eq] at h'
  split at h
  · next hlayout =>
    rw [if_pos hlayout] at h'
    exact hone h t ht r t' h'
  · next hlayout =>
    rw [if_neg hlayout] at h'
    cases h'
    exact ⟨rfl, rfl⟩

/-- A pass that nests less than `n` deep settles what is in its container. -/
def PassSettles (n : Nat) : Prop :=
  ∀ (s s' : Scene) (container : ComponentId), s.Plain → s.Unused [container] →
    s.run (Step.passWithin n container) = .ok (.ok (), s') →
    SettlesAll [container] s' (Step.passWithin n container)

/-- If the passes over single containers settle what is in them, so does a pass over many. -/
theorem settles_forM (hone : PassSettles n) (hs : s.Plain)
    (hparents : ∀ x ∈ containers, s.tree.parent? x = some container)
    (hnodup : containers.Nodup) (hunused : s.Unused containers)
    (h : s.run (containers.forM (Step.passOver n)) = .ok (.ok (), s')) :
    SettlesAll containers s' (containers.forM (Step.passOver n)) := by
  induction containers generalizing s with
  | nil =>
    intro t _ r t' h'
    cases h'
    exact ⟨rfl, rfl⟩
  | cons x rest ih =>
    rw [List.nodup_cons] at hnodup
    rcases run_forM_cons_eq_ok h with ⟨e, -, herror⟩ | ⟨mid, hfirst, hrest⟩
    · cases herror
    have hconfined := confined_passOver hs hfirst
    have hshape := hconfined.tree.toSameShape
    have hmid := Agree.plain hconfined hs
    have hrestConfined := confined_forM hmid hrest
    have hshape' := hrestConfined.tree.toSameShape
    -- what is in `x` is not in the rest, in any of the scenes
    have hparents' : ∀ y ∈ x :: rest, mid.tree.parent? y = some container := by
      rwa [← hshape.parent?_eq]
    have hapart : ∀ i, mid.tree.Within [x] i → ¬ mid.tree.Within rest i := by
      intro i hi
      rw [Tree.within_singleton] at hi
      exact hmid.nested.not_within hparents' hnodup.1 hi
    have hunused' : mid.Unused rest := by
      intro i hi
      have hout : ¬ s.tree.Within [x] i := by
        rw [hshape.within_eq]
        exact fun hin => hapart i hin hi
      rw [← hconfined.kept i hout]
      obtain ⟨c, hc, hin⟩ := hi
      rw [← hshape.inside_eq] at hin
      exact hunused i ⟨c, List.mem_cons_of_mem x hc, hin⟩
    have hsettled := ih hmid (fun y hy => hparents' y (by simp [hy])) hnodup.2 hunused' hrest
    intro t ht r t' h'
    have hover : t.Rests (Step.passOver n x) := by
      refine settles_passOver hshape (fun hrun => hone s mid x hs (fun i hi => ?_) hrun) hfirst t ?_
      · rw [Tree.within_singleton] at hi
        exact hunused i ⟨x, by simp, hi⟩
      · refine (hrestConfined.outside hapart).trans (ht.mono (fun i hi => ?_) fun i hi => ?_) <;>
        · rw [Tree.within_singleton, hshape'.inside_eq] at hi
          exact ⟨x, by simp, hi⟩
    rcases run_forM_cons_eq_ok h' with ⟨e, hfirst', -⟩ | ⟨t₁, hfirst', hrest'⟩
    · exact absurd (hover _ _ hfirst').1 (by simp)
    have htPlain := ht.plain (Agree.plain hrestConfined hmid)
    have hrestAgree : s'.Agree (s'.tree.Within rest) (s'.tree.Within rest) t :=
      ht.mono (fun i ⟨c, hc, hin⟩ => ⟨c, List.mem_cons_of_mem x hc, hin⟩)
        fun i ⟨c, hc, hin⟩ => ⟨c, List.mem_cons_of_mem x hc, hin⟩
    have hrestAgree' := hrestAgree.trans
      ((confined_passOver htPlain hfirst').outside fun i hi hin => ?_)
    · obtain ⟨hr, htree⟩ := hsettled t₁ hrestAgree' r t' hrest'
      exact ⟨hr, htree.trans (hover _ _ hfirst').2⟩
    · rw [← ht.tree.toSameShape.within_eq, ← hshape'.within_eq] at hin
      rw [← hshape'.within_eq] at hi
      exact hapart i hin hi

/-- What is in a visible child is in the container and is not the container. -/
theorem inside_of_visible (hnested : s.tree.Nested) {i : ComponentId}
    (hi : s.tree.Within (s.tree.visibleChildren container) i) :
    i ≠ container ∧ s.tree.Inside container i := by
  obtain ⟨x, hx, hin⟩ := hi
  have hparent := hnested.linked.parent?_of_visible x hx
  refine ⟨?_, hin.of_child hparent⟩
  rintro rfl
  exact hnested.not_inside_child hparent hin

theorem isRendered_passOn (hs : s.Plain) {a : Arrangement} {i : ComponentId}
    (hi : i ∈ s.tree.children container)
    (h : s.run (Step.passOn n layout container a) = .ok (r, s')) :
    s'.tree.isRendered i = s.tree.isRendered i := by
  rcases run_passOn_eq_ok h with ⟨e, harrange, -⟩ | ⟨laid, after, harrange, hchildren, hafter⟩
  · exact congrFun (touches_arrange hs.nested.linked harrange).rendered i
  · have htouches := touches_arrange hs.nested.linked harrange
    have hlaid := htouches.toAgree.plain hs
    have hnear := (confined_forM hlaid hchildren).near hlaid.nested
      hlaid.nested.linked.parent?_of_visible
    rw [← htouches.rendered, hafter.tree]
    exact (hnear.tree.isRendered_eq (.inr (by rwa [htouches.children_eq]))).symm

/-- The container's layout settles what it leaves behind, and the passes over the children do not
disturb that. -/
theorem settles_passOn (hone : PassSettles n) (hs : s.Plain)
    (hkept : s.kept.get? container = some (.fresh layout))
    (hunused : ∀ i, i ≠ container → s.tree.Inside container i → s.kept.get? i = none)
    (h : s.run (Step.passOn n layout container (.fresh layout)) = .ok (.ok (), s')) :
    ∃ a, s'.kept.get? container = some a ∧ a.kind = layout.kind ∧
      SettlesAll [container] s' (Step.passOn n layout container a) := by
  rcases run_passOn_eq_ok h with ⟨e, -, herror⟩ | ⟨laid, after, harrange, hchildren, hafter⟩
  · cases herror
  obtain ⟨a, hkeptA, hkind, hsettles⟩ := settles_arrange hs hkept harrange
  have htouches := touches_arrange hs.nested.linked harrange
  have hlaid := htouches.toAgree.plain hs
  have hparents := hlaid.nested.linked.parent?_of_visible (c := container)
  have hunused' : laid.Unused (laid.tree.visibleChildren container) := by
    intro i hi
    obtain ⟨hne, hin⟩ := inside_of_visible hlaid.nested hi
    rw [← htouches.kept i hne]
    rw [← htouches.tree.toSameShape.inside_eq] at hin
    exact hunused i hne hin
  have hbelow := settles_forM hone hlaid hparents
    (hlaid.nested.linked.nodup_visibleChildren container) hunused' hchildren
  have hnear := (confined_forM hlaid hchildren).near hlaid.nested hparents
  refine ⟨a, ?_, hkind, fun t ht r t' h' => ?_⟩
  · rw [hafter.kept, ← hnear.kept container rfl, hkeptA]
  have hinside : laid.tree.Inside = s'.tree.Inside := by
    rw [hafter.tree, hnear.tree.toSameShape.inside_eq]
  have hnearT : laid.Agree (laid.tree.Near container) (fun _ => False) t := by
    refine (hnear.mono (fun _ hi => hi) fun _ hfalse => hfalse.elim).trans ?_
    refine ((hafter.agree _ _).trans ht).mono (fun i hi => ?_) fun _ hfalse => hfalse.elim
    rw [Tree.within_singleton, ← hinside]
    exact hlaid.nested.inside_of_near hi
  have hrests := hsettles t hnearT
  rcases run_passOn_eq_ok h' with
    ⟨e, harrange', -⟩ | ⟨laid', after', harrange', hchildren', hafter'⟩
  · exact absurd (hrests _ _ harrange').1 (by simp)
  have htree := (hrests _ _ harrange').2
  have hvisible : laid'.tree.visibleChildren container = laid.tree.visibleChildren container := by
    rw [htree, (Sees.of_near hnearT).visibleChildren_eq]
  rw [hvisible] at hchildren'
  have hdown : ∀ {i}, after.tree.Within (laid.tree.visibleChildren container) i →
      i ≠ container ∧ s'.tree.Within [container] i := by
    intro i hi
    rw [← hnear.tree.toSameShape.within_eq] at hi
    rw [Tree.within_singleton, ← hinside]
    exact inside_of_visible hlaid.nested hi
  have htouches' := touches_arrange (hnearT.plain hlaid).nested.linked harrange'
  have hbelowT : after.Agree (after.tree.Within (laid.tree.visibleChildren container))
      (after.tree.Within (laid.tree.visibleChildren container)) laid' := by
    refine ((hafter.agree _ _).trans (ht.mono (fun _ hi => (hdown hi).2)
      fun _ hi => (hdown hi).2)).trans ⟨htouches'.host, ?_, fun i hi => ?_⟩
    · rw [htree]
      exact .refl _ t.tree
    · exact htouches'.kept i (hdown hi).1
  obtain ⟨hr, hlast⟩ := hbelow laid' hbelowT r after' hchildren'
  exact ⟨hr, hafter'.tree.trans (hlast.trans htree)⟩

/-- A pass over a container whose children are rendered begins with the tree as it is. -/
theorem ready_again {told : Scene} {a : Arrangement} (hsilent : Silent t told)
    (hrendered : ∀ i ∈ t.tree.children container, t.tree.isRendered i = true)
    (hkept : t.kept.get? container = some a) (hkind : a.kind = layout.kind) :
    t.arrangement layout container = a ∧ (told.ready layout container).tree = t.tree ∧
      ∀ i, (told.ready layout container).kept.get? i = t.kept.get? i := by
  have harrangement : t.arrangement layout container = a := arrangement_of_kept hkept hkind
  refine ⟨harrangement, ?_, fun i => ?_⟩
  · show told.tree.renderChildren container = t.tree
    rw [hsilent.tree, Tree.renderChildren_eq_self hrendered]
  · rw [kept_ready hsilent, harrangement]
    split
    · next heq => rw [heq, hkept]
    · rfl

/-- A pass renders the children of its container. -/
theorem isRendered_passWithin (hs : s.Plain) {i : ComponentId}
    (hi : i ∈ s.tree.children container)
    (h : s.run (Step.passWithin (n + 1) container) = .ok (.ok (), s')) :
    s'.tree.isRendered i = true := by
  cases hlayout : s.tree.layoutOf container with
  | error e =>
    rw [run_passWithin_refused n hlayout] at h
    cases h
  | ok layout =>
    obtain ⟨told, hsilent, hrun⟩ := run_passWithin_succ (hs.vetoesNothing _ _) hlayout
    rw [hrun] at h
    have hready := hsilent.confined_ready hs.nested layout container
    rw [isRendered_passOn (Agree.plain hready hs)
      (by rwa [← hready.tree.toSameShape.children_eq]) h]
    rw [← hsilent.tree] at hi
    refine Tree.isRendered_renderChildren ?_ hi
    rw [hsilent.tree]
    exact hs.nested

/-- The first pass keeps a layout for its container, and what comes after the rendering of the
children is settled for that layout. -/
theorem settles_passWithin_succ (hone : PassSettles n) (hs : s.Plain)
    (hunused : s.Unused [container])
    (h : s.run (Step.passWithin (n + 1) container) = .ok (.ok (), s')) :
    ∃ layout a, s.tree.layoutOf container = .ok layout ∧ s'.kept.get? container = some a ∧
      a.kind = layout.kind ∧ SettlesAll [container] s' (Step.passOn n layout container a) := by
  have hself := (s.tree.within_singleton _ _).2 (s.tree.inside_self container)
  cases hlayout : s.tree.layoutOf container with
  | error e =>
    rw [run_passWithin_refused n hlayout] at h
    cases h
  | ok layout =>
    obtain ⟨told, hsilent, hrun⟩ := run_passWithin_succ (hs.vetoesNothing _ _) hlayout
    have hready := hsilent.confined_ready hs.nested layout container
    have hfresh : s.arrangement layout container = .fresh layout :=
      arrangement_of_unused (hunused container hself)
    rw [hrun, hfresh] at h
    have hothers : ∀ i, i ≠ container → (told.ready layout container).tree.Inside container i →
        (told.ready layout container).kept.get? i = none := by
      intro i hne hin
      rw [← hready.tree.toSameShape.inside_eq] at hin
      rw [kept_ready hsilent, if_neg hne]
      exact hunused i ((s.tree.within_singleton container i).2 hin)
    obtain ⟨a, hkept, hkind, hsettles⟩ := settles_passOn hone (Agree.plain hready hs)
      (by rw [kept_ready hsilent, if_pos rfl, hfresh]) hothers h
    exact ⟨layout, a, rfl, hkept, hkind, hsettles⟩

theorem settles_passWithin (n : Nat) : PassSettles n := by
  induction n with
  | zero =>
    intro s s' container _ _ h
    cases h
  | succ n ih =>
    intro s s' container hs hunused h t ht r t' h'
    have hconfined := confined_passWithin hs h
    have htPlain := ht.plain (Agree.plain hconfined hs)
    obtain ⟨layout, a, hlayout, hkept, hkind, hsettles⟩ :=
      settles_passWithin_succ ih hs hunused h
    rw [hconfined.tree.toSameShape.layoutOf_eq, ht.tree.toSameShape.layoutOf_eq] at hlayout
    obtain ⟨told, hsilent, hrun⟩ := run_passWithin_succ (htPlain.vetoesNothing _ _) hlayout
    have hrendered : ∀ i ∈ t.tree.children container, t.tree.isRendered i = true := by
      intro i hi
      have hwithin : s'.tree.Within [container] i := by
        rw [Tree.within_singleton, ht.tree.toSameShape.inside_eq]
        exact htPlain.nested.inside_of_near (.inr hi)
      rw [← ht.tree.toSameShape.children_eq, ← hconfined.tree.toSameShape.children_eq] at hi
      rw [← ht.tree.isRendered_eq hwithin]
      exact isRendered_passWithin hs hi h
    rw [ht.kept container ((s'.tree.within_singleton _ _).2 (s'.tree.inside_self container))]
      at hkept
    obtain ⟨harrangement, htree, hkeptT⟩ := ready_again hsilent hrendered hkept hkind
    have hagain : s'.Agree (s'.tree.Within [container]) (s'.tree.Within [container])
        (told.ready layout container) := by
      refine ht.trans ⟨hsilent.host.symm, ?_, fun i _ => (hkeptT i).symm⟩
      rw [htree]
      exact .refl _ t.tree
    rw [hrun, harrangement] at h'
    obtain ⟨hr, hlast⟩ := hsettles _ hagain r t' h'
    exact ⟨hr, hlast.trans htree⟩

/-! ## The root -/

/-- The scene in which the pass over the root begins. -/
def sizedTo (s : Scene) (root : ComponentId) (size : Size) : Scene :=
  { s with
    tree := s.tree.applyRect root ⟨0, 0, size.width, size.height⟩
    timers := s.timers.modify root Debounce.cancel }

theorem run_layoutRoot (s : Scene) (root : ComponentId) (size : Size) :
    s.run (Step.layoutRoot root size) =
      (s.sizedTo root size).run (Step.passWithin (s.sizedTo root size).tree.size root) :=
  rfl

/-- The root has its size, so giving it that size again changes nothing. -/
theorem tree_sizedTo_again {root : ComponentId} {size : Size}
    (h : Confined [root] (s.sizedTo root size) s') :
    (Scene.sizedTo { s' with tree := s'.tree.clearDirty } root size).tree =
      s'.tree.clearDirty := by
  let placement : Placement := ⟨root, ⟨0, 0, size.width, size.height⟩⟩
  have hshows : (s.sizedTo root size).tree.Shows [placement] :=
    Tree.shows_applyPlacements (by simp) s.tree
  have hroot : ∀ id ∈ [placement].map Placement.id, ∀ c ∈ [root],
      (s.sizedTo root size).tree.Inside c id → id = c := by
    simp [placement]
  exact Tree.applyPlacements_eq_self ((hshows.of_agree h.tree hroot).of_agree
    s'.tree.agree_clearDirty.symm fun _ _ => trivial)

/-- A pass from the root, repeated once the changes are taken, is not refused and changes
nothing. -/
theorem layoutRoot_again {root : ComponentId} {size : Size} (hs : s.Plain)
    (hunused : ∀ i, s.kept.get? i = none)
    (h : s.run (Step.layoutRoot root size) = .ok (.ok (), s'))
    (h' : Scene.run { s' with tree := s'.tree.clearDirty } (Step.layoutRoot root size) =
      .ok (r, t)) :
    r = .ok () ∧ t.tree = s'.tree.clearDirty := by
  rw [run_layoutRoot] at h h'
  have hsized : s.Agree (fun _ => False) (fun _ => True) (s.sizedTo root size) :=
    ⟨rfl, Tree.agree_applyRect s.tree _ id, fun _ _ => rfl⟩
  have hplain := hsized.plain hs
  have hconfined := confined_passWithin hplain h
  have htree := tree_sizedTo_again hconfined
  have hagree : s'.Agree (fun _ => True) (fun _ => True)
      (Scene.sizedTo { s' with tree := s'.tree.clearDirty } root size) := by
    refine ⟨rfl, ?_, fun _ _ => rfl⟩
    rw [htree]
    exact s'.tree.agree_clearDirty.symm
  rw [← hagree.tree.toSameShape.size_eq, ← hconfined.tree.toSameShape.size_eq] at h'
  obtain ⟨hr, hlast⟩ := settles_passWithin _ _ _ root hplain (fun i _ => hunused i) h _
    (hagree.mono (fun _ _ => trivial) fun _ _ => trivial) r t h'
  exact ⟨hr, hlast.trans htree⟩

theorem plain_ofDescription (d : Description) {host : Host}
    (hown : host.targetSize = Host.ownSize) (hvetoes : ∀ id e, host.vetoed id e = false) :
    (Scene.ofTree (.ofDescription d) host).Plain :=
  ⟨Tree.nested_ofDescription d, hown, hvetoes⟩

end Scene

theorem Tree.dirtyIds_clearDirty (t : Tree) : t.clearDirty.dirtyIds = [] := by
  unfold dirtyIds
  rw [List.filter_eq_nil_iff]
  intro id _
  simp only [clearDirty, get?, Array.getElem?_map]
  cases t.components[id]? <;> simp

/-- What clients read of a component that layouts write: its rectangle, whether it is hidden, and
the rectangle of its label. -/
def Tree.outcome? (t : Tree) (id : ComponentId) : Option (Rect × Bool × Option Rect) :=
  (t.get? id).map fun c => (c.state.rect, c.state.hidden, c.state.labelRect)

theorem Tree.outcome?_clearDirty (t : Tree) : t.clearDirty.outcome? = t.outcome? := by
  funext id
  exact t.agree_clearDirty.eq_at (g := fun o => o.map fun c : Component =>
    (c.state.rect, c.state.hidden, c.state.labelRect)) (by rintro (_ | _) <;> rfl) trivial

/-- A described tree is laid out for the first time, with a host that vetoes nothing and lets every
container offer its own size. Once the changes are taken, laying it out in the same size again is
not refused, changes nothing that clients read, and reports no component as changed. -/
theorem relayout_changes_nothing (d : Description) {host : Host}
    (hown : host.targetSize = Host.ownSize) (hvetoes : ∀ id e, host.vetoed id e = false)
    {root : ComponentId} {size : Size} {s₁ s₂ : Scene} {r : Except LayoutError Unit}
    (h : (Scene.ofTree (.ofDescription d) host).run (Step.layoutRoot root size) =
      .ok (.ok (), s₁))
    (h' : Scene.run { s₁ with tree := s₁.tree.clearDirty } (Step.layoutRoot root size) =
      .ok (r, s₂)) :
    r = .ok () ∧ s₂.tree.outcome? = s₁.tree.outcome? ∧ s₂.tree.dirtyIds = [] := by
  obtain ⟨hr, htree⟩ := Scene.layoutRoot_again (Scene.plain_ofDescription d hown hvetoes)
    (fun i => IdMap.get?_empty i) h h'
  rw [htree]
  exact ⟨hr, s₁.tree.outcome?_clearDirty, s₁.tree.dirtyIds_clearDirty⟩

section

open Step

/-- Three buttons of which the menu takes the last one, for want of space. -/
private def toolbar : Description :=
  .node { layout := some { kind := .fit } } [
    .node { layout := some { kind := .hbox, overflowHandler := some .menu, triggerSize := 20 } } [
      .node { width := some 40, height := some 20 } [],
      .node { width := some 40, height := some 20 } [],
      .node { width := some 40, height := some 20 } []]]

theorem toolbar_keeps_its_menu :
    ∃ s₁ s₂, (Scene.ofTree (.ofDescription toolbar) .standard).run (layoutRoot 0 ⟨110, 30⟩) =
        .ok (.ok (), s₁) ∧
      Scene.run { s₁ with tree := s₁.tree.clearDirty } (layoutRoot 0 ⟨110, 30⟩) =
        .ok (.ok (), s₂) ∧
      s₂.tree.outcome? = s₁.tree.outcome? ∧ s₂.tree.dirtyIds = [] ∧
      s₂.tree.outcome? 4 = some (⟨0, 0, 0, 0⟩, true, none) := by
  obtain ⟨⟨⟩, s₂, hrun, hview⟩ := Scene.run_of_viewAfter
    (show (Scene.ofTree (.ofDescription toolbar) .standard).viewAfter
        (do
          layoutRoot 0 ⟨110, 30⟩
          modifyTree Tree.clearDirty
          layoutRoot 0 ⟨110, 30⟩) (fun s => s.tree.outcome? 4) =
      some (some (⟨0, 0, 0, 0⟩, true, none)) by decide +kernel)
  obtain ⟨⟨⟩, s₁, hfirst, hrun⟩ := Scene.run_bind_eq_ok.1 hrun
  obtain ⟨⟨⟩, mid, hmid, hsecond⟩ := Scene.run_bind_eq_ok.1 hrun
  cases hmid
  obtain ⟨-, houtcome, hdirty⟩ :=
    relayout_changes_nothing toolbar rfl (fun _ _ => rfl) hfirst hsecond
  exact ⟨s₁, s₂, hfirst, hsecond, houtcome, hdirty, hview⟩

end

end Trellis
