import Trellis.Proofs.Anchored.Caches
import Trellis.Proofs.Histories.Passes

/-!
# Anchors that an engine keeps

An engine keeps the anchors of a container from one pass to the next. Between passes components
come, move and go, other containers are laid out, and sizes and hosts change. What is kept at last
is what passes over the container leave that run one after another, in scenes in which the children
have the settings that they have now.

* `KeptByPasses`: there are such passes.
* `preserved_keptByPasses`, `keptByPasses_turn`: layouts go on with them, and no other turn tampers
  with what is kept.
* `anchors_kept_by_passes`: what that comes to for all turns.
-/
namespace Trellis

namespace Scene

variable {s s' t : Scene} {c : ComponentId} {layout : LayoutConfig} {mode : AnchorMode}
  {a b : Anchored} {settings : ComponentId → Option ItemConfig} {scenes : List Scene}
  {r : Except LayoutError Unit}

/-! ## More passes -/

/-- Settings of components that were not there before make no difference. -/
theorem HasSettings.mono {later : ComponentId → Option ItemConfig} (h : s.HasSettings settings c)
    (hlater : ∀ i config, settings i = some config → later i = some config) :
    s.HasSettings later c := by
  intro i hi
  obtain ⟨x, hx⟩ := Tree.exists_of_mem_visibleChildren hi
  have hconfig : s.tree.config? i = some x.config := by
    rw [Tree.config?, hx]
    rfl
  rw [hconfig]
  exact (hlater i x.config (by rw [← h i hi, hconfig])).symm

theorem passes_append (layout : LayoutConfig) (c : ComponentId) (a : Anchored)
    (scenes more : List Scene) :
    passes layout c a (scenes ++ more) =
      passes layout c a scenes >>= fun b => passes layout c b more := by
  induction scenes generalizing a with
  | nil => rfl
  | cons s rest ih =>
    rw [List.cons_append, passes, passes, bind_assoc]
    refine congrArg _ (funext fun x => ?_)
    obtain ⟨_ | b, _⟩ := x
    · exact ih a
    · exact ih b

/-- One more pass. -/
theorem passes_concat {start : Anchored} (hpasses : passes layout c start scenes = .ok a)
    (h : s.run (Anchored.pass layout c a) = .ok (.ok b, s')) :
    passes layout c start (scenes ++ [s]) = .ok b := by
  rw [passes_append, hpasses, Length.ok_bind, passes, h]
  rfl

/-! ## What is kept -/

/-- What is kept for the container `c`, or would be made for it, is what passes over it leave that
find the children with the settings that they have now. -/
structure KeptByPasses (layout : LayoutConfig) (c : ComponentId) (mode : AnchorMode) (s : Scene) :
    Prop where
  linked : s.tree.Linked
  layout? : s.tree.layout? c = some layout
  passed : ∃ scenes a, (∀ t ∈ scenes, t.HasSettings s.tree.config? c) ∧
    passes layout c ⟨mode, none, .empty⟩ scenes = .ok a ∧ s.arrangement layout c = .anchored a

namespace KeptByPasses

/-- The tree changes, but all components keep their settings. -/
theorem of_tree (h : KeptByPasses layout c mode s) (hlinked : t.tree.Linked)
    (hconfig : ∀ i config, s.tree.config? i = some config → t.tree.config? i = some config)
    (hkept : t.arrangement layout c = s.arrangement layout c) : KeptByPasses layout c mode t := by
  obtain ⟨scenes, a, hscenes, hpasses, ha⟩ := h.passed
  refine ⟨hlinked, ?_, scenes, a, fun u hu => (hscenes u hu).mono hconfig, hpasses, hkept.trans ha⟩
  have hlayout := h.layout?
  rw [Tree.layout?_eq_bind, Option.bind_eq_some_iff] at hlayout ⊢
  obtain ⟨config, hc, hlayout⟩ := hlayout
  exact ⟨config, hconfig c config hc, hlayout⟩

theorem of_shape (h : KeptByPasses layout c mode s) (hshape : s.tree.SameShape t.tree)
    (hkept : t.arrangement layout c = s.arrangement layout c) : KeptByPasses layout c mode t := by
  refine h.of_tree (hshape.linked h.linked) (fun i config hi => ?_) hkept
  rw [← hshape.config?_eq, hi]

/-- One more pass over the container. -/
theorem pass (h : KeptByPasses layout c mode s) (ha : s.arrangement layout c = .anchored a)
    (hrun : s.run (Anchored.pass layout c a) = .ok (.ok b, s')) :
    KeptByPasses layout c mode s' ∧ s'.arrangement layout c = .anchored b := by
  obtain ⟨scenes, a', hscenes, hpasses, ha'⟩ := h.passed
  obtain rfl : a = a' := Arrangement.anchored.inj (ha.symm.trans ha')
  have hshape := (touches_anchoredPass hrun).1.tree.toSameShape
  have hkind : (Arrangement.anchored b).kind = layout.kind := by
    rw [← s.kind_arrangement layout c, ha, Arrangement.kind, mode_of_pass hrun]
    rfl
  have hkept : s'.arrangement layout c = .anchored b := by
    obtain ⟨content, sized, members, b', placed, hanchors, hb⟩ := run_anchoredPass_eq_ok hrun
    cases hb
    refine arrangement_of_kept ?_ hkind
    rw [hanchors.kept, IdMap.get?_insert, if_pos rfl]
  refine ⟨⟨hshape.linked h.linked, ?_, scenes ++ [s], b, ?_, passes_concat hpasses hrun, hkept⟩,
    hkept⟩
  · rw [← hshape.layout?_eq, h.layout?]
  · rw [← hshape.config?_eq]
    intro t ht
    rcases List.mem_append.1 ht with ht | ht
    · exact hscenes t ht
    · obtain rfl := List.mem_singleton.1 ht
      exact fun _ _ => rfl

/-- The layout of the container itself. -/
theorem arranged (h : KeptByPasses layout c mode s) (ha : s.arrangement layout c = .anchored a)
    (hrun : s.run (a.arrange layout c) = .ok (r, s')) : KeptByPasses layout c mode s' := by
  obtain ⟨-, b, mid, hfirst, hlast⟩ := run_anchored_rounds hrun
  obtain ⟨hmid, hb⟩ := h.pass ha hfirst
  rcases hlast with rfl | ⟨b', hsecond⟩
  · exact hmid
  · exact (hmid.pass hb hsecond).1

end KeptByPasses

/-- Layouts go on with what is kept. -/
theorem preserved_keptByPasses : Preserved (fun _ => True) (KeptByPasses layout c mode) := by
  refine ⟨fun hsilent h => ?_, fun _ _ _ _ => trivial, fun {s d layout'} h _ hd => ?_,
    fun {s s' d layout' kept r} h _ hd hkept hkind hrun => ?_⟩
  · refine h.of_shape ?_ (arrangement_congr (by rw [hsilent.kept]))
    rw [hsilent.tree]
    exact .refl _
  · refine h.of_shape (s.tree.agree_renderChildren d).toSameShape ?_
    by_cases heq : d = c
    · subst heq
      obtain rfl : layout' = layout :=
        Option.some.inj ((Tree.layout?_of_layoutOf hd).symm.trans h.layout?)
      exact arrangement_of_kept (s.kept_ready_self ..) (s.kind_arrangement ..)
    · refine arrangement_congr ?_
      rw [kept_ready (.refl s), if_neg (Ne.symm heq)]
  · by_cases heq : d = c
    · subst heq
      obtain rfl : layout' = layout :=
        Option.some.inj ((Tree.layout?_of_layoutOf hd).symm.trans h.layout?)
      obtain ⟨-, a, -, -, ha⟩ := h.passed
      obtain rfl : kept = .anchored a := (arrangement_of_kept hkept hkind).symm.trans ha
      exact h.arranged ha hrun
    · have htouches := touches_arrange h.linked hrun
      exact h.of_shape htouches.tree.toSameShape
        (arrangement_congr (htouches.kept c (Ne.symm heq)).symm)

end Scene

/-- What may happen to containers while all components keep their settings. -/
inductive AnchorTurn where
  | layout (d : ComponentId)
  | resize (d : ComponentId) (rect : Rect)
  /-- The host measures, offers sizes or vetoes differently. -/
  | host (h : Host)
  /-- A component becomes the last child of another one. -/
  | append (parent child : ComponentId)
  | remove (parent child : ComponentId)
  | hide (id : ComponentId) (hidden : Bool)
  /-- A component is added that is not attached to any other. -/
  | create (item : ItemConfig)

def AnchorTurn.step : AnchorTurn → Step Unit
  | .layout d => Step.layout d
  | .resize d rect => Step.modifyTree fun t => t.applyRect d rect
  | .host h => modify fun s => { s with host := h }
  | .append parent child => Step.edit fun t => t.appendChild parent child
  | .remove parent child => Step.edit fun t => t.removeChild parent child
  | .hide id hidden => Step.modifyTree fun t => t.setHidden id hidden
  | .create item => Step.modifyTree fun t => t.alloc item

namespace Scene

variable {s₀ s s' : Scene} {c : ComponentId} {layout : LayoutConfig} {mode : AnchorMode}
  {r : Except LayoutError Unit}

theorem keptByPasses_turn {turn : AnchorTurn} (h : KeptByPasses layout c mode s)
    (hrun : s.run turn.step = .ok (r, s')) : KeptByPasses layout c mode s' := by
  cases turn with
  | layout d => exact preserved_keptByPasses.of_layout trivial h hrun
  | resize d rect =>
    cases hrun
    exact h.of_shape (s.tree.sameShape_applyRect d rect) rfl
  | host g =>
    cases hrun
    exact h.of_shape (.refl s.tree) rfl
  | append parent child =>
    obtain ⟨t, ht, rfl⟩ := run_edit_eq_ok hrun
    obtain ⟨hp, hx, rfl⟩ := Tree.appendChild_eq_ok ht
    refine h.of_tree (h.linked.attach hp hx) (fun i config hi => ?_) rfl
    rw [← (s.tree.rearranged_attach parent child).config?_eq, hi]
  | remove parent child =>
    obtain ⟨t, ht, rfl⟩ := run_edit_eq_ok hrun
    obtain rfl := Tree.removeChild_eq_ok ht
    refine h.of_tree (h.linked.detach parent child) (fun i config hi => ?_) rfl
    rw [← (s.tree.rearranged_detach parent child).config?_eq, hi]
  | hide id hidden =>
    cases hrun
    exact h.of_shape (s.tree.sameShape_setHiddens [id] hidden) rfl
  | create item =>
    cases hrun
    refine h.of_tree (h.linked.alloc item) (fun i config hi => ?_) rfl
    have hsome : (s.tree.get? i).isSome := by
      obtain ⟨x, hx, -⟩ := Option.map_eq_some_iff.1 hi
      rw [hx]
      rfl
    rw [Tree.config?, s.tree.get?_alloc_of_isSome item hsome]
    exact hi

/-- An anchor, absolute or form layout has not been used yet. Then any containers are laid out,
components come, move, go, are hidden and are shown, and sizes and hosts change. What is kept for
the container at last, or would be made for it, is what passes over it leave that run one after
another, the children having had the same settings in all of them as they have now. -/
theorem anchors_kept_by_passes (hlinked : s₀.tree.Linked) (hlayout : s₀.tree.layout? c = some layout)
    (hmode : Arrangement.fresh layout = .anchored ⟨mode, none, .empty⟩)
    (hfresh : s₀.kept.get? c = none) {turns : List AnchorTurn}
    (hturns : s₀.after (turns.map AnchorTurn.step) = .ok s) :
    ∃ scenes a, (∀ t ∈ scenes, t.HasSettings s.tree.config? c) ∧
      passes layout c ⟨mode, none, .empty⟩ scenes = .ok a ∧
      s.arrangement layout c = .anchored a := by
  have hstart : KeptByPasses layout c mode s₀ := by
    refine ⟨hlinked, hlayout, [], _, nofun, rfl, ?_⟩
    rw [arrangement_of_unused hfresh, hmode]
  refine (after_preserves (fun x hx s s' r h hrun => ?_) hstart hturns).passed
  obtain ⟨turn, -, rfl⟩ := List.mem_map.1 hx
  exact keptByPasses_turn h hrun

end Scene

end Trellis
