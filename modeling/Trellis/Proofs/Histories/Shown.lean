import Trellis.Proofs.Histories.Forests
import Trellis.Proofs.Relayout.Passes

/-!
# Hidden components

* `Tree.sameShape_setHiddens`, ...: what layouts write leaves the shape of the tree as it is.
* `Tree.isHidden`: the component is there and its hidden flag is set.
* `Tree.SameShape.isHidden_eq`, `Tree.Rearranged.isHidden_eq`: what leaves the flag as it is.
* `Tree.isVisible_renderChildren`, `Tree.isHidden_setHidden`: what single changes do to it.
-/
namespace Trellis.Tree

variable {t u : Tree} {c i : ComponentId} {p : ComponentId → Prop}

/-! ## Settings -/

theorem SameShape.config?_eq (h : t.SameShape u) : t.config? = u.config? := by
  funext i
  exact h.eq_at (g := fun o => o.map (·.config)) (by rintro (_ | _) <;> rfl) i

theorem Rearranged.config?_eq (h : t.Rearranged u) : t.config? = u.config? := by
  funext i
  exact h.eq_at (g := fun o => o.map (·.config)) (by rintro (_ | _) <;> rfl) i

theorem layout?_eq_bind (t : Tree) (i : ComponentId) :
    t.layout? i = (t.config? i).bind ItemConfig.layout := by
  unfold layout? config?
  cases t.get? i <;> rfl

theorem layout?_congr (h : t.config? = u.config?) : t.layout? = u.layout? := by
  funext i
  rw [layout?_eq_bind, layout?_eq_bind, h]

theorem layoutOf_of_layout? {layout : LayoutConfig} (h : t.layout? c = some layout) :
    t.layoutOf c = .ok layout := by
  have hlt : c < t.size := lt_size_of_layout? (by rw [h]; rfl)
  unfold layoutOf
  rw [if_pos (by simpa [contains] using hlt), h]

theorem layout?_of_layoutOf {layout : LayoutConfig} (h : t.layoutOf c = .ok layout) :
    t.layout? c = some layout := by
  unfold layoutOf at h
  cases hlayout : t.layout? c with
  | none =>
    rw [hlayout] at h
    split at h <;> cases h
  | some config =>
    rw [hlayout] at h
    split at h
    · cases h
      rfl
    · cases h

/-! ## What layouts write -/

theorem sameShape_applyRect (t : Tree) (id : ComponentId) (rect : Rect) :
    t.SameShape (t.applyRect id rect) :=
  (agree_applyRect (p := fun _ => False) t rect fun h => h).toSameShape

theorem sameShape_applyPlacements (t : Tree) (placements : List Placement) :
    t.SameShape (t.applyPlacements placements) :=
  (agree_applyPlacements (p := fun _ => False) t fun _ _ h => h).toSameShape

theorem sameShape_setHiddens (t : Tree) (ids : List ComponentId) (hidden : Bool) :
    t.SameShape (ids.foldl (fun t id => t.setHidden id hidden) t) :=
  agree_setHiddens (p := fun _ => False) t (fun _ _ h => h) |>.toSameShape

/-! ## The hidden flag -/

/-- The component is there and hidden. -/
def isHidden (t : Tree) (id : ComponentId) : Bool := (t.get? id).any fun c => c.state.hidden

theorem isHidden_eq (t : Tree) (i : ComponentId) :
    t.isHidden i = ((t.get? i).isSome && !t.isVisible i) := by
  unfold isHidden isVisible
  cases t.get? i <;> simp

/-- A child that is not visible is hidden. -/
theorem Linked.isHidden_child (h : t.Linked) (hi : i ∈ t.children c) :
    t.isHidden i = !t.isVisible i := by
  obtain ⟨d, hd⟩ := h.exists_child hi
  rw [isHidden_eq, hd]
  rfl

theorem SameShape.isSome_eq (h : t.SameShape u) (i : ComponentId) :
    (t.get? i).isSome = (u.get? i).isSome :=
  h.eq_at (g := Option.isSome) (by rintro (_ | _) <;> rfl) i

theorem SameShape.isHidden_eq (h : t.SameShape u) (hshown : t.isVisible i = u.isVisible i) :
    t.isHidden i = u.isHidden i := by
  rw [Tree.isHidden_eq, Tree.isHidden_eq, h.isSome_eq, hshown]

theorem Agree.isHidden_eq (h : Agree p t u) (hi : p i) : t.isHidden i = u.isHidden i :=
  h.toSameShape.isHidden_eq (h.isVisible_eq hi)

theorem Rearranged.isVisible_eq (h : t.Rearranged u) : t.isVisible = u.isVisible := by
  funext i
  exact h.eq_at (g := fun o => o.any fun c : Component => !c.state.hidden)
    (by rintro (_ | _) <;> rfl) i

theorem Rearranged.isHidden_eq (h : t.Rearranged u) : t.isHidden = u.isHidden := by
  funext i
  exact h.eq_at (g := fun o => o.any fun c : Component => c.state.hidden)
    (by rintro (_ | _) <;> rfl) i

theorem isHidden_setHidden (t : Tree) (id i : ComponentId) (hidden : Bool) :
    (t.setHidden id hidden).isHidden i =
      if id = i then (t.get? i).isSome && hidden else t.isHidden i := by
  unfold isHidden setHidden
  rw [get?_modifyState]
  by_cases heq : id = i
  · cases t.get? i <;> simp [heq]
  · simp [heq]

theorem isVisible_renderChildren (t : Tree) (container : ComponentId) :
    (t.renderChildren container).isVisible = t.isVisible := by
  unfold renderChildren
  generalize t.children container = ids
  induction ids generalizing t with
  | nil => rfl
  | cons id ids ih =>
    rw [List.foldl_cons, ih]
    exact isVisible_modifyState (f := fun s => { s with rendered := true }) (fun _ => rfl) t id

end Trellis.Tree
