import Trellis.Proofs.Steps

/-!
# Trees and scenes that agree

A pass that is repeated finds the tree as the first pass left it, but for the marks of changes. Two
trees have the same *shape* if they hold the same components in the same places. They *agree* on a
set of components if, besides, these differ at most in the mark of a change.

* `Tree.SameShape`, `Tree.Agree`, `Scene.Agree`: what one step after another leaves alone can be
  chained.
* `Tree.Spares`: a spared component is the very same, marks of changes included.
* `Scene.Sees`: a layout cannot tell two scenes apart; `Sees.members_eq`, `Sees.content_eq`, ...:
  what it reads from them is the same.
* `Tree.shows_applyPlacements`, `Tree.applyPlacements_eq_self`: what has been placed is not changed
  by placing it again.
-/
namespace Trellis

/-- The component without what layouts write. -/
def Component.bare (c : Component) : Component := { c with state := {} }

/-- The component without the mark of a change. -/
def Component.clean (c : Component) : Component :=
  { c with state := { c.state with dirty := false } }

namespace Tree

/-- The host has seen the component. -/
def isRendered (t : Tree) (id : ComponentId) : Bool := (t.get? id).any fun c => c.state.rendered

/-- The trees hold the same components in the same places. -/
structure SameShape (t u : Tree) : Prop where
  registry : t.registry = u.registry
  bare : ∀ i, (t.get? i).map Component.bare = (u.get? i).map Component.bare

/-- Besides, the components of `p` differ at most in the mark of a change. -/
structure Agree (p : ComponentId → Prop) (t u : Tree) : Prop extends SameShape t u where
  clean : ∀ i, p i → (t.get? i).map Component.clean = (u.get? i).map Component.clean

theorem contains_eq_isSome (t : Tree) (i : ComponentId) : t.contains i = (t.get? i).isSome := by
  unfold contains get? size
  by_cases hi : i < t.components.size <;> simp [hi]

namespace SameShape

variable {t u v : Tree}

theorem refl (t : Tree) : SameShape t t := ⟨rfl, fun _ => rfl⟩

theorem symm (h : SameShape t u) : SameShape u t := ⟨h.registry.symm, fun i => (h.bare i).symm⟩

theorem trans (h : SameShape t u) (h' : SameShape u v) : SameShape t v :=
  ⟨h.registry.trans h'.registry, fun i => (h.bare i).trans (h'.bare i)⟩

/-- What does not depend on what layouts write is the same. -/
theorem eq_at {α : Type} (h : SameShape t u) {g : Option Component → α}
    (hg : ∀ o, g (o.map Component.bare) = g o) (i : ComponentId) : g (t.get? i) = g (u.get? i) := by
  rw [← hg, h.bare i, hg]

theorem parent?_eq (h : SameShape t u) : t.parent? = u.parent? := by
  funext i
  exact h.eq_at (g := fun o => o.bind (·.parent)) (by rintro (_ | _) <;> rfl) i

theorem children_eq (h : SameShape t u) : t.children = u.children := by
  funext i
  exact h.eq_at (g := fun o => o.elim [] (·.children)) (by rintro (_ | _) <;> rfl) i

theorem layout?_eq (h : SameShape t u) : t.layout? = u.layout? := by
  funext i
  exact h.eq_at (g := fun o => o.bind (·.config.layout)) (by rintro (_ | _) <;> rfl) i

theorem contains_eq (h : SameShape t u) : t.contains = u.contains := by
  funext i
  rw [contains_eq_isSome, contains_eq_isSome]
  exact h.eq_at (g := Option.isSome) (by rintro (_ | _) <;> rfl) i

theorem size_eq (h : SameShape t u) : t.size = u.size := by
  have hcount : ∀ i, i < t.size ↔ i < u.size := by
    intro i
    simpa [contains] using congrFun h.contains_eq i
  have hle := mt (hcount u.size).1 (Nat.lt_irrefl _)
  have hge := mt (hcount t.size).2 (Nat.lt_irrefl _)
  omega

theorem resolve_eq (h : SameShape t u) : t.resolve = u.resolve := by
  funext container item
  unfold resolve lookup
  rw [h.children_eq, h.registry, h.parent?_eq]

end SameShape

variable {p q : ComponentId → Prop} {t u v : Tree}

namespace Agree

theorem refl (p : ComponentId → Prop) (t : Tree) : Agree p t t := ⟨.refl t, fun _ _ => rfl⟩

theorem symm (h : Agree p t u) : Agree p u t :=
  ⟨h.toSameShape.symm, fun i hi => (h.clean i hi).symm⟩

theorem trans (h : Agree p t u) (h' : Agree p u v) : Agree p t v :=
  ⟨h.toSameShape.trans h'.toSameShape, fun i hi => (h.clean i hi).trans (h'.clean i hi)⟩

theorem mono (h : Agree p t u) (hpq : ∀ i, q i → p i) : Agree q t u :=
  ⟨h.toSameShape, fun i hi => h.clean i (hpq i hi)⟩

/-- What does not depend on marks of changes is the same. -/
theorem eq_at {α : Type} (h : Agree p t u) {g : Option Component → α}
    (hg : ∀ o, g (o.map Component.clean) = g o) {i : ComponentId} (hi : p i) :
    g (t.get? i) = g (u.get? i) := by
  rw [← hg, h.clean i hi, hg]

theorem isRendered_eq (h : Agree p t u) {i : ComponentId} (hi : p i) :
    t.isRendered i = u.isRendered i :=
  h.eq_at (g := fun o => o.any fun c : Component => c.state.rendered) (by rintro (_ | _) <;> rfl) hi

theorem isVisible_eq (h : Agree p t u) {i : ComponentId} (hi : p i) :
    t.isVisible i = u.isVisible i :=
  h.eq_at (g := fun o => o.any fun c : Component => !c.state.hidden) (by rintro (_ | _) <;> rfl) hi

end Agree

/-! ## What changes leave alone -/

/-- The trees have the same shape, and the components of `p` are untouched. -/
structure Spares (p : ComponentId → Prop) (t u : Tree) : Prop extends SameShape t u where
  same : ∀ i, p i → u.get? i = t.get? i

namespace Spares

theorem refl (p : ComponentId → Prop) (t : Tree) : Spares p t t := ⟨.refl t, fun _ _ => rfl⟩

theorem trans (h : Spares p t u) (h' : Spares p u v) : Spares p t v :=
  ⟨h.toSameShape.trans h'.toSameShape, fun i hi => (h'.same i hi).trans (h.same i hi)⟩

theorem mono (h : Spares p t u) (hpq : ∀ i, q i → p i) : Spares q t u :=
  ⟨h.toSameShape, fun i hi => h.same i (hpq i hi)⟩

theorem agree (h : Spares p t u) : Agree p t u :=
  ⟨h.toSameShape, fun i hi => congrArg _ (h.same i hi).symm⟩

end Spares

theorem spares_modifyState (t : Tree) {id : ComponentId} (f : ComponentState → ComponentState)
    (hid : ¬ p id) : Spares p t (t.modifyState id f) := by
  refine ⟨⟨rfl, fun i => ?_⟩, fun i hi => ?_⟩
  · rw [get?_modifyState]
    split
    · rw [Option.map_map]
      rfl
    · rfl
  · have hne : id ≠ i := by
      rintro rfl
      exact hid hi
    rw [get?_modifyState, if_neg hne]

theorem spares_applyRect (t : Tree) {id : ComponentId} (rect : Rect) (hid : ¬ p id) :
    Spares p t (t.applyRect id rect) := by
  unfold applyRect
  exact spares_modifyState t _ hid

theorem spares_foldl {α : Type} {g : Tree → α → Tree} {xs : List α}
    (h : ∀ t, ∀ x ∈ xs, Spares p t (g t x)) (t : Tree) : Spares p t (xs.foldl g t) := by
  induction xs generalizing t with
  | nil => exact .refl p t
  | cons x xs ih =>
    have hx : Spares p t (g t x) := h t x (by simp)
    exact hx.trans (ih (fun t y hy => h t y (by simp [hy])) (g t x))

theorem spares_setHiddens (t : Tree) {ids : List ComponentId} {hidden : ComponentId → Bool}
    (h : ∀ id ∈ ids, ¬ p id) :
    Spares p t (ids.foldl (fun t id => t.setHidden id (hidden id)) t) :=
  spares_foldl (fun t id hid => spares_modifyState t _ (h id hid)) t

theorem spares_applyPlacements (t : Tree) {placements : List Placement}
    (h : ∀ id ∈ placements.map Placement.id, ¬ p id) :
    Spares p t (t.applyPlacements placements) := by
  refine spares_foldl (fun t placement hmem => ?_) t
  exact spares_applyRect t _ (h placement.id (List.mem_map_of_mem hmem))

theorem agree_modifyState (t : Tree) {id : ComponentId} (f : ComponentState → ComponentState)
    (hid : ¬ p id) : Agree p t (t.modifyState id f) :=
  (spares_modifyState t f hid).agree

theorem agree_applyRect (t : Tree) {id : ComponentId} (rect : Rect) (hid : ¬ p id) :
    Agree p t (t.applyRect id rect) :=
  (spares_applyRect t rect hid).agree

theorem agree_setHiddens (t : Tree) {ids : List ComponentId} {hidden : ComponentId → Bool}
    (h : ∀ id ∈ ids, ¬ p id) :
    Agree p t (ids.foldl (fun t id => t.setHidden id (hidden id)) t) :=
  (spares_setHiddens t h).agree

theorem agree_applyPlacements (t : Tree) {placements : List Placement}
    (h : ∀ id ∈ placements.map Placement.id, ¬ p id) :
    Agree p t (t.applyPlacements placements) :=
  (spares_applyPlacements t h).agree

theorem agree_clearDirty (t : Tree) : Agree (fun _ => True) t.clearDirty t := by
  have hget : ∀ i, t.clearDirty.get? i = (t.get? i).map Component.clean := by
    intro i
    simp only [get?, clearDirty, Array.getElem?_map]
    rfl
  refine ⟨⟨rfl, fun i => ?_⟩, fun i _ => ?_⟩
  · rw [hget, Option.map_map]
    rfl
  · rw [hget, Option.map_map]
    rfl

/-- What a change of state keeps of the changed component it keeps of all. -/
theorem any_modifyState {f : ComponentState → ComponentState} {g : ComponentState → Bool}
    (hf : ∀ s, g (f s) = g s) (t : Tree) (id i : ComponentId) :
    ((t.modifyState id f).get? i).any (fun c => g c.state) =
      (t.get? i).any fun c => g c.state := by
  rw [get?_modifyState]
  split
  · cases t.get? i <;> simp [hf]
  · rfl

theorem isVisible_modifyState {f : ComponentState → ComponentState}
    (hf : ∀ s, (f s).hidden = s.hidden) (t : Tree) (id : ComponentId) :
    (t.modifyState id f).isVisible = t.isVisible := by
  funext i
  exact any_modifyState (g := fun s => !s.hidden) (fun s => by rw [hf]) t id i

theorem isRendered_modifyState {f : ComponentState → ComponentState}
    (hf : ∀ s, (f s).rendered = s.rendered) (t : Tree) (id : ComponentId) :
    (t.modifyState id f).isRendered = t.isRendered := by
  funext i
  exact any_modifyState (g := fun s => s.rendered) hf t id i

@[simp] theorem isVisible_applyRect (t : Tree) (id : ComponentId) (rect : Rect) :
    (t.applyRect id rect).isVisible = t.isVisible :=
  isVisible_modifyState (f := fun s =>
    { s with rect, sized := true, dirty := s.dirty || t.wouldChange id rect }) (fun _ => rfl) t id

@[simp] theorem isRendered_applyRect (t : Tree) (id : ComponentId) (rect : Rect) :
    (t.applyRect id rect).isRendered = t.isRendered :=
  isRendered_modifyState (f := fun s =>
    { s with rect, sized := true, dirty := s.dirty || t.wouldChange id rect }) (fun _ => rfl) t id

@[simp] theorem isRendered_setHidden (t : Tree) (id : ComponentId) (hidden : Bool) :
    (t.setHidden id hidden).isRendered = t.isRendered :=
  isRendered_modifyState (f := fun s => { s with hidden }) (fun _ => rfl) t id

theorem isRendered_foldl {α : Type} {g : Tree → α → Tree}
    (h : ∀ t x, (g t x).isRendered = t.isRendered) (xs : List α) (t : Tree) :
    (xs.foldl g t).isRendered = t.isRendered := by
  induction xs generalizing t with
  | nil => rfl
  | cons x xs ih => exact (ih (g t x)).trans (h t x)

@[simp] theorem isVisible_applyPlacements (t : Tree) (placements : List Placement) :
    (t.applyPlacements placements).isVisible = t.isVisible := by
  induction placements generalizing t with
  | nil => rfl
  | cons p rest ih => exact (ih _).trans (isVisible_applyRect t p.id p.rect)

@[simp] theorem isRendered_applyPlacements (t : Tree) (placements : List Placement) :
    (t.applyPlacements placements).isRendered = t.isRendered :=
  isRendered_foldl (g := fun t (p : Placement) => t.applyRect p.id p.rect)
    (fun t p => isRendered_applyRect t p.id p.rect) placements t

@[simp] theorem isRendered_setHiddens (t : Tree) (ids : List ComponentId)
    (hidden : ComponentId → Bool) :
    (ids.foldl (fun t id => t.setHidden id (hidden id)) t).isRendered = t.isRendered :=
  isRendered_foldl (fun t id => isRendered_setHidden t id (hidden id)) ids t

/-! ## Changes that change nothing -/

theorem ext_get? (hregistry : t.registry = u.registry) (h : ∀ i, t.get? i = u.get? i) : t = u := by
  obtain ⟨components, registry⟩ := t
  obtain ⟨components', registry'⟩ := u
  obtain rfl : components = components' := Array.ext_getElem? h
  cases hregistry
  rfl

theorem modifyState_eq_self {id : ComponentId} {f : ComponentState → ComponentState}
    (h : ∀ c, t.get? id = some c → f c.state = c.state) : t.modifyState id f = t := by
  refine ext_get? rfl fun i => ?_
  rw [get?_modifyState]
  split
  · next heq =>
    subst heq
    cases hc : t.get? id with
    | none => rfl
    | some c => simp [h c hc]
  · rfl

theorem foldl_eq_self {α : Type} {g : Tree → α → Tree} {xs : List α} (h : ∀ x ∈ xs, g t x = t) :
    xs.foldl g t = t := by
  induction xs with
  | nil => rfl
  | cons x xs ih =>
    rw [List.foldl_cons, h x (by simp)]
    exact ih fun y hy => h y (by simp [hy])

/-- Changes to different components do not disturb one another: what each one establishes holds
when all are done. -/
theorem holds_foldl {α : Type} {g : Tree → α → Tree} {key : α → ComponentId}
    {P : α → Component → Prop} (hsets : ∀ t x c, (g t x).get? (key x) = some c → P x c)
    (hkeeps : ∀ t x i, i ≠ key x → (g t x).get? i = t.get? i)
    {xs : List α} (hnodup : (xs.map key).Nodup) (t : Tree) :
    ∀ x ∈ xs, ∀ c, (xs.foldl g t).get? (key x) = some c → P x c := by
  have hothers : ∀ (xs : List α) (t : Tree) (i : ComponentId), i ∉ xs.map key →
      (xs.foldl g t).get? i = t.get? i := by
    intro xs
    induction xs with
    | nil => exact fun _ _ _ => rfl
    | cons x xs ih =>
      intro t i hi
      simp only [List.map_cons, List.mem_cons, not_or] at hi
      rw [List.foldl_cons, ih _ i hi.2, hkeeps t x i hi.1]
  induction xs generalizing t with
  | nil => simp
  | cons x xs ih =>
    rw [List.map_cons, List.nodup_cons] at hnodup
    intro y hy c hc
    rw [List.foldl_cons] at hc
    rcases List.mem_cons.1 hy with rfl | hy
    · rw [hothers xs _ _ hnodup.1] at hc
      exact hsets t y c hc
    · exact ih hnodup.2 (g t x) y hy c hc

/-- Every component that is placed has its rectangle. -/
def Shows (t : Tree) (placements : List Placement) : Prop :=
  ∀ p ∈ placements, ∀ c, t.get? p.id = some c → c.state.sized = true ∧ c.state.rect = p.rect

theorem applyRect_eq_self {id : ComponentId} {rect : Rect}
    (h : ∀ c, t.get? id = some c → c.state.sized = true ∧ c.state.rect = rect) :
    t.applyRect id rect = t := by
  unfold applyRect
  refine modifyState_eq_self fun c hc => ?_
  obtain ⟨hsized, rfl⟩ := h c hc
  have hsame : t.wouldChange id c.state.rect = false := by simp [wouldChange, hc, hsized]
  rw [hsame, Bool.or_false, ← hsized]

theorem applyPlacements_eq_self {placements : List Placement} (h : t.Shows placements) :
    t.applyPlacements placements = t :=
  foldl_eq_self fun x hx => applyRect_eq_self (h x hx)

theorem shows_applyPlacements {placements : List Placement}
    (hnodup : (placements.map Placement.id).Nodup) (t : Tree) :
    (t.applyPlacements placements).Shows placements := by
  refine holds_foldl (fun t p c hc => ?_) (fun t p i hi => ?_) hnodup t
  · rw [get?_applyRect, if_pos rfl] at hc
    obtain ⟨d, -, rfl⟩ := Option.map_eq_some_iff.1 hc
    exact ⟨rfl, rfl⟩
  · rw [get?_applyRect, if_neg (Ne.symm hi)]

theorem Shows.of_agree {placements : List Placement} (h : t.Shows placements) (htu : Agree p t u)
    (hp : ∀ id ∈ placements.map Placement.id, p id) : u.Shows placements := by
  intro x hx c hc
  have hclean := htu.clean x.id (hp _ (List.mem_map_of_mem hx))
  rw [hc] at hclean
  obtain ⟨d, hd, hdc⟩ := Option.map_eq_some_iff.1 hclean
  have hstate := congrArg Component.state hdc
  obtain ⟨hsized, hrect⟩ := h x hx d hd
  exact ⟨(congrArg ComponentState.sized hstate).symm.trans hsized,
    (congrArg ComponentState.rect hstate).symm.trans hrect⟩

end Tree

/-! ## Scenes -/

/-- The component is the container or a child of it. -/
def Tree.Near (t : Tree) (container i : ComponentId) : Prop :=
  i = container ∨ i ∈ t.children container

namespace Scene

/-- The scenes agree on the components of `p` and on what is kept for the containers of `q`. -/
structure Agree (p q : ComponentId → Prop) (s t : Scene) : Prop where
  host : s.host = t.host
  tree : s.tree.Agree p t.tree
  kept : ∀ i, q i → s.kept.get? i = t.kept.get? i

/-- The layout of `container` reads the same from both scenes. -/
structure Sees (container : ComponentId) (s t : Scene) : Prop where
  host : s.host = t.host
  shape : s.tree.SameShape t.tree
  own : (s.tree.get? container).map Component.clean = (t.tree.get? container).map Component.clean
  shown : ∀ i ∈ s.tree.children container, s.tree.isVisible i = t.tree.isVisible i

variable {p q p' q' : ComponentId → Prop} {container : ComponentId} {s t u : Scene}

namespace Agree

theorem refl (p q : ComponentId → Prop) (s : Scene) : Agree p q s s :=
  ⟨rfl, .refl p s.tree, fun _ _ => rfl⟩

theorem trans (h : Agree p q s t) (h' : Agree p q t u) : Agree p q s u :=
  ⟨h.host.trans h'.host, h.tree.trans h'.tree, fun i hi => (h.kept i hi).trans (h'.kept i hi)⟩

theorem mono (h : Agree p q s t) (hp : ∀ i, p' i → p i) (hq : ∀ i, q' i → q i) :
    Agree p' q' s t :=
  ⟨h.host, h.tree.mono hp, fun i hi => h.kept i (hq i hi)⟩

theorem sees (h : Agree p q s t) (hp : ∀ i, s.tree.Near container i → p i) : Sees container s t :=
  ⟨h.host, h.tree.toSameShape, h.tree.clean container (hp _ (.inl rfl)),
    fun i hi => h.tree.isVisible_eq (hp i (.inr hi))⟩

end Agree

/-- What a layout reads of a child depends on its settings and on the host only. -/
theorem member_congr (hhost : s.host = t.host) (hshape : s.tree.SameShape t.tree) :
    s.member = t.member := by
  funext id
  unfold Scene.member Tree.get
  rw [hhost, hshape.size_eq]
  have hconfig := hshape.eq_at (g := Option.map Component.config) (by rintro (_ | _) <;> rfl) id
  cases hs : s.tree.get? id <;> cases ht : t.tree.get? id <;> rw [hs, ht] at hconfig
  case none.some => cases hconfig
  case some.none => cases hconfig
  case some.some c d =>
    rw [Option.map_some, Option.map_some, Option.some.injEq] at hconfig
    change Except.ok (⟨id, c.config, t.host.measure id c.config⟩ : Member) = .ok ⟨id, d.config, _⟩
    rw [hconfig]

theorem get_congr (hshape : s.tree.SameShape t.tree)
    (hown : (s.tree.get? container).map Component.clean =
      (t.tree.get? container).map Component.clean)
    {α : Type} {f : Component → α} (hf : ∀ c : Component, f c.clean = f c) :
    f <$> s.tree.get container = f <$> t.tree.get container := by
  unfold Tree.get
  rw [hshape.size_eq]
  have hmap : ∀ o : Option Component, (o.map Component.clean).map f = o.map f := by
    rintro (_ | c) <;> simp [hf]
  have hread := congrArg (Option.map f) hown
  rw [hmap, hmap] at hread
  cases hs : s.tree.get? container <;> cases ht : t.tree.get? container <;>
    simp_all [Functor.map, Except.map]

theorem targetSize_congr (hhost : s.host = t.host) (hshape : s.tree.SameShape t.tree)
    (hown : (s.tree.get? container).map Component.clean =
      (t.tree.get? container).map Component.clean)
    (hsize : s.host.targetSize = Host.ownSize) :
    s.host.targetSize s.tree container = t.host.targetSize t.tree container := by
  rw [← hhost, hsize]
  exact get_congr hshape hown (f := fun c => c.state.rect.size) fun _ => rfl

namespace Sees

theorem trans (h : Sees container s t) (h' : Sees container t u) : Sees container s u := by
  refine ⟨h.host.trans h'.host, h.shape.trans h'.shape, h.own.trans h'.own, fun i hi => ?_⟩
  rw [h.shown i hi, h'.shown i]
  rwa [← h.shape.children_eq]

theorem visibleChildren_eq (h : Sees container s t) :
    s.tree.visibleChildren container = t.tree.visibleChildren container := by
  unfold Tree.visibleChildren
  rw [← h.shape.children_eq]
  exact List.filter_congr h.shown

theorem member_eq (h : Sees container s t) : s.member = t.member := member_congr h.host h.shape

theorem members_eq (h : Sees container s t) : s.members container = t.members container := by
  unfold Scene.members
  rw [h.visibleChildren_eq, h.member_eq]

theorem framed_eq (h : Sees container s t) (layout : LayoutConfig) :
    s.framed layout container = t.framed layout container := by
  unfold Scene.framed
  rw [h.members_eq]

theorem get_eq (h : Sees container s t) {α : Type} {f : Component → α}
    (hf : ∀ c : Component, f c.clean = f c) :
    f <$> s.tree.get container = f <$> t.tree.get container :=
  get_congr h.shape h.own hf

/-- A container that offers its own size offers the same. -/
theorem targetSize_eq (h : Sees container s t) (hown : s.host.targetSize = Host.ownSize) :
    s.host.targetSize s.tree container = t.host.targetSize t.tree container :=
  targetSize_congr h.host h.shape h.own hown

theorem content_eq (h : Sees container s t) (hown : s.host.targetSize = Host.ownSize)
    (layout : LayoutConfig) : s.content layout container = t.content layout container := by
  unfold Scene.content
  rw [h.targetSize_eq hown]

end Sees

theorem Agree.visibleChildren_eq (h : Agree (s.tree.Near container) q s t) :
    s.tree.visibleChildren container = t.tree.visibleChildren container :=
  (h.sees fun _ hi => hi).visibleChildren_eq

end Scene

end Trellis
