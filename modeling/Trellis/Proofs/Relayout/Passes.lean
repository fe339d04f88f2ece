import Trellis.Proofs.Relayout.Kinds

/-!
# Passes stay inside their container

A pass goes down the tree and lays out each container once. What it changes is in the container it
starts from, so the passes over two children of a container do not see one another, and a container
does not notice the passes over its children.

* `told`: the scene once the host has been told; `run_notify_eq`: telling it does nothing else.
* `run_passWithin_open`, `run_passOn_eq_ok`: one level of a pass.
* `Confined`: nothing changes but what is in some containers; `confined_forM`,
  `confined_passWithin`: a pass is confined to what it is a pass over.
* `Confined.near`, `Confined.outside`: what that leaves as it was.
* `run_passWithin_of_le`: no pass over a nested tree comes to the end of its bound on nesting.
-/
namespace Trellis

namespace Tree

/-- The layout of a container, or why there is none. -/
def layoutOf (t : Tree) (id : ComponentId) : Except LayoutError LayoutConfig :=
  if t.contains id then
    match t.layout? id with
    | some c => .ok c
    | none => .error (.notAContainer id)
  else .error (.unknownComponent id)

theorem SameShape.layoutOf_eq {t u : Tree} (h : t.SameShape u) : t.layoutOf = u.layoutOf := by
  funext id
  unfold layoutOf
  rw [h.contains_eq, h.layout?_eq]

theorem SameShape.inside_eq {t u : Tree} (h : t.SameShape u) : t.Inside = u.Inside := by
  funext container i
  unfold Inside
  rw [h.parent?_eq]

theorem lt_size_of_layout? {t : Tree} {i : ComponentId} (h : (t.layout? i).isSome) :
    i < t.size := by
  by_contra hge
  have hnone : t.get? i = none := Array.getElem?_eq_none (Nat.le_of_not_lt hge)
  simp [layout?, hnone] at h

/-- The component is one of `containers` or in one of them. -/
def Within (t : Tree) (containers : List ComponentId) (i : ComponentId) : Prop :=
  ∃ c ∈ containers, t.Inside c i

@[simp] theorem within_singleton (t : Tree) (c i : ComponentId) :
    t.Within [c] i ↔ t.Inside c i := by
  simp [Within]

theorem SameShape.within_eq {t u : Tree} (h : t.SameShape u) : t.Within = u.Within := by
  funext containers i
  unfold Within
  rw [h.inside_eq]

/-- What is in one child of a container is in no other. -/
theorem Nested.not_within {t : Tree} (h : t.Nested) {c x i : ComponentId}
    {others : List ComponentId} (hparents : ∀ y ∈ x :: others, t.parent? y = some c)
    (hx : x ∉ others) (hi : t.Inside x i) : ¬ t.Within others i := by
  rintro ⟨y, hy, hi'⟩
  have heq := h.apart (hparents x (by simp)) (hparents y (by simp [hy])) hi hi'
  exact hx (heq ▸ hy)

theorem Nested.inside_of_near {t : Tree} (h : t.Nested) {c i : ComponentId} (hi : t.Near c i) :
    t.Inside c i := by
  rcases hi with rfl | hi
  · exact t.inside_self i
  · exact .of_child (t.inside_self i) ((h.mem_children c i).1 hi)

/-- Render the children of a container. -/
def renderChildren (t : Tree) (container : ComponentId) : Tree :=
  (t.children container).foldl (fun t id => t.modifyState id fun s => { s with rendered := true }) t

theorem spares_renderChildren (t : Tree) (container : ComponentId) :
    Spares (· ∉ t.children container) t (t.renderChildren container) :=
  spares_foldl (fun t _ hid => spares_modifyState t _ fun hnot => hnot hid) t

theorem agree_renderChildren (t : Tree) (container : ComponentId) :
    Agree (· ∉ t.children container) t (t.renderChildren container) :=
  (spares_renderChildren t container).agree

theorem isRendered_renderChildren {t : Tree} (hnested : t.Nested) {container i : ComponentId}
    (hi : i ∈ t.children container) : (t.renderChildren container).isRendered i = true := by
  have hshape := (agree_renderChildren t container).toSameShape
  have hchild : i ∈ (t.renderChildren container).children container := by
    rwa [← hshape.children_eq]
  obtain ⟨c, hc⟩ := (hshape.nested hnested).exists_child hchild
  have hnodup : ((t.children container).map id).Nodup := by
    rw [List.map_id]
    exact hnested.nodup container
  have hrendered : c.state.rendered = true := by
    refine holds_foldl (P := fun _ c => c.state.rendered = true) (fun t i c hc => ?_)
      (fun t i j hj => ?_) hnodup t i hi c hc
    · rw [get?_modifyState, if_pos (show i = id i from rfl)] at hc
      obtain ⟨d, -, rfl⟩ := Option.map_eq_some_iff.1 hc
      rfl
    · rw [get?_modifyState, if_neg fun heq : i = j => hj heq.symm]
  simp [isRendered, hc, hrendered]

/-- Children that are rendered stay as they are. -/
theorem renderChildren_eq_self {t : Tree} {container : ComponentId}
    (h : ∀ i ∈ t.children container, t.isRendered i = true) : t.renderChildren container = t := by
  refine foldl_eq_self fun i hi => modifyState_eq_self fun c hc => ?_
  have hrendered : c.state.rendered = true := by simpa [isRendered, hc] using h i hi
  rw [← hrendered]

end Tree

/-- The pass over a child, which does nothing unless the child is a container. -/
def Step.passOver (n : Nat) (child : ComponentId) : Step Unit := do
  if ((← tree).layout? child).isSome then passWithin n child

/-- What a pass does once the children are rendered. -/
def Step.passOn (n : Nat) (layout : LayoutConfig) (container : ComponentId) (a : Arrangement) :
    Step Unit := do
  arrange layout container a
  let children := (← tree).visibleChildren container
  children.forM (passOver n)
  let _ ← notify container .afterLayout

namespace Scene

variable {s s' t : Scene} {layout : LayoutConfig} {container child : ComponentId} {n : Nat}
  {r : Except LayoutError Unit}

/-! ## One level of a pass -/

/-- What is kept for the container, made anew if there is nothing or if its kind of layout has
changed. -/
def arrangement (s : Scene) (layout : LayoutConfig) (container : ComponentId) : Arrangement :=
  ((s.kept.get? container).filter fun a => a.kind == layout.kind).getD (.fresh layout)

theorem arrangement_congr (h : t.kept.get? container = s.kept.get? container) :
    t.arrangement layout container = s.arrangement layout container := by
  rw [arrangement, arrangement, h]

theorem arrangement_of_kept {kept : Arrangement} (hkept : s.kept.get? container = some kept)
    (hkind : kept.kind = layout.kind) : s.arrangement layout container = kept := by
  rw [arrangement, hkept, Option.filter_some, if_pos (beq_iff_eq.2 hkind), Option.getD_some]

theorem arrangement_of_unused (h : s.kept.get? container = none) :
    s.arrangement layout container = .fresh layout := by
  rw [arrangement, h, Option.filter_none, Option.getD_none]

/-- The scene in which the layout of the container places its children. -/
def ready (s : Scene) (layout : LayoutConfig) (container : ComponentId) : Scene :=
  { s with
    tree := s.tree.renderChildren container
    kept := s.kept.insert container (s.arrangement layout container) }

theorem kept_ready (h : Silent s t) (layout : LayoutConfig) (container i : ComponentId) :
    (t.ready layout container).kept.get? i =
      if i = container then some (s.arrangement layout container) else s.kept.get? i := by
  rw [ready, arrangement, h.kept, IdMap.get?_insert]
  rfl

theorem run_layoutConfig (s : Scene) :
    s.run (Step.layoutConfig container) = .ok (s.tree.layoutOf container, s) := by
  rw [Step.layoutConfig, run_bind, run_tree, Length.ok_bind]
  dsimp only
  unfold Tree.layoutOf
  split
  · cases s.tree.layout? container <;> rfl
  · rfl

theorem run_passOver (s : Scene) (n : Nat) (child : ComponentId) :
    s.run (Step.passOver n child) = if (s.tree.layout? child).isSome then
      s.run (Step.passWithin n child) else .ok (.ok (), s) := by
  rw [Step.passOver, run_bind, run_tree, Length.ok_bind]
  dsimp only
  split <;> rfl

theorem run_forM_cons_eq_ok {α : Type} {f : α → Step Unit} {x : α} {xs : List α}
    (h : s.run ((x :: xs).forM f) = .ok (r, s')) :
    (∃ e, s.run (f x) = .ok (.error e, s') ∧ r = .error e) ∨
      ∃ mid, s.run (f x) = .ok (.ok (), mid) ∧ mid.run (xs.forM f) = .ok (r, s') := by
  rw [List.forM, run_bind, Length.bind_eq_ok] at h
  obtain ⟨⟨_ | _, mid⟩, hfirst, h⟩ := h
  · cases h
    exact .inl ⟨_, hfirst, rfl⟩
  · exact .inr ⟨mid, hfirst, h⟩

/-- The scene once the host has been told. -/
def told (s : Scene) (id : ComponentId) (e : Event) : Scene :=
  if s.host.listens then { s with events := s.events ++ [(id, e)] } else s

theorem run_notify_eq (s : Scene) (id : ComponentId) (e : Event) :
    s.run (Step.notify id e) = .ok (.ok (!s.host.vetoed id e), s.told id e) :=
  run_notify s id e

@[simp] theorem tree_told (s : Scene) (id : ComponentId) (e : Event) :
    (s.told id e).tree = s.tree := by
  unfold told
  split <;> rfl

@[simp] theorem host_told (s : Scene) (id : ComponentId) (e : Event) :
    (s.told id e).host = s.host := by
  unfold told
  split <;> rfl

@[simp] theorem kept_told (s : Scene) (id : ComponentId) (e : Event) :
    (s.told id e).kept = s.kept := by
  unfold told
  split <;> rfl

@[simp] theorem timers_told (s : Scene) (id : ComponentId) (e : Event) :
    (s.told id e).timers = s.timers := by
  unfold told
  split <;> rfl

theorem events_told (hlistens : s.host.listens = true) (id : ComponentId) (e : Event) :
    (s.told id e).events = s.events ++ [(id, e)] := by
  unfold told
  rw [if_pos hlistens]

theorem silent_told (s : Scene) (id : ComponentId) (e : Event) : Silent s (s.told id e) :=
  ⟨tree_told .., host_told .., kept_told ..⟩

theorem exists_run_notify (s : Scene) (id : ComponentId) (e : Event) :
    ∃ told, Silent s told ∧ s.run (Step.notify id e) = .ok (.ok (!s.host.vetoed id e), told) :=
  ⟨s.told id e, silent_told s id e, run_notify_eq s id e⟩

theorem run_renderChildren (s : Scene) (container : ComponentId) :
    s.run (Step.renderChildren container) =
      .ok (.ok (), { s with tree := s.tree.renderChildren container }) :=
  rfl

theorem run_arrangement (hlayout : s.tree.layoutOf container = .ok layout) :
    s.run (Step.arrangement container) = .ok (.ok (s.arrangement layout container),
      { s with kept := s.kept.insert container (s.arrangement layout container) }) := by
  rw [Step.arrangement, run_bind, run_layoutConfig, hlayout]
  rfl

theorem run_passWithin_refused {e : LayoutError} (n : Nat)
    (hlayout : s.tree.layoutOf container = .error e) :
    s.run (Step.passWithin (n + 1) container) = .ok (.error e, s) := by
  rw [Step.passWithin, run_bind, run_layoutConfig, hlayout]
  rfl

theorem run_passWithin_silenced (hlayout : s.tree.layoutOf container = .ok layout)
    (hvetoed : s.host.vetoed container .beforeLayout = true) (n : Nat) :
    s.run (Step.passWithin (n + 1) container) =
      .ok (.ok (), s.told container .beforeLayout) := by
  rw [Step.passWithin, run_bind, run_layoutConfig, Length.ok_bind, hlayout]
  dsimp only
  rw [run_bind, run_notify_eq, Length.ok_bind, hvetoed]
  rfl

theorem run_passWithin_vetoed (hlayout : s.tree.layoutOf container = .ok layout)
    (hvetoed : s.host.vetoed container .beforeLayout = true) (n : Nat) :
    ∃ told, Silent s told ∧ s.run (Step.passWithin (n + 1) container) = .ok (.ok (), told) :=
  ⟨_, silent_told s container .beforeLayout, run_passWithin_silenced hlayout hvetoed n⟩

theorem run_passWithin_open (hlayout : s.tree.layoutOf container = .ok layout)
    (hheard : s.host.vetoed container .beforeLayout = false) (n : Nat) :
    s.run (Step.passWithin (n + 1) container) =
      ((s.told container .beforeLayout).ready layout container).run
        (Step.passOn n layout container (s.arrangement layout container)) := by
  have hrendered : ((s.told container .beforeLayout).tree.renderChildren container).layoutOf
      container = .ok layout := by
    rw [← (Tree.agree_renderChildren _ container).toSameShape.layoutOf_eq, tree_told, hlayout]
  have hkept : (s.told container .beforeLayout).arrangement layout container =
      s.arrangement layout container :=
    arrangement_congr (by rw [kept_told])
  have harrangement := run_arrangement
    (s := { s.told container .beforeLayout with
      tree := (s.told container .beforeLayout).tree.renderChildren container }) hrendered
  rw [Step.passWithin, run_bind, run_layoutConfig, Length.ok_bind, hlayout]
  dsimp only
  rw [run_bind, run_notify_eq, Length.ok_bind, hheard]
  dsimp only
  rw [Bool.not_false, if_pos rfl, run_bind, run_renderChildren, Length.ok_bind]
  dsimp only
  rw [run_bind, harrangement, ← hkept, Length.ok_bind]
  dsimp only
  unfold Step.passOn Step.passOver
  rfl

theorem run_passWithin_succ (hheard : s.host.vetoed container .beforeLayout = false)
    (hlayout : s.tree.layoutOf container = .ok layout) :
    ∃ told, Silent s told ∧ ∀ n, s.run (Step.passWithin (n + 1) container) =
      (told.ready layout container).run
        (Step.passOn n layout container (s.arrangement layout container)) :=
  ⟨_, silent_told s container .beforeLayout, run_passWithin_open hlayout hheard⟩

theorem run_passOn_eq_ok {a : Arrangement}
    (h : s.run (Step.passOn n layout container a) = .ok (r, s')) :
    (∃ e, s.run (Step.arrange layout container a) = .ok (.error e, s') ∧ r = .error e) ∨
    ∃ laid after, s.run (Step.arrange layout container a) = .ok (.ok (), laid) ∧
      laid.run ((laid.tree.visibleChildren container).forM (Step.passOver n)) = .ok (r, after) ∧
      Silent after s' := by
  rw [Step.passOn, run_bind, Length.bind_eq_ok] at h
  obtain ⟨⟨_ | _, laid⟩, harrange, h⟩ := h
  · cases h
    exact .inl ⟨_, harrange, rfl⟩
  · dsimp only at h
    rw [run_bind, run_tree, Length.ok_bind] at h
    dsimp only at h
    rw [run_bind, Length.bind_eq_ok] at h
    obtain ⟨⟨r₁, after⟩, hchildren, h⟩ := h
    obtain ⟨told, hsilent, hafter⟩ := after.exists_run_notify container .afterLayout
    cases r₁ with
    | error e =>
      cases h
      exact .inr ⟨laid, s', harrange, hchildren, ⟨rfl, rfl, rfl⟩⟩
    | ok u =>
      dsimp only at h
      rw [run_bind, hafter, Length.ok_bind] at h
      cases h
      exact .inr ⟨laid, after, harrange, hchildren, hsilent⟩

/-! ## What a pass leaves alone -/

/-- Nothing changes but what is in one of `containers`, and what is kept for these and for the
containers in them. -/
def Confined (containers : List ComponentId) (s s' : Scene) : Prop :=
  s.Agree (fun i => ∀ c ∈ containers, s.tree.Inside c i → i = c)
    (fun i => ¬ s.tree.Within containers i) s'

variable {containers : List ComponentId}

theorem Confined.refl (containers : List ComponentId) (s : Scene) : Confined containers s s :=
  Agree.refl _ _ s

theorem Confined.trans (h : Confined containers s t) (h' : Confined containers t s') :
    Confined containers s s' := by
  have hshape := Agree.tree h |>.toSameShape
  unfold Confined at h'
  rw [← hshape.inside_eq, ← hshape.within_eq] at h'
  exact Agree.trans h h'

theorem Confined.mono {others : List ComponentId} (h : Confined containers s t)
    (hsub : ∀ c ∈ containers, c ∈ others) : Confined others s t :=
  Agree.mono h (fun _ hi c hc => hi c (hsub c hc)) fun _ hi ⟨c, hc, hin⟩ => hi ⟨c, hsub c hc, hin⟩

theorem Silent.confined (h : Silent s t) (containers : List ComponentId) :
    Confined containers s t :=
  h.agree _ _

/-- What is changed in the children of a container is changed in the container. -/
theorem Confined.of_children (h : Confined containers s t) (hnested : s.tree.Nested)
    (hchildren : ∀ x ∈ containers, s.tree.parent? x = some container) :
    Confined [container] s t := by
  refine Agree.mono h (fun i hi x hx hin => ?_) fun i hi ⟨x, hx, hin⟩ => ?_
  · have hparent := hchildren x hx
    have heq : i = container := hi container (by simp) (hin.of_child hparent)
    subst heq
    exact absurd hin (hnested.not_inside_child hparent)
  · rw [Tree.within_singleton] at hi
    exact hi (hin.of_child (hchildren x hx))

theorem Agree.confined (h : s.Agree (· ∉ s.tree.children container) (· ≠ container) t)
    (hnested : s.tree.Nested) : Confined [container] s t := by
  refine h.mono (fun i hi hmem => ?_) fun i hi heq => ?_
  · have hparent := (hnested.mem_children container i).1 hmem
    obtain rfl : i = container := hi container (by simp) (.of_child (s.tree.inside_self i) hparent)
    exact Nat.lt_irrefl _ (hnested.older _ _ hparent)
  · subst heq
    rw [Tree.within_singleton] at hi
    exact hi (s.tree.inside_self i)

/-- Rendering the children and keeping a layout for the container. -/
theorem Silent.confined_ready (h : Silent s t) (hnested : s.tree.Nested) (layout : LayoutConfig)
    (container : ComponentId) : Confined [container] s (t.ready layout container) := by
  have hready : Confined [container] t (t.ready layout container) := by
    refine Agree.confined ⟨rfl, t.tree.agree_renderChildren container, fun i hi => ?_⟩ ?_
    · rw [ready, IdMap.get?_insert, if_neg hi]
    · rwa [h.tree]
  exact (h.confined [container]).trans hready

/-- If the passes over single containers are confined to them, so are the passes over many. -/
theorem confined_forM_of
    (hone : ∀ {s s' : Scene} {r : Except LayoutError Unit} (x : ComponentId), s.Plain →
      s.run (Step.passWithin n x) = .ok (r, s') → Confined [x] s s')
    (hs : s.Plain) (h : s.run (containers.forM (Step.passOver n)) = .ok (r, s')) :
    Confined containers s s' := by
  induction containers generalizing s with
  | nil =>
    cases h
    exact .refl [] s'
  | cons x rest ih =>
    have hover : ∀ {r : Except LayoutError Unit} {mid : Scene},
        s.run (Step.passOver n x) = .ok (r, mid) → Confined [x] s mid := by
      intro r mid hfirst
      rw [run_passOver] at hfirst
      split at hfirst
      · exact hone x hs hfirst
      · cases hfirst
        exact .refl [x] _
    rcases run_forM_cons_eq_ok h with ⟨e, hfirst, -⟩ | ⟨mid, hfirst, hrest⟩
    · exact (hover hfirst).mono (by simp)
    · have hx := hover hfirst
      have hmid := ih (Agree.plain hx hs) hrest
      exact (hx.mono (by simp)).trans (hmid.mono fun c hc => List.mem_cons_of_mem x hc)

theorem confined_passWithin (hs : s.Plain)
    (h : s.run (Step.passWithin n container) = .ok (r, s')) : Confined [container] s s' := by
  induction n generalizing s s' r container with
  | zero => cases h
  | succ n ih =>
    cases hlayout : s.tree.layoutOf container with
    | error e =>
      rw [run_passWithin_refused n hlayout] at h
      cases h
      exact .refl [container] s
    | ok layout =>
      obtain ⟨told, hsilent, hrun⟩ := run_passWithin_succ (hs.vetoesNothing _ _) hlayout
      rw [hrun] at h
      have hready := hsilent.confined_ready hs.nested layout container
      have hplain := Agree.plain hready hs
      rcases run_passOn_eq_ok h with ⟨e, harrange, -⟩ | ⟨laid, after, harrange, hchildren, hafter⟩
      · exact hready.trans
          ((touches_arrange hplain.nested.linked harrange).toAgree.confined hplain.nested)
      · have hlaid := hready.trans
          ((touches_arrange hplain.nested.linked harrange).toAgree.confined hplain.nested)
        have hlaidPlain := Agree.plain hlaid hs
        have hbelow := confined_forM_of (fun x hx hrun => ih hx hrun) hlaidPlain hchildren
        have hparents := hlaidPlain.nested.linked.parent?_of_visible (c := container)
        exact (hlaid.trans (hbelow.of_children hlaidPlain.nested hparents)).trans
          (hafter.confined [container])

theorem confined_forM (hs : s.Plain)
    (h : s.run (containers.forM (Step.passOver n)) = .ok (r, s')) : Confined containers s s' :=
  confined_forM_of (fun _ hx hrun => confined_passWithin hx hrun) hs h

theorem confined_passOver (hs : s.Plain) (h : s.run (Step.passOver n child) = .ok (r, s')) :
    Confined [child] s s' := by
  rw [run_passOver] at h
  split at h
  · exact confined_passWithin hs h
  · cases h
    exact .refl [child] _

theorem Confined.outside {p : ComponentId → Prop} (h : Confined containers s t)
    (hp : ∀ i, p i → ¬ s.tree.Within containers i) : s.Agree p p t :=
  Agree.mono h (fun i hi c hc hin => absurd ⟨c, hc, hin⟩ (hp i hi)) hp

/-- A container does not notice what happens in its children. -/
theorem Confined.near (h : Confined containers s t) (hnested : s.tree.Nested)
    (hchildren : ∀ x ∈ containers, s.tree.parent? x = some container) :
    s.Agree (s.tree.Near container) (· = container) t := by
  refine Agree.mono h (fun i hi x hx hin => ?_) ?_
  · rcases hi with rfl | hi
    · exact absurd hin (hnested.not_inside_child (hchildren x hx))
    · have hparent := (hnested.mem_children container i).1 hi
      exact hnested.apart hparent (hchildren x hx) (s.tree.inside_self i) hin
  · rintro i rfl ⟨x, hx, hin⟩
    exact hnested.not_inside_child (hchildren x hx) hin

/-! ## The bound on nesting -/

theorem run_passOn_congr {m : Nat} {a : Arrangement}
    (h : ∀ laid, s.run (Step.arrange layout container a) = .ok (.ok (), laid) →
      laid.run ((laid.tree.visibleChildren container).forM (Step.passOver m)) =
        laid.run ((laid.tree.visibleChildren container).forM (Step.passOver n))) :
    s.run (Step.passOn m layout container a) = s.run (Step.passOn n layout container a) := by
  refine run_bind_congr fun _ laid harrange => ?_
  rw [run_bind, run_bind, run_tree, Length.ok_bind, Length.ok_bind]
  dsimp only
  rw [run_bind, run_bind, h laid harrange]

theorem run_forM_congr {m size : Nat} (hs : s.Plain) (hsize : s.tree.size = size)
    (h : ∀ {s : Scene}, s.Plain → s.tree.size = size → ∀ x ∈ containers,
      s.run (Step.passOver m x) = s.run (Step.passOver n x)) :
    s.run (containers.forM (Step.passOver m)) = s.run (containers.forM (Step.passOver n)) := by
  induction containers generalizing s with
  | nil => rfl
  | cons x rest ih =>
    rw [List.forM, List.forM, run_bind, h hs hsize x (by simp), ← run_bind]
    refine run_bind_congr fun _ mid hfirst => ?_
    have hconfined := confined_passOver hs hfirst
    exact ih (Agree.plain hconfined hs) (hconfined.tree.toSameShape.size_eq.symm.trans hsize)
      fun hs hsize y hy => h hs hsize y (List.mem_cons_of_mem x hy)

/-- What is laid out after a container is younger, so no pass comes to the end of a bound that
counts the components from the container on. -/
theorem run_passWithin_of_le {m : Nat} (hs : s.Plain) (hcontainer : container < s.tree.size)
    (hn : s.tree.size ≤ n + container) (hm : n ≤ m) :
    s.run (Step.passWithin m container) = s.run (Step.passWithin n container) := by
  induction n generalizing s container m with
  | zero => exact absurd hcontainer (by simpa using hn)
  | succ n ih =>
    obtain ⟨m, rfl⟩ := Nat.exists_eq_add_of_le' (Nat.le_trans n.succ_pos hm)
    cases hlayout : s.tree.layoutOf container with
    | error e =>
      rw [run_passWithin_refused m hlayout, run_passWithin_refused n hlayout]
    | ok layout =>
      obtain ⟨told, hsilent, hrun⟩ := run_passWithin_succ (hs.vetoesNothing _ _) hlayout
      rw [hrun, hrun]
      have hready := hsilent.confined_ready hs.nested layout container
      refine run_passOn_congr fun laid harrange => ?_
      have htouches := touches_arrange (Agree.plain hready hs).nested.linked harrange
      have hshape := hready.tree.toSameShape.trans htouches.tree.toSameShape
      have hlaid := htouches.toAgree.plain (Agree.plain hready hs)
      refine run_forM_congr hlaid hshape.size_eq.symm fun {s₁} hs₁ hsize x hx => ?_
      have hyounger := hlaid.nested.older _ _ (hlaid.nested.linked.parent?_of_visible x hx)
      rw [run_passOver, run_passOver]
      split
      · next hchild =>
        have hlt := Tree.lt_size_of_layout? hchild
        refine ih hs₁ hlt ?_ (Nat.le_of_succ_le_succ hm)
        rw [hsize]
        exact Nat.le_trans hn (by rw [Nat.succ_add]; exact Nat.add_lt_add_left hyounger n)
      · rfl

end Scene

end Trellis
