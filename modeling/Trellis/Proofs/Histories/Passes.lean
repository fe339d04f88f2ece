import Trellis.Proofs.Histories.Forests
import Trellis.Proofs.Relayout.Passes

/-!
# What passes preserve

A property that the layout of every container preserves is preserved by a pass over any of them,
whether the pass goes through, is vetoed or is refused on the way. A history is a list of steps, of
which a refused one leaves what it did before the next one begins.

* `Preserved`: what has to be shown of single layouts; `Preserved.of_passWithin`,
  `Preserved.of_layout`: what follows for passes.
* `agree_forM`: the passes over the children of a container leave it and its children alone.
* `exists_arranged`: what a pass over a container leaves of it is what its own layout left.
* `refused_passWithin`: a pass over a container is refused only for want of a center.
* `after`, `after_preserves`: histories, and what all of their steps preserve.
-/
namespace Trellis

theorem Tree.lt_size_of_layoutOf {t : Tree} {c : ComponentId} {layout : LayoutConfig}
    (h : t.layoutOf c = .ok layout) : c < t.size := by
  unfold layoutOf at h
  split at h
  · next hcontains => simpa [contains] using hcontains
  · cases h

/-- A client changes the tree. -/
def Step.edit (f : Tree → Checked Tree) : Step Unit := do
  let t ← check (f (← tree))
  modifyTree fun _ => t

namespace Scene

variable {s s' t : Scene} {layout : LayoutConfig} {container d : ComponentId} {n : Nat}
  {r : Except LayoutError Unit} {D : ComponentId → Prop} {P : Scene → Prop}

/-! ## Properties that passes preserve -/

theorem kept_ready_self (s : Scene) (layout : LayoutConfig) (container : ComponentId) :
    (s.ready layout container).kept.get? container = some (s.arrangement layout container) := by
  rw [kept_ready (.refl s), if_pos rfl]

theorem kind_arrangement (s : Scene) (layout : LayoutConfig) (container : ComponentId) :
    (s.arrangement layout container).kind = layout.kind := by
  unfold arrangement
  cases hkept : (s.kept.get? container).filter fun a => a.kind == layout.kind with
  | none => exact Arrangement.kind_fresh layout
  | some a => simpa using (Option.filter_eq_some_iff.1 hkept).2

/-- The layouts of the containers in `D` preserve `P`, and the children of these are in `D`. -/
structure Preserved (D : ComponentId → Prop) (P : Scene → Prop) : Prop where
  silent : ∀ {s t : Scene}, Silent s t → P s → P t
  down : ∀ {s : Scene} {d : ComponentId}, P s → D d → ∀ x ∈ s.tree.children d, D x
  ready : ∀ {s : Scene} {d : ComponentId} {layout : LayoutConfig}, P s → D d →
    s.tree.layoutOf d = .ok layout → P (s.ready layout d)
  arrange : ∀ {s s' : Scene} {d : ComponentId} {layout : LayoutConfig} {a : Arrangement}
    {r : Except LayoutError Unit}, P s → D d → s.tree.layoutOf d = .ok layout →
    s.kept.get? d = some a → a.kind = layout.kind →
    s.run (Step.arrange layout d a) = .ok (r, s') → P s'

namespace Preserved

/-- Steps over several containers, if steps over single ones preserve the property. -/
theorem forM_of {f : ComponentId → Step Unit}
    (hone : ∀ {s s' : Scene} {r : Except LayoutError Unit} {d : ComponentId}, D d → P s →
      s.run (f d) = .ok (r, s') → P s')
    {containers : List ComponentId} (hcontainers : ∀ x ∈ containers, D x) (hs : P s)
    (h : s.run (containers.forM f) = .ok (r, s')) : P s' := by
  induction containers generalizing s with
  | nil =>
    cases h
    exact hs
  | cons x rest ih =>
    have hx := hcontainers x (by simp)
    rcases run_forM_cons_eq_ok h with ⟨e, hfirst, -⟩ | ⟨mid, hfirst, hrest⟩
    · exact hone hx hs hfirst
    · exact ih (fun y hy => hcontainers y (List.mem_cons_of_mem x hy)) (hone hx hs hfirst) hrest

theorem passOver_of
    (hone : ∀ {s s' : Scene} {r : Except LayoutError Unit} {d : ComponentId}, D d → P s →
      s.run (Step.passWithin n d) = .ok (r, s') → P s')
    (hd : D d) (hs : P s) (h : s.run (Step.passOver n d) = .ok (r, s')) : P s' := by
  rw [run_passOver] at h
  split at h
  · exact hone hd hs h
  · cases h
    exact hs

theorem of_passWithin (h : Preserved D P) (hd : D d) (hs : P s)
    (hrun : s.run (Step.passWithin n d) = .ok (r, s')) : P s' := by
  induction n generalizing s s' r d with
  | zero => cases hrun
  | succ n ih =>
    cases hlayout : s.tree.layoutOf d with
    | error e =>
      rw [run_passWithin_refused n hlayout] at hrun
      cases hrun
      exact hs
    | ok layout =>
      cases hheard : s.host.vetoed d .beforeLayout with
      | true =>
        obtain ⟨told, hsilent, hvetoed⟩ := run_passWithin_vetoed hlayout hheard n
        rw [hvetoed] at hrun
        cases hrun
        exact h.silent hsilent hs
      | false =>
        obtain ⟨told, hsilent, hpass⟩ := run_passWithin_succ hheard hlayout
        rw [hpass, ← arrangement_congr (s := s) (t := told) (by rw [hsilent.kept])] at hrun
        have htold : told.tree.layoutOf d = .ok layout := by rw [hsilent.tree, hlayout]
        have hready : P (told.ready layout d) := h.ready (h.silent hsilent hs) hd htold
        have hreadyLayout : (told.ready layout d).tree.layoutOf d = .ok layout := by
          rw [← htold]
          exact congrFun (told.tree.agree_renderChildren d).toSameShape.layoutOf_eq.symm d
        have harranged : ∀ {r : Except LayoutError Unit} {laid : Scene},
            (told.ready layout d).run (Step.arrange layout d (told.arrangement layout d)) =
              .ok (r, laid) → P laid :=
          h.arrange hready hd hreadyLayout (told.kept_ready_self layout d)
            (told.kind_arrangement layout d)
        rcases run_passOn_eq_ok hrun with ⟨e, harrange, -⟩ |
          ⟨laid, after, harrange, hchildren, hafter⟩
        · exact harranged harrange
        · have hlaid := harranged harrange
          refine h.silent hafter (forM_of (passOver_of fun hd hs hrun => ih hd hs hrun) ?_
            hlaid hchildren)
          exact fun x hx => h.down hlaid hd x (mem_children_of_visible hx)

theorem of_forM (h : Preserved D P) {containers : List ComponentId}
    (hcontainers : ∀ x ∈ containers, D x) (hs : P s)
    (hrun : s.run (containers.forM (Step.passOver n)) = .ok (r, s')) : P s' :=
  forM_of (passOver_of fun hd hs hrun => h.of_passWithin hd hs hrun) hcontainers hs hrun

theorem of_passes (h : Preserved D P) {containers : List ComponentId}
    (hcontainers : ∀ x ∈ containers, D x) (hs : P s)
    (hrun : s.run (containers.forM Step.pass) = .ok (r, s')) : P s' :=
  forM_of (f := Step.pass) (fun {s _ _ _} hd hs hrun =>
    h.of_passWithin (n := s.tree.size) hd hs hrun) hcontainers hs hrun

theorem of_layout (h : Preserved D P) (hd : D d) (hs : P s)
    (hrun : s.run (Step.layout d) = .ok (r, s')) : P s' := by
  refine h.of_passWithin (s := { s with timers := s.timers.modify d Debounce.cancel })
    (n := s.tree.size) hd (h.silent ?_ hs) hrun
  exact ⟨rfl, rfl, rfl⟩

end Preserved

/-! ## A container and the passes over its children -/

/-- Another container's children and what is kept for it are not the container's own. -/
theorem Agree.near (h : s.Agree (· ∉ s.tree.children d) (· ≠ d) t) (hlinked : s.tree.Linked)
    (hne : d ≠ container) (hout : container ∉ s.tree.children d) :
    s.Agree (s.tree.Near container) (· = container) t := by
  refine h.mono (fun i hi hmem => ?_) ?_
  · rcases hi with rfl | hi
    · exact hout hmem
    · rw [hlinked.mem_children] at hi hmem
      rw [hi, Option.some.injEq] at hmem
      exact hne hmem.symm
  · rintro i rfl
    exact hne.symm

theorem agree_ready (s : Scene) (layout : LayoutConfig) (container : ComponentId) :
    s.Agree (· ∉ s.tree.children container) (· ≠ container) (s.ready layout container) := by
  refine ⟨rfl, s.tree.agree_renderChildren container, fun i hi => ?_⟩
  rw [kept_ready (.refl s), if_neg hi]

/-- The layouts of the containers in a container leave it and its children as they are. -/
theorem preserved_near (hforest : s.tree.Forest) (container : ComponentId) :
    Preserved (fun d => d ≠ container ∧ s.tree.Inside container d)
      (s.Agree (s.tree.Near container) (· = container)) := by
  have hout : ∀ {t : Scene} {d}, s.Agree (s.tree.Near container) (· = container) t →
      s.tree.Inside container d → container ∉ t.tree.children d := by
    intro t d ht hin hmem
    rw [← ht.tree.children_eq, hforest.mem_children] at hmem
    exact hforest.not_inside_child hmem hin
  have hstep : ∀ {t u : Scene} {d}, s.Agree (s.tree.Near container) (· = container) t →
      (d ≠ container ∧ s.tree.Inside container d) →
      t.Agree (· ∉ t.tree.children d) (· ≠ d) u →
      s.Agree (s.tree.Near container) (· = container) u := by
    intro t u d ht hd hu
    have hnear := hu.near (ht.tree.toSameShape.linked hforest.toLinked) hd.1 (hout ht hd.2)
    unfold Tree.Near at hnear
    rw [← ht.tree.children_eq] at hnear
    exact ht.trans hnear
  constructor
  · intro t u hsilent ht
    exact ht.trans (hsilent.agree _ _)
  · intro t d ht hd x hx
    rw [← ht.tree.children_eq, hforest.mem_children] at hx
    refine ⟨?_, Relation.ReflTransGen.head hx hd.2⟩
    rintro rfl
    exact hforest.not_inside_child hx hd.2
  · intro t d layout ht hd _
    exact hstep ht hd (t.agree_ready layout d)
  · intro t u d layout a r ht hd _ _ _ hrun
    exact hstep ht hd
      (touches_arrange (ht.tree.toSameShape.linked hforest.toLinked) hrun).toAgree

theorem agree_forM (hforest : s.tree.Forest)
    (h : s.run ((s.tree.visibleChildren container).forM (Step.passOver n)) = .ok (r, s')) :
    s.Agree (s.tree.Near container) (· = container) s' := by
  refine (preserved_near hforest container).of_forM (fun x hx => ?_) (.refl _ _ s) h
  have hparent := hforest.parent?_of_visible x hx
  refine ⟨?_, .single hparent⟩
  rintro rfl
  exact hforest.not_inside_child hparent (s.tree.inside_self x)

/-- What a pass leaves of its container, the container's own layout has left. Unless the pass is
refused, that layout is not. -/
theorem exists_arranged (hforest : s.tree.Forest)
    (hlayout : s.tree.layoutOf container = .ok layout)
    (hheard : s.host.vetoed container .beforeLayout = false)
    (h : s.run (Step.layout container) = .ok (r, s')) :
    ∃ ready r₁ laid, Silent (s.ready layout container) ready ∧
      ready.run (Step.arrange layout container (s.arrangement layout container)) =
        .ok (r₁, laid) ∧ (r = .ok () → r₁ = .ok ()) ∧
      laid.Agree (laid.tree.Near container) (· = container) s' := by
  obtain ⟨n, hn⟩ := Nat.exists_eq_add_one_of_ne_zero
    (Nat.ne_zero_of_lt (Tree.lt_size_of_layoutOf hlayout))
  change Scene.run { s with timers := s.timers.modify container Debounce.cancel }
    (Step.passWithin s.tree.size container) = _ at h
  rw [hn] at h
  obtain ⟨told, hsilent, hpass⟩ := run_passWithin_succ
    (s := { s with timers := s.timers.modify container Debounce.cancel }) hheard hlayout
  rw [hpass] at h
  have hready : Silent (s.ready layout container) (told.ready layout container) := by
    refine ⟨?_, hsilent.host, ?_⟩
    · simp only [Scene.ready, hsilent.tree]
    · simp only [Scene.ready, Scene.arrangement, hsilent.kept]
  have hshape := (s.tree.agree_renderChildren container).toSameShape
  rcases run_passOn_eq_ok h with ⟨e, harrange, rfl⟩ | ⟨laid, after, harrange, hchildren, hafter⟩
  · exact ⟨_, _, s', hready, harrange, id, .refl _ _ s'⟩
  · refine ⟨_, _, laid, hready, harrange, fun _ => rfl, ?_⟩
    have hreadyForest : (told.ready layout container).tree.Forest := by
      rw [hready.tree]
      exact hshape.forest hforest
    have htouches := touches_arrange hreadyForest.toLinked harrange
    exact (agree_forM (htouches.tree.toSameShape.forest hreadyForest) hchildren).trans
      (hafter.agree _ _)

/-! ## Refusals -/

/-- A pass over a container is refused only for want of a center, there or in a container in it. -/
theorem refused_passWithin {e : LayoutError} (hlayout : s.tree.layoutOf d = .ok layout)
    (h : s.run (Step.passWithin n d) = .ok (.error e, s')) :
    ∃ c, e = .missingCenterRegion c := by
  induction n generalizing s s' d layout with
  | zero => cases h
  | succ n ih =>
    have hchildren : ∀ {containers : List ComponentId} {s s' : Scene},
        s.run (containers.forM (Step.passOver n)) = .ok (.error e, s') →
        ∃ c, e = .missingCenterRegion c := by
      intro containers
      induction containers with
      | nil =>
        intro s s' hrun
        cases hrun
      | cons x rest ihRest =>
        intro s s' hrun
        rcases run_forM_cons_eq_ok hrun with ⟨e', hfirst, heq⟩ | ⟨mid, -, hrest⟩
        · cases heq
          rw [run_passOver] at hfirst
          split at hfirst
          · next hcontainer =>
            obtain ⟨layout, hx⟩ := Option.isSome_iff_exists.1 hcontainer
            have hlayout : s.tree.layoutOf x = .ok layout := by
              unfold Tree.layoutOf
              rw [if_pos (by simpa [Tree.contains] using Tree.lt_size_of_layout? hcontainer), hx]
            exact ih hlayout hfirst
          · cases hfirst
        · exact ihRest hrest
    cases hheard : s.host.vetoed d .beforeLayout with
    | true =>
      obtain ⟨told, -, hvetoed⟩ := run_passWithin_vetoed hlayout hheard n
      rw [hvetoed] at h
      cases h
    | false =>
      obtain ⟨told, -, hpass⟩ := run_passWithin_succ hheard hlayout
      rw [hpass] at h
      rcases run_passOn_eq_ok h with ⟨e', harrange, heq⟩ | ⟨laid, after, -, hbelow, -⟩
      · cases heq
        exact ⟨d, refused_arrange harrange⟩
      · exact hchildren hbelow

theorem refused_layout {e : LayoutError} (hlayout : s.tree.layoutOf d = .ok layout)
    (h : s.run (Step.layout d) = .ok (.error e, s')) : ∃ c, e = .missingCenterRegion c :=
  refused_passWithin (s := { s with timers := s.timers.modify d Debounce.cancel }) hlayout h

/-! ## Histories -/

theorem run_edit_eq_ok {f : Tree → Checked Tree} (h : s.run (Step.edit f) = .ok (r, s')) :
    ∃ t, f s.tree = .ok t ∧ s' = { s with tree := t } := by
  rw [Step.edit, run_bind, run_tree, Length.ok_bind] at h
  dsimp only at h
  rw [run_bind, run_check, bind_assoc] at h
  obtain ⟨t, ht, h⟩ := Length.bind_eq_ok.1 h
  cases h
  exact ⟨t, ht, rfl⟩

/-- The scene that a history of steps leaves. A step that is refused leaves what it did before. -/
def after (s : Scene) : List (Step Unit) → Checked Scene
  | [] => .ok s
  | x :: rest => do
    let (_, s') ← s.run x
    s'.after rest

/-- A history that goes through, by what `view` shows of the scene that it leaves. -/
theorem after_of_view {α : Type} {history : List (Step Unit)} {view : Scene → α} {a : α}
    (h : (s.after history).toOption.map view = some a) :
    ∃ s', s.after history = .ok s' ∧ view s' = a := by
  cases hs' : s.after history with
  | error fault =>
    rw [hs'] at h
    cases h
  | ok s' =>
    rw [hs'] at h
    exact ⟨s', rfl, Option.some.inj h⟩

/-- What `view` shows of the last step after a history: of the scene before it, of its result, and
of the scene that it leaves. -/
def viewLast {α β : Type} (s : Scene) (history : List (Step Unit)) (x : Step α)
    (view : Scene → Except LayoutError α → Scene → β) : Option β :=
  match s.after history with
  | .error _ => none
  | .ok mid =>
    match mid.run x with
    | .error _ => none
    | .ok (r, s') => some (view mid r s')

theorem runs_of_viewLast {α β : Type} {history : List (Step Unit)} {x : Step α}
    {view : Scene → Except LayoutError α → Scene → β} {b : β}
    (h : s.viewLast history x view = some b) :
    ∃ mid r s', s.after history = .ok mid ∧ mid.run x = .ok (r, s') ∧ view mid r s' = b := by
  unfold viewLast at h
  split at h
  · cases h
  · next mid hmid =>
    split at h
    · cases h
    · next r s' hrun => exact ⟨mid, r, s', hmid, hrun, Option.some.inj h⟩

/-- What every step of a history preserves, the history preserves. -/
theorem after_preserves {history : List (Step Unit)}
    (hsteps : ∀ x ∈ history, ∀ {s s' : Scene} {r : Except LayoutError Unit}, P s →
      s.run x = .ok (r, s') → P s')
    (hs : P s) (h : s.after history = .ok s') : P s' := by
  induction history generalizing s with
  | nil =>
    cases h
    exact hs
  | cons x rest ih =>
    unfold after at h
    obtain ⟨⟨r, mid⟩, hfirst, h⟩ := Length.bind_eq_ok.1 h
    exact ih (fun y hy => hsteps y (List.mem_cons_of_mem x hy))
      (hsteps x (by simp) hs hfirst) h

end Scene

end Trellis
