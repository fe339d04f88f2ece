import Trellis.Proofs.Passes.Records

/-!
# Switching the active child

A container of cards or an accordion is told which child is to be active. The child is kept before
the container is laid out, and the layout chooses again, by its own rules. A container of cards
chooses among all children, so it always comes to the child it was told. An accordion chooses among
the visible ones, and goes back to the child that the settings name, or to the first visible one, if
the child it was told is hidden. The host is told of the switch all the same.

* `Scene.run_setActiveItem_eq_ok`, `Scene.run_handOver_eq_ok`: the two ways in which a switch goes
  through.
* `Scene.lasting_quiet`: no pass tells the host of a switch.
* `Scene.active_of_cards`, `Scene.active_of_accordion`: what becomes of the child that is kept.
* `active_child_switches`: what a switch leaves.
-/
namespace Trellis

/-- Whether the host is told that the active child has changed. -/
def Event.isSwitch : Event → Bool
  | .activate | .deactivate => true
  | _ => false

/-- What is kept once `item` is to be the active child. -/
def Arrangement.activate (item : ComponentId) : Arrangement → Arrangement
  | .card _ => .card (some item)
  | .accordion _ => .accordion (some item)
  | other => other

/-- A layout that has an active child. -/
def Arrangement.Switches : Arrangement → Prop
  | .card _ | .accordion _ => True
  | _ => False

/-- What a switch from the child `previous` goes on with once `item` is kept. -/
def Step.handOver (c item : ComponentId) (previous : Option ComponentId) : Step Bool := do
  if previous = some item then return false
  match previous with
  | some id => let _ ← Step.notify id .deactivate
  | none => pure ()
  Step.layout c
  let _ ← Step.notify item .activate
  return true

theorem chooseActive_eq_iff {candidates : List ComponentId} {item : ComponentId}
    {configured : Option ComponentId} :
    chooseActive candidates (some item) configured = some item ↔
      item ∈ candidates ∨ configured = some item := by
  unfold chooseActive
  by_cases hmem : item ∈ candidates
  · simp [hmem]
  · have hkept : (some item).filter candidates.contains = none := by simp [hmem]
    rw [hkept, Option.none_or]
    cases configured with
    | some i => simp [hmem]
    | none =>
      simp only [Option.none_or, hmem, false_or, reduceCtorEq, iff_false]
      exact fun hhead => hmem (List.mem_of_head? hhead)

namespace Scene

variable {s s' t : Scene} {layout : LayoutConfig} {c item : ComponentId} {a : Arrangement} {b : Bool}

/-- The child that a switch leaves: the active one, or else the one that the settings name, or else
the first visible one. -/
def outgoing (s : Scene) (layout : LayoutConfig) (c : ComponentId) : Option ComponentId :=
  (s.activeItem c).or ((s.tree.resolve c layout.activeItem).or (s.tree.visibleChildren c).head?)

/-- The scene in which `item` is kept as the active child. -/
def chosen (s : Scene) (c : ComponentId) (a : Arrangement) (item : ComponentId) : Scene :=
  { s with kept := (s.kept.insert c a).insert c (a.activate item) }

/-- The scene once the host has been told of the child that a switch leaves. -/
def left (s : Scene) (previous : Option ComponentId) : Scene :=
  previous.elim s fun id => s.told id .deactivate

theorem run_layout_activate_eq_ok (h : s.run (do
      Step.layout c
      let _ ← Step.notify item .activate
      pure true) = .ok (.ok b, s')) :
    b = true ∧ ∃ laid, s.run (Step.layout c) = .ok (.ok (), laid) ∧ s' = laid.told item .activate := by
  obtain ⟨_, laid, hlayout, h⟩ := run_bind_eq_ok.1 h
  rw [run_bind, run_notify_eq, Length.ok_bind] at h
  cases h
  exact ⟨rfl, laid, hlayout, rfl⟩

/-- A switch ends at once if the child was active or would have been, and else with a layout. -/
theorem run_handOver_eq_ok {previous : Option ComponentId}
    (h : s.run (Step.handOver c item previous) = .ok (.ok b, s')) :
    b = false ∧ previous = some item ∧ s' = s ∨
      b = true ∧ previous ≠ some item ∧ ∃ laid,
        (s.left previous).run (Step.layout c) = .ok (.ok (), laid) ∧
          s' = laid.told item .activate := by
  unfold Step.handOver at h
  split at h
  · next hsame =>
    cases h
    exact .inl ⟨rfl, hsame, rfl⟩
  · next hnew =>
    right
    cases previous with
    | none =>
      obtain ⟨hb, hlaid⟩ := run_layout_activate_eq_ok h
      exact ⟨hb, hnew, hlaid⟩
    | some id =>
      dsimp only at h
      rw [run_bind, run_notify_eq, Length.ok_bind] at h
      obtain ⟨hb, hlaid⟩ := run_layout_activate_eq_ok h
      exact ⟨hb, hnew, hlaid⟩

/-- A switch that goes through is one to a child of the container, and it keeps the child before
anything else. -/
theorem run_setActiveItem_eq_ok (hlayout : s.tree.layout? c = some layout)
    (hkept : s.kept.get? c = some a) (hkind : a.kind = layout.kind)
    (h : s.run (Step.setActiveItem c item) = .ok (.ok b, s')) :
    s.tree.parent? item = some c ∧ a.Switches ∧
      (s.chosen c a item).run (Step.handOver c item (s.outgoing layout c)) = .ok (.ok b, s') := by
  have hknown := Tree.layoutOf_of_layout? hlayout
  rw [Step.setActiveItem, run_bind, run_layoutConfig, hknown, Length.ok_bind] at h
  dsimp only at h
  rw [run_bind, run_tree, Length.ok_bind] at h
  dsimp only at h
  split at h
  · cases h
  next hchild =>
  rw [run_bind, run_arrangement hknown, arrangement_of_kept hkept hkind, Length.ok_bind] at h
  refine ⟨by simpa using hchild, ?_⟩
  cases a with
  | card active =>
    refine ⟨trivial, ?_⟩
    rw [outgoing, activeItem, hkept]
    exact h
  | accordion active =>
    refine ⟨trivial, ?_⟩
    rw [outgoing, activeItem, hkept]
    exact h
  | _ => cases h

/-! ## Passes tell of no switch -/

/-- Since `s` the host has been told of no switch. -/
def Quiet (s t : Scene) : Prop :=
  ∃ recorded, t.events = s.events ++ recorded ∧ ∀ e ∈ recorded, e.2.isSwitch = false

theorem Quiet.told (h : s.Quiet t) (d : ComponentId) {e : Event} (he : e.isSwitch = false) :
    s.Quiet (t.told d e) := by
  obtain ⟨recorded, hevents, hquiet⟩ := h
  unfold Scene.told
  split
  · refine ⟨recorded ++ [(d, e)], by rw [hevents, List.append_assoc], fun x hx => ?_⟩
    rcases List.mem_append.1 hx with hx | hx
    · exact hquiet x hx
    · obtain rfl := List.mem_singleton.1 hx
      exact he
  · exact ⟨recorded, hevents, hquiet⟩

theorem Quiet.writes (h : s.Quiet t) (hwrites : t.Writes c s') : s.Quiet s' := by
  obtain ⟨recorded, hevents, hquiet⟩ := h
  obtain ⟨flips, hflips⟩ := hwrites.flips
  refine ⟨recorded ++ flips.map fun b => (c, .overflowChange b), ?_, fun x hx => ?_⟩
  · rw [hflips, hevents, List.append_assoc]
  · rcases List.mem_append.1 hx with hx | hx
    · exact hquiet x hx
    · obtain ⟨_, -, rfl⟩ := List.mem_map.1 hx
      rfl

theorem lasting_quiet (s : Scene) : Lasting (Quiet s) := by
  refine ⟨fun d e he h => ?_, fun {t laid layout d r} h hopens => ?_⟩
  · rcases he with rfl | rfl <;> exact h.told d rfl
  · exact ((h.told d rfl).writes (writes_ready _ layout d)).writes
      (Step.writesOnly_arrange layout _ hopens.arranged)

/-! ## What the layouts choose -/

theorem visibleChildren_dealt (hlinked : s.tree.Linked) (hmem : item ∈ s.tree.children c) :
    (s.dealt c (some item)).tree.visibleChildren c = [item] := by
  have hshape := (touches_dealt s c (some item)).tree.toSameShape
  have hshown : ∀ i ∈ s.tree.children c,
      (s.dealt c (some item)).tree.isVisible i = decide (i = item) := by
    intro i hi
    have hchild := hi
    rw [hlinked.mem_children, hshape.parent?_eq] at hchild
    obtain ⟨x, hx, -⟩ := Option.bind_eq_some_iff.1 hchild
    rw [Tree.isVisible, hx, Option.any_some, hidden_dealt hlinked hi hx]
    by_cases h : i = item <;> simp [h]
  rw [Tree.visibleChildren, ← hshape.children_eq, List.filter_congr hshown, List.filter_eq,
    List.count_eq_one_of_mem (hlinked.nodup c) hmem]
  rfl

/-- Cards that are told which one is to be active have it, and no other one is visible. -/
theorem active_of_cards {r : Except LayoutError Unit} (hlinked : s.tree.Linked)
    (hmem : item ∈ s.tree.children c)
    (h : s.run (Fill.arrangeCards layout c (some item)) = .ok (r, t)) :
    t.activeItem c = some item ∧ t.tree.visibleChildren c = [item] := by
  have hchosen : s.activeCard layout c (some item) = some item :=
    chooseActive_eq_iff.2 (.inl hmem)
  rw [run_cards, hchosen] at h
  obtain ⟨_, _, _, -, -, -, -, -, hplaces⟩ := run_fill_eq_ok h
  have hshape := (touches_fill (by
    rw [← (touches_dealt s c (some item)).tree.toSameShape.children_eq]
    exact hmem) h).tree.toSameShape
  refine ⟨?_, ?_⟩
  · rw [activeItem, hplaces.kept]
    simp [dealt, Arrangement.active?]
  · rw [Tree.visibleChildren, isVisible_fill h, ← hshape.children_eq]
    exact visibleChildren_dealt hlinked hmem

/-- An accordion that is told which panel is to be active has it if that panel is visible or is the
one in the settings. -/
theorem active_of_accordion {r : Except LayoutError Unit}
    (h : s.run (Accordion.arrange layout c (some item)) = .ok (r, t)) :
    t.activeItem c = some item ↔
      item ∈ s.tree.visibleChildren c ∨ s.tree.resolve c layout.activeItem = some item := by
  obtain ⟨_, -, -, hplaces⟩ := run_accordion_eq_ok h
  rw [← chooseActive_eq_iff, activeItem, hplaces.kept]
  simp [Arrangement.active?, activePanel]

/-- What a pass leaves of a container that has been told which child is to be active. -/
theorem active_of_pass {u : Scene} {r : Except LayoutError Unit} (hforest : u.tree.Forest)
    (hlayout : u.tree.layout? c = some layout) (hkept : u.kept.get? c = some (a.activate item))
    (hkind : a.kind = layout.kind) (hswitches : a.Switches) (hheard : u.vetoes c = false)
    (hmem : item ∈ u.tree.children c) (hrun : u.run (Step.pass c) = .ok (r, s')) :
    (s'.activeItem c = some item ↔ layout.kind = .card ∨ item ∈ u.tree.visibleChildren c ∨
        u.tree.resolve c layout.activeItem = some item) ∧
      (layout.kind = .card → s'.tree.visibleChildren c = [item]) := by
  have hbegins : u.Begins c u c := .self ⟨rfl, rfl⟩ _
  obtain ⟨r₁, laid, hopens, hagree⟩ := hbegins.laidOut hforest hlayout hheard hrun
  have hactive : s'.activeItem c = laid.activeItem c := by
    rw [activeItem, activeItem, hagree.kept c rfl]
  have hvisible : laid.tree.visibleChildren c = s'.tree.visibleChildren c :=
    hagree.visibleChildren_eq
  have hbegun := undisturbed_begun u layout c
  have harranged := hopens.arranged
  rw [hactive, ← hvisible]
  cases a with
  | card active =>
    rw [arrangement_of_kept hkept hkind] at harranged
    obtain ⟨hchosen, halone⟩ := active_of_cards (hbegun.shape.linked hforest.toLinked)
      (by rwa [← hbegun.shape.children_eq]) harranged
    exact ⟨iff_of_true hchosen (.inl hkind.symm), fun _ => halone⟩
  | accordion active =>
    rw [arrangement_of_kept hkept hkind] at harranged
    have hpanels : (u.begun layout c).tree.visibleChildren c = u.tree.visibleChildren c := by
      unfold Tree.visibleChildren
      rw [← hbegun.shape.children_eq, begun, ready, Tree.isVisible_renderChildren, tree_told]
    have hother : layout.kind ≠ .card := by
      rw [← hkind]
      exact LayoutKind.noConfusion
    rw [active_of_accordion harranged, hpanels, ← hbegun.shape.resolve_eq]
    simp [hother]
  | _ => exact hswitches.elim

/-! ## Switches -/

@[simp] theorem tree_left (s : Scene) (previous : Option ComponentId) :
    (s.left previous).tree = s.tree := by
  cases previous with
  | none => rfl
  | some id => exact tree_told s id .deactivate

@[simp] theorem host_left (s : Scene) (previous : Option ComponentId) :
    (s.left previous).host = s.host := by
  cases previous with
  | none => rfl
  | some id => exact host_told s id .deactivate

@[simp] theorem kept_left (s : Scene) (previous : Option ComponentId) :
    (s.left previous).kept = s.kept := by
  cases previous with
  | none => rfl
  | some id => exact kept_told s id .deactivate

theorem events_left (hlistens : s.host.listens = true) (previous : Option ComponentId) :
    (s.left previous).events = s.events ++ previous.toList.map fun id => (id, .deactivate) := by
  cases previous with
  | none => simp [left]
  | some id => exact events_told hlistens id .deactivate

/-- What it comes to that the child `item` of `c` is to be active, if `b` says whether that was a
switch from another child. -/
structure SwitchesTo (s s' : Scene) (layout : LayoutConfig) (c item : ComponentId) (b : Bool) :
    Prop where
  returned : b = true ↔ s.outgoing layout c ≠ some item
  /-- Unless there is another child to leave, nothing happens and the host is told nothing. -/
  idle : b = false → s'.tree = s.tree ∧ s'.events = s.events
  /-- The host is told of the child that is left, then of the layout, then of the child that is to
  be active. -/
  told : b = true → ∃ before laid : Scene, before.run (Step.layout c) = .ok (.ok (), laid) ∧
    before.Quiet laid ∧ (s.host.listens = true →
      before.events =
          s.events ++ (s.outgoing layout c).toList.map (fun id => (id, .deactivate)) ∧
        s'.events = laid.events ++ [(item, .activate)])
  active_iff : s'.activeItem c = some item ↔ b = false ∨ layout.kind = .card ∨
    item ∈ s.tree.visibleChildren c ∨ s.tree.resolve c layout.activeItem = some item
  alone : b = true → layout.kind = .card → s'.tree.visibleChildren c = [item]

theorem activeItem_chosen (s : Scene) (c item : ComponentId) (ha : a.Switches) :
    (s.chosen c a item).activeItem c = some item := by
  cases a with
  | card | accordion => simp [activeItem, chosen, Arrangement.activate, Arrangement.active?]
  | _ => exact ha.elim

end Scene

/-- A switch of the active child is told as such whatever the layout then makes of it. It is one
exactly if another child was active, or if none was and another one would have been chosen. The
child is active afterwards in a container of cards, where no other child is visible then; in an
accordion, it is active only if it is visible or if it is the one in the settings, and otherwise the
host has been told that a child is active which is not. -/
theorem active_child_switches {s s' : Scene} {layout : LayoutConfig} {c item : ComponentId}
    {a : Arrangement} {b : Bool} (hforest : s.tree.Forest)
    (hlayout : s.tree.layout? c = some layout) (hkept : s.kept.get? c = some a)
    (hkind : a.kind = layout.kind) (hheard : s.vetoes c = false)
    (hrun : s.run (Step.setActiveItem c item) = .ok (.ok b, s')) :
    s.SwitchesTo s' layout c item b := by
  obtain ⟨hparent, hswitches, h⟩ := Scene.run_setActiveItem_eq_ok hlayout hkept hkind hrun
  have hmem : item ∈ s.tree.children c := (hforest.mem_children c item).2 hparent
  rcases Scene.run_handOver_eq_ok h with ⟨rfl, hsame, rfl⟩ | ⟨rfl, hnew, laid, hlaid, rfl⟩
  · refine ⟨by simp [hsame], fun _ => ⟨rfl, rfl⟩, nofun, ?_, nofun⟩
    simp [s.activeItem_chosen c item hswitches]
  · generalize hbefore : (s.chosen c a item).left (s.outgoing layout c) = before at hlaid
    have htree : before.tree = s.tree := by rw [← hbefore, Scene.tree_left]; rfl
    have hhost : before.host = s.host := by rw [← hbefore, Scene.host_left]; rfl
    have hkept : before.kept.get? c = some (a.activate item) := by
      rw [← hbefore, Scene.kept_left]
      simp [Scene.chosen]
    have hquiet : before.Quiet laid :=
      (Scene.lasting_quiet before).pass (s := before.relieved c) ⟨[], by simp [Scene.relieved], by simp⟩
        hlaid
    obtain ⟨hactive, halone⟩ := Scene.active_of_pass (u := before.relieved c) (htree ▸ hforest)
      (htree ▸ hlayout) hkept hkind hswitches
      (by rw [← hheard]; exact congrArg (·.vetoed c .beforeLayout) hhost)
      (htree ▸ hmem) hlaid
    have hsame : (before.relieved c).tree = s.tree := htree
    rw [hsame] at hactive
    refine ⟨by simp [hnew], nofun, fun _ => ⟨before, laid, hlaid, hquiet, ?_⟩, ?_, ?_⟩
    · intro hlistens
      refine ⟨?_, Scene.events_told ?_ item .activate⟩
      · rw [← hbefore]
        exact Scene.events_left (s := s.chosen c a item) hlistens _
      · rw [(Scene.undisturbed_pass hlaid).host]
        exact hhost ▸ hlistens
    · rw [Scene.activeItem, Scene.kept_told, ← Scene.activeItem]
      simpa using hactive
    · intro _ hcards
      rw [Scene.tree_told]
      exact halone hcards

section

private def cabinetLayout : LayoutConfig := { kind := .accordion }

/-- Two panels, the second of which is hidden, and a host that listens. -/
private def cabinet : Scene :=
  .ofTree ((Tree.ofDescription (.node { layout := some cabinetLayout }
    [.node {} [], .node { hidden := true } []])).applyRect 0 ⟨0, 0, 200, 100⟩)
    { Host.standard with listens := true }

/-- The host is told that the hidden panel is active, but it is the other one that is. -/
theorem hidden_panel_is_told_active :
    ∃ s s', cabinet.after [Step.layout 0] = .ok s ∧
      s.run (Step.setActiveItem 0 2) = .ok (.ok true, s') ∧
      (2, .activate) ∈ s'.events ∧ s'.activeItem 0 ≠ some 2 ∧ s'.activeItem 0 = some 1 := by
  obtain ⟨s, r, s', hs, hrun, hview⟩ := Scene.runs_of_viewLast
    (show cabinet.viewLast [Step.layout 0] (Step.setActiveItem 0 2) (fun s r s' =>
        ((s.kept.get? 0).map Arrangement.kind, s.vetoes 0, s.tree.visibleChildren 0, r.toOption,
          s'.activeItem 0)) =
      some (some .accordion, false, [1], some true, some 1) by decide +kernel)
  simp only [Prod.mk.injEq] at hview
  obtain ⟨hkept, hheard, hvisible, hresult, hactive⟩ := hview
  obtain ⟨a, hkept, hkind⟩ := Option.map_eq_some_iff.1 hkept
  obtain rfl : r = .ok true := by
    cases r with
    | error e => cases hresult
    | ok b => exact congrArg _ (Option.some.inj hresult)
  have hsame : cabinet.tree.SameShape s.tree ∧ s.host = cabinet.host := by
    refine Scene.after_preserves (P := fun s => cabinet.tree.SameShape s.tree ∧
      s.host = cabinet.host) (fun x hx {t t' r} ht h => ?_) ⟨.refl _, rfl⟩ hs
    obtain rfl := List.mem_singleton.1 hx
    have hpass := Scene.undisturbed_pass (s := t.relieved 0) h
    exact ⟨ht.1.trans hpass.shape, hpass.host.trans ht.2⟩
  have hforest : cabinet.tree.Forest :=
    (Tree.sameShape_applyRect _ 0 _).forest (Tree.nested_ofDescription _).forest
  have hlayout : s.tree.layout? 0 = some cabinetLayout := by
    rw [← hsame.1.layout?_eq]
    rfl
  have hswitch : s.SwitchesTo s' cabinetLayout 0 2 true :=
    active_child_switches (hsame.1.forest hforest) hlayout hkept hkind hheard hrun
  obtain ⟨before, laid, -, -, htold⟩ := hswitch.told rfl
  obtain ⟨-, hevents⟩ := htold (by rw [hsame.2]; rfl)
  refine ⟨s, s', hs, hrun, by simp [hevents], fun hchosen => ?_, hactive⟩
  rcases hswitch.active_iff.1 hchosen with h | h | h | h
  · cases h
  · cases h
  · rw [hvisible] at h
    exact absurd h (by decide)
  · cases h

end

end Trellis
