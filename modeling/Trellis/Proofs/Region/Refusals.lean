import Trellis.Proofs.Region.Turns

/-!
# What a refused call leaves

A call on a region may be refused before anything has changed. It may also be refused because the
layout that follows the change finds no center, in the container or in one of those in it; then the
change stays. Besides, a region is forgotten when the regions are picked up and its component is no
longer the first child configured for it. Everything else is left as it was.

* `Keeps`: what is held of a container is kept; `Evolves.keeps`: by all that happens to regions.
* `Alters`: what a call makes of the region that it names, before the layout that follows it.
* `refused_step`, `refused_call_keeps_regions`: what a refused call leaves, whether the layout that
  follows it is refused or the call itself.
* `refused_collapse_hides_pane`: a pane that collapses although the call is refused.
-/
namespace Trellis

namespace Scene

variable {s₀ s s' t u : Scene} {d : ComponentId} {b : Border} {e f : Edge} {q q' r : Region}
  {slots : List Border.Slot} {call : RegionCall} {picks shows lays : Bool}

/-! ## Children and parents go on agreeing -/

theorem robust_linked : Robust fun s => s.tree.Linked :=
  ⟨id, fun h hevolves => hevolves.shape.linked h,
    fun h _ _ _ _ => (agree_changed ..).toSameShape.linked h⟩

theorem linked_move {m : TreeMove} {x : Except LayoutError Unit} (h : s.tree.Linked)
    (hrun : s.run m.step = .ok (x, s')) : s'.tree.Linked := by
  cases m with
  | append parent child =>
    obtain ⟨t, ht, rfl⟩ := run_edit_eq_ok hrun
    obtain ⟨hp, hx, rfl⟩ := Tree.appendChild_eq_ok ht
    exact h.attach hp hx
  | remove parent child =>
    obtain ⟨t, ht, rfl⟩ := run_edit_eq_ok hrun
    obtain rfl := Tree.removeChild_eq_ok ht
    exact h.detach parent child
  | hide id hidden =>
    cases hrun
    exact (s.tree.sameShape_setHiddens [id] hidden).linked h
  | create item =>
    cases hrun
    exact h.alloc item
  | configure id item =>
    cases hrun
    refine h.congr (funext fun i => ?_) (funext fun i => ?_)
    · simp only [Tree.parent?, Tree.get?_modify]
      split <;> cases s.tree.get? i <;> rfl
    · simp only [Tree.children, Tree.get?_modify]
      split <;> cases s.tree.get? i <;> rfl

theorem linked_after {turns : List RegionTurn} (h : s.tree.Linked)
    (hturns : s.after (turns.map RegionTurn.step) = .ok s') : s'.tree.Linked := by
  refine after_preserves (P := fun s => s.tree.Linked) (fun x hx s s' r h hrun => ?_) h hturns
  obtain ⟨turn, -, rfl⟩ := List.mem_map.1 hx
  by_cases hmoves : ∃ m, turn = .move m
  · obtain ⟨m, rfl⟩ := hmoves
    exact linked_move h hrun
  · exact robust_linked.of_turn (fun m heq => hmoves ⟨m, heq⟩) h hrun

/-! ## What is held -/

/-- The region is known, and its component is the child that is configured for it. -/
def Holds (s : Scene) (d : ComponentId) (e : Edge) (r : Region) : Prop :=
  (s.regions d).get e = some r ∧ s.tree.holder d e.region = some r.component

/-- The regions that are held are kept, but for their geometry, and so are the hidden flags of their
components. -/
structure Keeps (d : ComponentId) (s t : Scene) : Prop where
  shape : s.tree.SameShape t.tree
  region : ∀ {e r}, s.Holds d e r → ∃ r', t.Holds d e r' ∧ r'.bare = r.bare
  flag : ∀ {e r}, s.Holds d e r → t.tree.isHidden r.component = s.tree.isHidden r.component

theorem holder_eq (h : s.tree.SameShape t.tree) (d : ComponentId) :
    t.tree.holder d = s.tree.holder d :=
  Tree.holder_congr (congrFun h.children_eq.symm d) h.config?_eq.symm

theorem Holds.of_shape (h : s.Holds d e r) (hshape : s.tree.SameShape t.tree)
    (hregion : (t.regions d).get e = some q) (hcomponent : q.component = r.component) :
    t.Holds d e q :=
  ⟨hregion, by rw [holder_eq hshape, hcomponent, h.2]⟩

theorem Keeps.refl (d : ComponentId) (s : Scene) : Keeps d s s :=
  ⟨.refl s.tree, fun hr => ⟨_, hr, rfl⟩, fun _ => rfl⟩

theorem Keeps.trans (h : Keeps d s t) (h' : Keeps d t u) : Keeps d s u := by
  refine ⟨h.shape.trans h'.shape, fun hr => ?_, fun hr => ?_⟩
  · obtain ⟨r', hr', hbare⟩ := h.region hr
    obtain ⟨r'', hr'', hbare'⟩ := h'.region hr'
    exact ⟨r'', hr'', hbare'.trans hbare⟩
  · obtain ⟨r', hr', hbare⟩ := h.region hr
    have hflag := h'.flag hr'
    rw [(Region.bare_eq_iff.1 hbare).2.1] at hflag
    exact hflag.trans (h.flag hr)

/-- Picking up the regions finds what is held, and does not hide it. -/
theorem Holds.sync (h : s.Holds d e r) (hslots : s.slots d = .ok slots) :
    ((s.regions d).sync slots).get e = some r ∧
      r.component ∉ (s.regions d).hiddenBySync slots := by
  have hstays := get_sync_of_held hslots h.1 h.2
  refine ⟨hstays.1, fun hmem => ?_⟩
  obtain ⟨f, -, hf⟩ := List.mem_filterMap.1 hmem
  -- a component is configured for one region only
  have hsame : f = e := by
    unfold Border.newlyHidden at hf
    split at hf
    · next slot hslot =>
      split at hf
      · have hholder := id_holder hslots f.region
        rw [hslot, Option.map_some, hf] at hholder
        exact Edge.region_injective (Tree.holder_injective hholder.symm h.2)
      · cases hf
    · cases hf
  subst hsame
  rw [hstays.2] at hf
  cases hf

/-- Whatever happens to regions, what is held is kept. -/
theorem Evolves.keeps (h : Evolves s t) (hlinked : s.tree.Linked) (hd : s.Bordered d) :
    Keeps d s t := by
  have hshape := h.shape
  have hchild : ∀ {e r}, s.Holds d e r → r.component ∈ s.tree.children d :=
    fun hr => (Tree.mem_of_holder hr.2).1
  have hsame : t.regions d = s.regions d → ∀ {e r}, s.Holds d e r →
      ∃ r', t.Holds d e r' ∧ r'.bare = r.bare := by
    intro hregions e r hr
    exact ⟨r, hr.of_shape hshape (by rw [hregions]; exact hr.1) rfl, rfl⟩
  cases h with
  | rests _ regions shown =>
    refine ⟨hshape, hsame (regions d), fun hr => ?_⟩
    exact (hshape.isHidden_eq (by rw [shown])).symm
  | @elsewhere c other agree =>
    have hne : c ≠ d := by
      rintro rfl
      exact other hd
    refine ⟨hshape, hsame (regions_congr (agree.kept d hne.symm).symm), fun hr => ?_⟩
    exact (agree.tree.isHidden_eq fun hmem =>
      hlinked.not_mem_children hmem hne (hchild hr)).symm
  | @syncs c slots _ found kept tree =>
    by_cases heq : c = d
    · subst heq
      refine ⟨hshape, fun hr => ?_, fun hr => ?_⟩
      · refine ⟨_, hr.of_shape hshape ?_ rfl, rfl⟩
        rw [regions_eq (by rw [kept, if_pos rfl]), (hr.sync found).1]
      · refine (hshape.isHidden_eq ?_).symm
        rw [tree, isVisible_hide]
        simp [(hr.sync found).2]
    · refine ⟨hshape, hsame (regions_congr (by rw [kept, if_neg (Ne.symm heq)])), fun hr => ?_⟩
      exact ((Evolves.agree_sync found tree).isHidden_eq fun hmem =>
        hlinked.not_mem_children hmem heq (hchild hr)).symm
  | @places c _ after _ bordered laid =>
    refine ⟨hshape, fun hr => ?_, fun hr => ?_⟩
    · by_cases heq : c = d
      · subst heq
        obtain ⟨center, content, -, -, hplace⟩ := laid.laid
        obtain ⟨r', hr', hbare⟩ :=
          Border.get_of_bare (fun e => (Border.bare_place hplace e).symm) hr.1
        refine ⟨r', hr.of_shape hshape ?_ (Region.bare_eq_iff.1 hbare.symm).2.1, hbare.symm⟩
        rw [regions_eq (by rw [laid.kept, IdMap.get?_insert, if_pos rfl]), hr']
      · refine hsame (regions_congr ?_) hr
        rw [laid.kept, IdMap.get?_insert, if_neg (Ne.symm heq)]
    · exact (hshape.isHidden_eq (by rw [laid.tree, Tree.isVisible_applyPlacements])).symm

/-- Passes keep what is held, whichever container they are over. -/
theorem preserved_keeps (hlinked : s.tree.Linked) (hd : s.Bordered d) :
    Preserved (fun _ => True) (Keeps d s) := by
  refine preserved_of_evolves (fun h => h.shape.linked hlinked) fun h hevolves => h.trans ?_
  exact hevolves.keeps (h.shape.linked hlinked) ((bordered_congr h.shape).1 hd)

/-! ## What calls find and change -/

theorem Finds.get_of_holds (h : Finds d picks s b t) (hr : s.Holds d e r) :
    b.get e = some r := by
  obtain ⟨-, rfl, -⟩ | ⟨-, slots, hslots, rfl, -⟩ := h.found
  · exact hr.1
  · exact (hr.sync hslots).1

/-- A call finds the region `q` at the edge that it names and makes `q'` of it, and the container is
laid out. -/
structure Alters (d : ComponentId) (call : RegionCall) (s : Scene) (b : Border) (t : Scene)
    (f : Edge) (q q' : Region) (shows : Bool) : Prop where
  finds : Finds d call.picksUp s b t
  names : call.region = f.region
  known : b.get f = some q
  changes : q.Changes (s.tree.config? q.component) (s.splitBounds d f q) call q' shows true

theorem Alters.eq_of_holds (h : Alters d call s b t f q q' shows) (hr : s.Holds d e r)
    (heq : f = e) : q = r := by
  subst heq
  exact Option.some.inj (h.known.symm.trans (h.finds.get_of_holds hr))

theorem Alters.component_eq (h : Alters d call s b t f q q' shows) (hr : s.Holds d e r) :
    (if f = e then q' else r).component = r.component := by
  split
  · next heq => rw [h.changes.component_eq, h.eq_of_holds hr heq]
  · rfl

/-- A call changes the region that it names and nothing else that is held. -/
theorem Alters.holds (h : Alters d call s b t f q q' shows) (hr : s.Holds d e r) :
    (t.changed d b f q' shows).Holds d e (if f = e then q' else r) := by
  have hshape := h.finds.shape.trans (t.agree_changed d b f q' shows).toSameShape
  refine hr.of_shape hshape ?_ (h.component_eq hr)
  rw [regions_changed, Border.get_set, h.finds.get_of_holds hr]
  by_cases heq : e = f
  · rw [if_pos heq, if_pos heq.symm]
  · rw [if_neg heq, if_neg (Ne.symm heq)]

/-- Only the component of the region that a call changes may be hidden or shown. -/
theorem Alters.isHidden (h : Alters d call s b t f q q' shows) (hr : s.Holds d e r)
    (hlinked : s.tree.Linked) :
    (t.changed d b f q' shows).tree.isHidden r.component =
      if shows ∧ q.component = r.component then q'.hidesComponent
      else s.tree.isHidden r.component := by
  have hkeeps := h.finds.evolves.keeps hlinked h.finds.bordered
  have hcomponent := h.changes.component_eq
  by_cases hsame : q.component = r.component
  · cases shows with
    | true =>
      have hchild : r.component ∈ t.tree.children d := by
        rw [← h.finds.shape.children_eq]
        exact (Tree.mem_of_holder hr.2).1
      obtain ⟨x, hx⟩ := (h.finds.shape.linked hlinked).exists_child hchild
      rw [← hsame, ← hcomponent] at hx
      rw [if_pos ⟨rfl, hsame⟩, ← hsame, ← hcomponent, Scene.isHidden_changed hx]
    | false =>
      rw [if_neg (by simp)]
      exact hkeeps.flag hr
  · rw [if_neg fun h => hsame h.2, ← hkeeps.flag hr]
    refine ((t.agree_changed d b f q' shows).isHidden_eq ?_).symm
    rw [hcomponent]
    exact Ne.symm hsame

/-- A refused call keeps what is held; if a layout is refused for want of a center, it keeps what is
held once the region has changed. -/
theorem refused_step {err : LayoutError} (hlinked : s.tree.Linked) (hd : s.Bordered d)
    (hrun : s.run (call.step d) = .ok (.error err, s')) :
    (err.Immediate ∧ Keeps d s s') ∨
      (∃ i, err = .missingCenterRegion i) ∧ ∃ b t f q q' shows,
        Alters d call s b t f q q' shows ∧ Keeps d (t.changed d b f q' shows) s' := by
  cases does_step hrun with
  | elsewhere helsewhere => exact absurd hd helsewhere.other
  | rests hfinds himmediate =>
    exact .inl ⟨himmediate err rfl, hfinds.evolves.keeps hlinked hd⟩
  | @lays b t f q q' shows _ laid _ hfinds hnames hq hchanges hlayout hsilent =>
    have hshape := hfinds.shape.trans (t.agree_changed d b f q' shows).toSameShape
    have hbordered := (bordered_congr hshape).1 hd
    have hpreserved := preserved_keeps (hshape.linked hlinked) hbordered
    obtain ⟨layout, hlayoutOf, -⟩ := hbordered
    refine .inr ⟨refused_layout hlayoutOf hlayout, b, t, f, q, q', shows,
      ⟨hfinds, hnames, hq, hchanges⟩, ?_⟩
    exact hpreserved.silent hsilent (hpreserved.of_layout trivial (.refl d _) hlayout)

end Scene

/-- What a refused call on a region leaves, in whatever state it comes. Take a region that is known
and whose component is still the first child configured for it. If the call is refused for any
reason but that a center is missing, then the region stays as it was but for its geometry, and so
does the hidden flag of its component. If the layout that follows the call finds no center, then the
region that the call names has changed as the call changes it, and the hidden flag of its component
with it; any other region stays as it was, and so does the hidden flag of its component. (Two
regions have the same component only if that has got other settings meanwhile.) -/
theorem refused_call_keeps_regions {s₀ s s' : Scene} {turns : List RegionTurn} {d : ComponentId}
    {call : RegionCall} {err : LayoutError} {e : Edge} {r : Region} (hlinked : s₀.tree.Linked)
    (hturns : s₀.after (turns.map RegionTurn.step) = .ok s) (hd : s.Bordered d)
    (hknown : (s.regions d).get e = some r)
    (hholder : s.tree.holder d e.region = some r.component)
    (hrun : s.run (call.step d) = .ok (.error err, s')) :
    ∃ r', (s'.regions d).get e = some r' ∧
      ((∀ i, err ≠ .missingCenterRegion i) → r'.bare = r.bare ∧
        s'.tree.isHidden r.component = s.tree.isHidden r.component) ∧
      ((∃ i, err = .missingCenterRegion i) → ∃ b t f q q' shows,
        Scene.Alters d call s b t f q q' shows ∧ (f = e → q = r) ∧
        r'.bare = (if f = e then q' else r).bare ∧
        s'.tree.isHidden r.component =
          if shows ∧ q.component = r.component then q'.hidesComponent
          else s.tree.isHidden r.component) := by
  have hs := Scene.linked_after hlinked hturns
  have hr : s.Holds d e r := ⟨hknown, hholder⟩
  obtain ⟨himmediate, hkeeps⟩ | ⟨⟨i, rfl⟩, b, t, f, q, q', shows, halters, hkeeps⟩ :=
    Scene.refused_step hs hd hrun
  · obtain ⟨r', hr', hbare⟩ := hkeeps.region hr
    exact ⟨r', hr'.1, fun _ => ⟨hbare, hkeeps.flag hr⟩, fun ⟨i, hi⟩ => absurd hi (himmediate i)⟩
  · have hchanged := halters.holds hr
    obtain ⟨r', hr', hbare⟩ := hkeeps.region hchanged
    have hflag := hkeeps.flag hchanged
    rw [halters.component_eq hr, halters.isHidden hr hs] at hflag
    exact ⟨r', hr'.1, fun hother => absurd rfl (hother i), fun _ =>
      ⟨b, t, f, q, q', shows, halters, halters.eq_of_holds hr, hbare, hflag⟩⟩

section

/-- A page below a bar and between side panes. There are two right panes, of which the first is
used; the left one can collapse. -/
private def panedPage : Scene :=
  .ofTree (.ofDescription (.node { layout := some { kind := .border } }
    [.node { region := some .west, width := some 40, collapsible := true } [],
      .node { region := some .east, width := some 30 } [],
      .node { region := some .center } [],
      .node { region := some .east, width := some 20 } [],
      .node { region := some .north, height := some 10 } []])) .standard

/-- The page is laid out, and then the center is hidden. -/
private def pageTurns : List RegionTurn :=
  [.resize 0 ⟨0, 0, 200, 100⟩, .layout 0, .move (.hide 3 true)]

/-- The left pane collapses although the call is refused, and the right one stays as it was. -/
theorem refused_collapse_changes_its_pane :
    ∃ s west east s' west' east', panedPage.after (pageTurns.map RegionTurn.step) = .ok s ∧
      (s.regions 0).get .west = some west ∧ s.tree.holder 0 .west = some west.component ∧
      (s.regions 0).get .east = some east ∧ s.tree.holder 0 .east = some east.component ∧
      s.run ((RegionCall.collapse .west false).step 0) =
        .ok (.error (.missingCenterRegion 0), s') ∧
      (s'.regions 0).get .west = some west' ∧ west'.bare = (west.finish .collapse).bare ∧
      s'.tree.isHidden west.component = true ∧
      (s'.regions 0).get .east = some east' ∧ east'.bare = east.bare ∧
      s'.tree.isHidden east.component = s.tree.isHidden east.component := by
  obtain ⟨s, x, s', hturns, hrun, hview⟩ := Scene.runs_of_viewLast
    (show panedPage.viewLast (pageTurns.map RegionTurn.step)
        ((RegionCall.collapse .west false).step 0) (fun mid x _ =>
          (x, [Edge.west, .east].map fun e => ((mid.regions 0).get e).map Region.component,
            [RegionName.west, .east].map (mid.tree.holder 0),
            (mid.tree.layout? 0).map LayoutConfig.kind)) =
      some (.error (.missingCenterRegion 0), [some 1, some 2], [some 1, some 2], some .border)
      by decide +kernel)
  simp only [Prod.mk.injEq, List.map_cons, List.map_nil, List.cons.injEq, and_true] at hview
  obtain ⟨rfl, ⟨hwest, heast⟩, ⟨hholdsWest, hholdsEast⟩, hkind⟩ := hview
  obtain ⟨layout, hlayout, hborder⟩ := Option.map_eq_some_iff.1 hkind
  obtain ⟨west, hwest, hone⟩ := Option.map_eq_some_iff.1 hwest
  obtain ⟨east, heast, htwo⟩ := Option.map_eq_some_iff.1 heast
  rw [← hone] at hholdsWest
  rw [← htwo] at hholdsEast
  have hlinked : panedPage.tree.Linked := (Tree.nested_ofDescription _).linked
  have hd : s.Bordered 0 := ⟨layout, Tree.layoutOf_of_layout? hlayout, hborder⟩
  obtain ⟨west', hwest', -, hmissing⟩ :=
    refused_call_keeps_regions hlinked hturns hd hwest hholdsWest hrun
  obtain ⟨_, _, f, q, q', shows, halters, hsame, hbare, hflag⟩ := hmissing ⟨0, rfl⟩
  obtain rfl : f = .west := Edge.region_injective halters.names.symm
  obtain rfl := hsame rfl
  obtain ⟨hbareWest, hhidden⟩ : west'.bare = (q.finish .collapse).bare ∧
      s'.tree.isHidden q.component = true := by
    cases halters.changes
    rw [if_pos ⟨rfl, rfl⟩] at hflag
    exact ⟨hbare, hflag⟩
  obtain ⟨east', heast', -, hmissing⟩ :=
    refused_call_keeps_regions hlinked hturns hd heast hholdsEast hrun
  obtain ⟨_, _, f, q₂, _, _, halters₂, -, hbare₂, hflag₂⟩ := hmissing ⟨0, rfl⟩
  obtain rfl : f = .west := Edge.region_injective halters₂.names.symm
  obtain rfl := halters₂.eq_of_holds ⟨hwest, hholdsWest⟩ rfl
  rw [if_neg (by decide)] at hbare₂
  rw [if_neg (by simp [hone, htwo])] at hflag₂
  exact ⟨s, q₂, east, s', west', east', hturns, hwest, hholdsWest, heast, hholdsEast, hrun, hwest',
    hbareWest, hhidden, heast', hbare₂, hflag₂⟩

/-- Besides, the right panes change places, and the bar is taken away. -/
private def rearrangedPage : List RegionTurn :=
  pageTurns ++ [.move (.append 0 2), .move (.remove 0 5)]

/-- What is known of the page's regions, and whether the left pane is hidden. -/
private structure PageView where
  regions : List (Option (ComponentId × RegionState))
  hidden : Bool
  deriving DecidableEq

private def pageView (s : Scene) : PageView where
  regions := Edge.all.map fun e => ((s.regions 0).get e).map fun r => (r.component, r.state)
  hidden := s.tree.isHidden 1

/-- The left pane collapses although the call is refused, the other right pane takes the place of
the one that was known, and the bar is forgotten. -/
theorem refused_collapse_hides_pane :
    ∃ s s', panedPage.after (rearrangedPage.map RegionTurn.step) = .ok s ∧
      s.run ((RegionCall.collapse .west false).step 0) =
        .ok (.error (.missingCenterRegion 0), s') ∧
      Edge.all.map (fun e => ((s.regions 0).get e).map fun r => (r.component, r.state)) =
        [some (5, .expanded), none, some (1, .expanded), some (2, .expanded)] ∧
      s.tree.isHidden 1 = false ∧
      Edge.all.map (fun e => ((s'.regions 0).get e).map fun r => (r.component, r.state)) =
        [none, none, some (1, .collapsed), some (4, .expanded)] ∧
      s'.tree.isHidden 1 = true := by
  obtain ⟨s, x, s', hturns, hrun, hview⟩ := Scene.runs_of_viewLast
    (show panedPage.viewLast (rearrangedPage.map RegionTurn.step)
        ((RegionCall.collapse .west false).step 0) (fun mid x s' =>
          (x, pageView mid, pageView s')) =
      some (.error (.missingCenterRegion 0),
        ⟨[some (5, .expanded), none, some (1, .expanded), some (2, .expanded)], false⟩,
        ⟨[none, none, some (1, .collapsed), some (4, .expanded)], true⟩) by decide +kernel)
  simp only [Prod.mk.injEq, pageView, PageView.mk.injEq] at hview
  obtain ⟨rfl, ⟨hbefore, hshown⟩, hafter, hhidden⟩ := hview
  exact ⟨s, s', hturns, hrun, hbefore, hshown, hafter, hhidden⟩

end

end Trellis
