import Trellis.Proofs.Region.Calls

/-!
# How regions evolve

Whatever is laid out and whichever region is found, little happens at a time to the regions that are
known: those of one container are picked up or placed, or something happens that does not concern
regions. What each of these preserves, passes preserve.

* `Evolves`: one thing that happens.
* `preserved_of_evolves`: layouts consist of such things.
* `Elsewhere.evolves`, `Finds.evolves`: so does the search for a region.
* `Robust`: what no layout and no call on a region breaks.
-/
namespace Trellis

theorem Tree.Linked.not_mem_children {t : Tree} {c d i : ComponentId} (h : t.Linked)
    (hi : i ∈ t.children d) (hne : d ≠ c) : i ∉ t.children c := by
  intro hmem
  rw [h.mem_children] at hi hmem
  rw [hi, Option.some.injEq] at hmem
  exact hne hmem

namespace Scene

variable {s s' t : Scene} {d : ComponentId} {layout : LayoutConfig} {b : Border}
  {P : Scene → Prop}

theorem bordered_congr (h : s.tree.SameShape t.tree) : s.Bordered d ↔ t.Bordered d := by
  unfold Bordered
  rw [h.layoutOf_eq]

theorem not_bordered (hlayout : s.tree.layoutOf d = .ok layout) (hkind : layout.kind ≠ .border) :
    ¬ s.Bordered d := by
  rintro ⟨layout', hlayout', hborder⟩
  rw [hlayout, Except.ok.injEq] at hlayout'
  exact hkind (hlayout' ▸ hborder)

/-- What happens to regions, one thing at a time. -/
inductive Evolves (s t : Scene) : Prop
  /-- Nothing happens to regions, and nothing is hidden or shown. -/
  | rests (shape : s.tree.SameShape t.tree) (regions : ∀ d, t.regions d = s.regions d)
      (shown : t.tree.isVisible = s.tree.isVisible)
  /-- A container that has no regions treats its children as it likes. -/
  | elsewhere {d : ComponentId} (other : ¬ s.Bordered d)
      (agree : s.Agree (· ∉ s.tree.children d) (· ≠ d) t)
  /-- The regions of a container are picked up. -/
  | syncs {d : ComponentId} {slots : List Border.Slot} (bordered : s.Bordered d)
      (found : s.slots d = .ok slots)
      (kept : ∀ i, t.kept.get? i =
        if i = d then some (.border ((s.regions d).sync slots)) else s.kept.get? i)
      (tree : t.tree =
        ((s.regions d).hiddenBySync slots).foldl (fun t id => t.setHidden id true) s.tree)
  /-- The regions of a container are placed. -/
  | places {d : ComponentId} {layout : LayoutConfig} {after : Border} {placements : List Placement}
      (bordered : s.Bordered d) (laid : LaysRegions layout d (s.regions d) after placements s t)

namespace Evolves

theorem shape (h : Evolves s t) : s.tree.SameShape t.tree := by
  cases h with
  | rests shape => exact shape
  | elsewhere _ agree => exact agree.tree.toSameShape
  | syncs _ _ _ tree =>
    rw [tree]
    exact s.tree.sameShape_setHiddens _ true
  | places _ laid =>
    rw [laid.tree]
    exact s.tree.sameShape_applyPlacements _

/-- Picking up the regions of a container hides children of it. -/
theorem agree_sync {slots : List Border.Slot} (hslots : s.slots d = .ok slots)
    (htree : t.tree =
      ((s.regions d).hiddenBySync slots).foldl (fun t id => t.setHidden id true) s.tree) :
    s.tree.Agree (· ∉ s.tree.children d) t.tree := by
  rw [htree]
  refine Tree.agree_setHiddens s.tree fun id hid hnot => hnot ?_
  obtain ⟨e, slot, hslot, -, rfl⟩ := Border.mem_slots_of_hidden hid
  exact (of_mem_slots hslots hslot).1

end Evolves

/-- Layouts consist of such things. -/
theorem preserved_of_evolves (hlinked : ∀ {s : Scene}, P s → s.tree.Linked)
    (hevolves : ∀ {s t : Scene}, P s → Evolves s t → P t) : Preserved (fun _ => True) P := by
  refine ⟨?_, fun _ _ _ _ => trivial, ?_, ?_⟩
  · intro s t hsilent h
    refine hevolves h (.rests ?_ (fun i => regions_congr (by rw [hsilent.kept])) ?_)
    · rw [hsilent.tree]
      exact .refl s.tree
    · rw [hsilent.tree]
  · intro s d layout h _ hlayout
    have hagree := s.agree_ready layout d
    by_cases hborder : layout.kind = .border
    · refine hevolves h (.rests hagree.tree.toSameShape (fun i => ?_)
        (s.tree.isVisible_renderChildren d))
      by_cases heq : i = d
      · subst heq
        refine regions_eq ?_
        rw [kept_ready_self, arrangement_of_border hborder]
      · refine regions_congr ?_
        rw [kept_ready (.refl s), if_neg heq]
    · exact hevolves h (.elsewhere (not_bordered hlayout hborder) hagree)
  · intro s s' d layout a r h _ hlayout hkept hkind hrun
    by_cases hborder : layout.kind = .border
    · obtain ⟨b, rfl⟩ := Arrangement.eq_border (hkind.trans hborder)
      obtain ⟨slots, mid, hslots, hsyncs, hcases⟩ := run_arrangeBorder_eq_ok hrun
      obtain rfl := regions_eq hkept
      have hpicks : Evolves s mid := by
        refine .syncs ⟨layout, hlayout, hborder⟩ hslots (fun i => ?_) hsyncs.tree
        rw [hsyncs.kept, IdMap.get?_insert]
      have hmid := hevolves h hpicks
      obtain ⟨-, -, rfl⟩ | ⟨-, after, placements, hlaid⟩ := hcases
      · exact hmid
      · have hregions : mid.regions d = (s.regions d).sync slots := by
          refine regions_eq ?_
          rw [hsyncs.kept, IdMap.get?_insert, if_pos rfl]
        rw [← hregions] at hlaid
        exact hevolves hmid
          (.places ((bordered_congr hpicks.shape).1 ⟨layout, hlayout, hborder⟩) hlaid)
    · exact hevolves h (.elsewhere (not_bordered hlayout hborder)
        (touches_arrange (hlinked h) hrun).toAgree)

theorem Elsewhere.evolves (h : Elsewhere d s t) : Evolves s t := by
  refine .elsewhere h.other ⟨h.host.symm, ?_, fun i hi => (h.kept i hi).symm⟩
  rw [h.tree]
  exact .refl _ s.tree

theorem Finds.evolves {picks : Bool} (h : Finds d picks s b t) : Evolves s t := by
  obtain ⟨-, rfl, htree⟩ | ⟨-, slots, hslots, rfl, htree⟩ := h.found
  · refine .rests h.shape (fun i => ?_) (by rw [htree])
    by_cases heq : i = d
    · subst heq
      exact regions_eq (by rw [h.kept, if_pos rfl])
    · exact regions_congr (by rw [h.kept, if_neg heq])
  · exact .syncs h.bordered hslots h.kept htree

/-! ## What calls do not break -/

/-- Nothing that happens to regions breaks `P`, nor does a call that changes one. -/
structure Robust (P : Scene → Prop) : Prop where
  linked : ∀ {s : Scene}, P s → s.tree.Linked
  evolves : ∀ {s t : Scene}, P s → Evolves s t → P t
  changed : ∀ {s : Scene} {d : ComponentId} {b : Border} {e : Edge} {r r' : Region}
    {bounds : Option SplitBounds} {call : RegionCall} {shows lays : Bool}, P s → s.Bordered d →
    s.kept.get? d = some (.border b) → b.get e = some r →
    r.Changes (s.tree.config? r.component) bounds call r' shows lays →
    P (s.changed d b e r' shows)

namespace Robust

variable {call : RegionCall} {x : Except LayoutError Unit}

theorem preserved (h : Robust P) : Preserved (fun _ => True) P :=
  preserved_of_evolves h.linked h.evolves

theorem of_does (h : Robust P) (hdoes : Does call d s x t) (hs : P s) : P t := by
  have hchanged : ∀ {b mid e r r' bounds shows lays}, Finds d call.picksUp s b mid →
      b.get e = some r → Region.Changes (s.tree.config? r.component) bounds r call r' shows lays →
      P (mid.changed d b e r' shows) := by
    intro b mid e r r' bounds shows lays hfinds hr hchanges
    rw [hfinds.shape.config?_eq] at hchanges
    exact h.changed (h.evolves hs hfinds.evolves) ((bordered_congr hfinds.shape).1 hfinds.bordered)
      (by rw [hfinds.kept, if_pos rfl]) hr hchanges
  cases hdoes with
  | elsewhere helsewhere => exact h.evolves hs helsewhere.evolves
  | rests hfinds => exact h.evolves hs hfinds.evolves
  | begins hfinds _ hr hchanges => exact hchanged hfinds hr hchanges
  | lays hfinds _ hr hchanges hrun hsilent =>
    exact h.preserved.silent hsilent
      (h.preserved.of_layout trivial (hchanged hfinds hr hchanges) hrun)

theorem of_slidesIn (h : Robust P) {b' : Border} (hslides : SlidesIn d s b t b') (hs : P s)
    (hd : s.Bordered d) (hb : s.kept.get? d = some (.border b)) : P t := by
  induction hslides with
  | done => exact hs
  | @step s _ b _ e r known allowed rest ih =>
    refine ih (h.changed hs hd hb known (@Region.Changes.slideIn _ none _ .west allowed)) ?_ ?_
    · exact (bordered_congr (s.agree_changed ..).toSameShape).1 hd
    · rw [kept_changed, if_pos rfl]

theorem of_outsideClick (h : Robust P) {y : Except LayoutError (List RegionName)}
    (hrun : s.run (Step.outsideClick d) = .ok (y, t)) (hs : P s) : P t := by
  obtain helsewhere | ⟨found, hfinds, hcases⟩ := run_outsideClick_eq_ok hrun
  · exact h.evolves hs helsewhere.evolves
  have hfound : P found := h.evolves hs hfinds.evolves
  obtain rfl | ⟨b, mid, laid, hslides, hlayout, hsilent⟩ := hcases
  · exact hfound
  · have hmid : P mid := by
      refine h.of_slidesIn hslides hfound ((bordered_congr hfinds.shape).1 hfinds.bordered) ?_
      rw [hfinds.kept, if_pos rfl]
    exact h.preserved.silent hsilent (h.preserved.of_layout trivial hmid hlayout)

end Robust

end Scene

end Trellis
