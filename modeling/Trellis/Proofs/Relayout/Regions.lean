import Mathlib.Data.List.Nodup
import Trellis.Proofs.Border.Passes
import Trellis.Proofs.Relayout.Settling

/-!
# Regions settle

The first pass over a border container picks up its regions, hides the components of the collapsed
ones and places the others. The second one finds every region known: it hides nothing more, and the
regions are laid out as before, since a region is laid out without regard to where it was.

* `slots_again`: the second pass sees the same children, some of them hidden now.
* `sync_again`: it keeps the regions that the first one picked up.
* `settles_border`: what a border layout leaves is settled.
-/
namespace Trellis

namespace Tree

variable {t u : Tree} {c : ComponentId} {name : RegionName}

/-- The first child configured for a region. -/
def holder (t : Tree) (c : ComponentId) (name : RegionName) : Option ComponentId :=
  (t.children c).find? fun i => (t.config? i).bind ItemConfig.region == some name

theorem holder_congr (hchildren : t.children c = u.children c) (hconfig : t.config? = u.config?) :
    t.holder c = u.holder c := by
  funext name
  unfold holder
  rw [hchildren, hconfig]

theorem mem_of_holder {i : ComponentId} (h : t.holder c name = some i) :
    i ∈ t.children c ∧ (t.config? i).bind ItemConfig.region = some name :=
  ⟨List.mem_of_find?_eq_some h, by simpa using List.find?_some h⟩

/-- No child is there for two regions. -/
theorem holder_injective {name' : RegionName} {i : ComponentId} (h : t.holder c name = some i)
    (h' : t.holder c name' = some i) : name = name' :=
  Option.some.inj ((mem_of_holder h).2.symm.trans (mem_of_holder h').2)

end Tree

theorem Edge.region_injective {e f : Edge} (h : e.region = f.region) : e = f := by
  cases e <;> cases f <;> first | rfl | cases h

namespace Border

variable {layout : LayoutConfig} {members members' : ComponentId → Checked (Member × Bool)}
  {b b₂ after after₂ : Border} {slots : List Slot} {shown : ComponentId → Bool}

/-! ## Picking up regions again -/

/-- The children as a later pass finds them. -/
def reshown (shown : ComponentId → Bool) (slots : List Slot) : List Slot :=
  slots.map fun slot => { slot with visible := shown slot.id }

theorem holder_reshown (shown : ComponentId → Bool) (slots : List Slot) (name : RegionName) :
    holder (reshown shown slots) name =
      (holder slots name).map fun slot => { slot with visible := shown slot.id } := by
  unfold holder reshown
  rw [List.find?_map]
  rfl

theorem region_of_holder {name : RegionName} {slot : Slot} (h : holder slots name = some slot) :
    slot ∈ slots ∧ slot.region = some name :=
  ⟨List.mem_of_find?_eq_some h, by simpa using List.find?_some h⟩

/-- A region that is picked up first belongs to the child that is configured for it. -/
theorem get_sync_empty (slots : List Slot) (e : Edge) :
    (empty.sync slots).get e =
      (holder slots e.region).map fun slot => .fresh e.region slot.id slot.collapsed := by
  rw [get_sync]
  cases e <;> simp only [regionAt, empty, get] <;> split <;> simp_all

/-- The regions that the first pass picked up are kept. -/
theorem sync_again (hbare : ∀ e, (after.get e).map Region.bare =
      ((empty.sync slots).get e).map Region.bare) (e : Edge) :
    (after.sync (reshown shown slots)).get e = after.get e ∧
      newlyHidden (reshown shown slots) (after.get e) e.region = none := by
  have hknown := hbare e
  rw [get_sync_empty] at hknown
  rw [get_sync]
  unfold regionAt newlyHidden
  rw [holder_reshown]
  cases hslot : holder slots e.region with
  | none =>
    rw [hslot, Option.map_none, Option.map_none, Option.map_eq_none_iff] at hknown
    simp [hknown]
  | some slot =>
    rw [hslot, Option.map_some, Option.map_some, Option.map_eq_some_iff] at hknown
    obtain ⟨r, hr, hrbare⟩ := hknown
    have hcomponent : r.component = slot.id := by
      show r.bare.component = _
      rw [hrbare]
      rfl
    simp [hr, hcomponent]

theorem hiddenBySync_again (hbare : ∀ e, (after.get e).map Region.bare =
      ((empty.sync slots).get e).map Region.bare) :
    after.hiddenBySync (reshown shown slots) = [] := by
  unfold hiddenBySync
  rw [List.filterMap_eq_nil_iff]
  exact fun e _ => (sync_again hbare e).2

/-! ## Laying out regions again -/

/-- Regions that differ in their geometry look the same. -/
theorem look_congr (hbare : ∀ e, (b₂.get e).map Region.bare = (b.get e).map Region.bare)
    (e : Edge) : (b₂.get e).map Region.look = (b.get e).map Region.look := by
  have hlook := congrArg (Option.map Region.look) (hbare e)
  rwa [Option.map_map, Option.map_map] at hlook

/-- Regions are laid out by their looks. -/
theorem layAll_again {edges : List Edge} {area rest rest₂ : Rect}
    {placements placements₂ : List Placement}
    (hlook : ∀ e, (b₂.get e).map Region.look = (b.get e).map Region.look)
    (hmembers : ∀ id ∈ b.components edges, members' id = members id)
    (h : (layAll layout members edges b area).run.value = .ok (after, placements, rest))
    (h₂ : (layAll layout members' edges b₂ area).run.value = .ok (after₂, placements₂, rest₂)) :
    placements₂ = placements ∧ rest₂ = rest ∧
      ∀ f, f ∈ edges ∨ (b₂.get f).map Region.geometry = (b.get f).map Region.geometry →
        (after₂.get f).map Region.geometry = (after.get f).map Region.geometry := by
  induction edges generalizing b b₂ area placements placements₂ with
  | nil =>
    cases h
    cases h₂
    exact ⟨rfl, rfl, fun f hf => hf.resolve_left List.not_mem_nil⟩
  | cons e edges ih =>
    have hlook_e := hlook e
    rcases layAll_cons_eq_ok h with ⟨hnone, hrest⟩ |
      ⟨r, m, hidden, laid, others, hr, hm, hlaid, hrest, rfl⟩
    · rcases layAll_cons_eq_ok h₂ with ⟨hnone₂, hrest₂⟩ | ⟨r₂, _, _, _, _, hr₂, -⟩
      · have hcomponents : b.components (e :: edges) = b.components edges := by
          unfold components
          rw [List.filterMap_cons, hnone]
          rfl
        rw [hcomponents] at hmembers
        obtain ⟨rfl, rfl, hgeometry⟩ := ih hlook hmembers hrest hrest₂
        refine ⟨rfl, rfl, fun f hf => hgeometry f ?_⟩
        rcases hf with hf | hf
        · rcases List.mem_cons.1 hf with rfl | hf
          · exact .inr (by rw [hnone, hnone₂])
          · exact .inl hf
        · exact .inr hf
      · rw [hnone, hr₂] at hlook_e
        cases hlook_e
    · have hcomponents : b.components (e :: edges) = r.component :: b.components edges := by
        unfold components
        rw [List.filterMap_cons, hr]
        rfl
      rw [hcomponents] at hmembers
      rcases layAll_cons_eq_ok h₂ with ⟨hnone₂, -⟩ |
        ⟨r₂, m₂, hidden₂, laid₂, others₂, hr₂, hm₂, hlaid₂, hrest₂, rfl⟩
      · rw [hnone₂, hr] at hlook_e
        cases hlook_e
      · rw [hr, hr₂, Option.map_some, Option.map_some, Option.some.injEq] at hlook_e
        rw [(Region.look_eq_iff.1 hlook_e).1, hmembers _ (by simp), hm] at hm₂
        cases hm₂
        obtain ⟨hplacement, hleft, hdrawn⟩ := layRegion_look hlook_e hlaid hlaid₂
        have hkeeps := (layRegion_keeps hlaid).1
        have hset : laid₂.region.look = laid.region.look :=
          (Region.look_of_bare (layRegion_keeps hlaid₂).1).trans
            (hlook_e.trans (Region.look_of_bare hkeeps).symm)
        rw [hleft] at hrest₂
        obtain ⟨rfl, rfl, hgeometry⟩ := ih (fun f => by
            rw [Border.get_set, Border.get_set]
            split
            · exact congrArg some hset
            · exact hlook f)
          (fun id hid => hmembers id (by
            rw [components_congr (bare_set hr hkeeps)] at hid
            simp [hid])) hrest hrest₂
        refine ⟨by rw [hplacement], rfl, fun f hf => hgeometry f ?_⟩
        rw [Border.get_set, Border.get_set]
        by_cases hfe : f = e
        · rw [if_pos hfe, if_pos hfe]
          exact .inr (congrArg some hdrawn)
        · rw [if_neg hfe, if_neg hfe]
          exact hf.imp_left fun hf => (List.mem_cons.1 hf).resolve_left hfe

theorem place_again {center : ComponentId} {content : Rect}
    {placements placements₂ : List Placement}
    (hlook : ∀ e, (b₂.get e).map Region.look = (b.get e).map Region.look)
    (hmembers : ∀ id ∈ b.components Edge.all ++ [center], members' id = members id)
    (h : (b.place layout members center content).run.value = .ok (after, placements))
    (h₂ : (b₂.place layout members' center content).run.value = .ok (after₂, placements₂)) :
    placements₂ = placements ∧ after₂.centerRect = after.centerRect ∧
      ∀ e, (after₂.get e).map Region.geometry = (after.get e).map Region.geometry := by
  obtain ⟨laid, others, left, m, hidden, rect, hlaid, hm, hrect, rfl, rfl⟩ := place_eq_ok h
  obtain ⟨laid₂, others₂, left₂, m₂, hidden₂, rect₂, hlaid₂, hm₂, hrect₂, rfl, rfl⟩ :=
    place_eq_ok h₂
  obtain ⟨rfl, rfl, hgeometry⟩ :=
    layAll_again hlook (fun id hid => hmembers id (by simp [hid])) hlaid hlaid₂
  rw [hmembers center (by simp), hm] at hm₂
  cases hm₂
  rw [hrect] at hrect₂
  cases hrect₂
  refine ⟨rfl, rfl, fun e => ?_⟩
  rw [get_centerRect, get_centerRect]
  exact hgeometry e (.inl e.mem_all)

end Border

namespace Border

variable {layout : LayoutConfig} {members : ComponentId → Checked (Member × Bool)}
  {b after : Border} {slots : List Slot} {center : ComponentId} {content : Rect}
  {placements : List Placement}

theorem ids_place
    (h : (b.place layout members center content).run.value = .ok (after, placements)) :
    (placements.map Placement.id).Sublist (b.components Edge.all ++ [center]) := by
  obtain ⟨laid, others, left, m, hidden, rect, hlaid, -, -, -, rfl⟩ := place_eq_ok h
  rw [List.map_append]
  exact (layAll_keeps hlaid).2.2.append (.refl _)

theorem mem_components {edges : List Edge} {id : ComponentId} (h : id ∈ b.components edges) :
    ∃ e r, b.get e = some r ∧ r.component = id := by
  obtain ⟨e, -, he⟩ := List.mem_filterMap.1 h
  obtain ⟨r, hr, hid⟩ := Option.map_eq_some_iff.1 he
  exact ⟨e, r, hr, hid⟩

/-- Everything that is picked up is a child. -/
theorem mem_slots_of_picked (hcenter : (b.sync slots).center = some center) {id : ComponentId}
    (h : id ∈ (b.sync slots).components Edge.all ++ [center]) : id ∈ slots.map Slot.id := by
  rcases List.mem_append.1 h with hedge | hcenterId
  · obtain ⟨e, r, hr, rfl⟩ := mem_components hedge
    exact sync_get_component hr
  · rw [List.mem_singleton.1 hcenterId]
    simp only [sync, Option.map_eq_some_iff, Option.filter_eq_some_iff] at hcenter
    obtain ⟨slot, ⟨hslot, -⟩, rfl⟩ := hcenter
    exact List.mem_map_of_mem (region_of_holder hslot).1

theorem mem_slots_of_hidden {id : ComponentId} (h : id ∈ b.hiddenBySync slots) :
    ∃ (e : Edge) (slot : Slot), slot ∈ slots ∧ slot.region = some e.region ∧ slot.id = id := by
  obtain ⟨e, -, he⟩ := List.mem_filterMap.1 h
  unfold newlyHidden at he
  split at he
  · next slot hslot =>
    split at he
    · cases he
      exact ⟨e, slot, (region_of_holder hslot).1, (region_of_holder hslot).2, rfl⟩
    · cases he
  · cases he

end Border

namespace Scene

variable {s mid s' t : Scene} {layout : LayoutConfig} {container : ComponentId}
  {b after : Border} {slots : List Border.Slot} {r : Except LayoutError Unit}

theorem of_mem_slots (h : s.slots container = .ok slots) {slot : Border.Slot}
    (hslot : slot ∈ slots) : slot.id ∈ s.tree.children container ∧
      ∃ c, s.tree.get? slot.id = some c ∧ slot.region = c.config.region ∧
        slot.visible = !c.state.hidden := by
  obtain ⟨id, hid, hslot⟩ := Length.exists_of_mem_mapM h hslot
  obtain ⟨c, hc, hslot⟩ := Length.bind_eq_ok.1 hslot
  cases hslot
  exact ⟨hid, c, Tree.get_eq_ok.1 hc, rfl, rfl⟩

theorem ids_slots (h : s.slots container = .ok slots) :
    slots.map Border.Slot.id = s.tree.children container := by
  refine (Length.map_of_mapM (k := id) (fun id slot hslot => ?_) h).trans (List.map_id _)
  obtain ⟨c, -, hslot⟩ := Length.bind_eq_ok.1 hslot
  cases hslot
  rfl

/-- A later pass sees the same children. -/
theorem slots_again (hshape : s.tree.SameShape t.tree) (h : s.slots container = .ok slots) :
    t.slots container = .ok (Border.reshown t.tree.isVisible slots) := by
  unfold Scene.slots at h ⊢
  rw [← hshape.children_eq]
  generalize s.tree.children container = ids at h
  induction ids generalizing slots with
  | nil =>
    cases h
    rfl
  | cons id ids ih =>
    obtain ⟨slot, rest, hslot, hrest, rfl⟩ := Length.mapM_cons_eq_ok.1 h
    obtain ⟨c, hc, hslot⟩ := Length.bind_eq_ok.1 hslot
    cases hslot
    rw [Tree.get_eq_ok] at hc
    have hbare := hshape.bare id
    rw [hc] at hbare
    obtain ⟨d, hd, hdc⟩ := Option.map_eq_some_iff.1 hbare.symm
    have hconfig : d.config = c.config := by
      show d.bare.config = c.bare.config
      rw [hdc]
    refine Length.mapM_cons_eq_ok.2 ⟨_, _, ?_, ih hrest, rfl⟩
    rw [Tree.get_eq_ok.2 hd]
    simp [Tree.isVisible, hd, hconfig, pure, Except.pure]

theorem Syncs.touches (hslots : s.slots container = .ok slots)
    (h : Syncs container b slots s mid) : Touches container s mid := by
  refine ⟨⟨h.host.symm, ?_, fun i hi => ?_⟩, ?_⟩
  · rw [h.tree]
    refine Tree.agree_setHiddens s.tree fun id hid hnot => hnot ?_
    obtain ⟨e, slot, hslot, -, rfl⟩ := Border.mem_slots_of_hidden hid
    exact (of_mem_slots hslots hslot).1
  · rw [h.kept, IdMap.get?_insert, if_neg hi]
  · rw [h.tree]
    exact Tree.isRendered_setHiddens s.tree _ fun _ => true

theorem Sees.of_tree_eq (hhost : s.host = t.host) (htree : s.tree = t.tree) : Sees container s t :=
  ⟨hhost, htree ▸ .refl s.tree, by rw [htree], fun _ _ => by rw [htree]⟩

/-- What a border layout sees of a child depends on its settings, on the host and on whether it is
visible. -/
theorem regionMember_congr (hhost : s.host = t.host) (hshape : s.tree.SameShape t.tree)
    {id : ComponentId} (hshown : s.tree.isVisible id = t.tree.isVisible id) :
    t.regionMember id = s.regionMember id := by
  unfold regionMember
  have hbare := hshape.bare id
  cases ht : t.tree.get? id with
  | none =>
    rw [ht, Option.map_none, Option.map_eq_none_iff] at hbare
    simp [Tree.get, ht, hbare, hshape.size_eq, bind, Except.bind]
  | some d =>
    rw [ht] at hbare
    obtain ⟨c, hc, hsame⟩ := Option.map_eq_some_iff.1 hbare
    have hconfig : c.config = d.config := by
      show c.bare.config = d.bare.config
      rw [hsame]
    have hhidden : c.state.hidden = d.state.hidden := by
      simpa [Tree.isVisible, hc, ht] using hshown
    rw [Tree.get_eq_ok.2 ht, Tree.get_eq_ok.2 hc, Length.ok_bind, Length.ok_bind, hhost, hconfig,
      hhidden]

theorem Sees.regionMember_eq (h : Sees container s t) {id : ComponentId}
    (hid : id ∈ s.tree.children container) : t.regionMember id = s.regionMember id :=
  regionMember_congr h.host h.shape (h.shown id hid)

/-- Picking up the regions does not hide the center. -/
theorem isVisible_center (hslots : s.slots container = .ok slots)
    (hsync : Syncs container b slots s mid) {slot : Border.Slot}
    (hslot : Border.holder slots .center = some slot) :
    mid.tree.isVisible slot.id = slot.visible := by
  obtain ⟨hmem, hregion⟩ := Border.region_of_holder hslot
  obtain ⟨-, c, hc, hconfig, hvisible⟩ := of_mem_slots hslots hmem
  have hother : slot.id ∉ b.hiddenBySync slots := by
    intro hhidden
    obtain ⟨e, other, hotherMem, hotherRegion, hid⟩ := Border.mem_slots_of_hidden hhidden
    obtain ⟨-, d, hd, hotherConfig, -⟩ := of_mem_slots hslots hotherMem
    rw [hid, hc] at hd
    cases hd
    rw [hregion, ← hotherConfig, hotherRegion] at hconfig
    cases e <;> cases hconfig
  have hagree : s.tree.Agree (· = slot.id) mid.tree := by
    rw [hsync.tree]
    refine Tree.agree_setHiddens s.tree fun id hid heq => hother ?_
    rwa [← heq]
  rw [← hagree.isVisible_eq rfl, hvisible]
  simp [Tree.isVisible, hc]

theorem LaysRegions.touches {synced : Border} {placements : List Placement}
    (hids : ∀ id ∈ placements.map Placement.id, id ∈ mid.tree.children container)
    (h : LaysRegions layout container synced after placements mid s') :
    Touches container mid s' := by
  refine ⟨⟨h.host.symm, ?_, fun i hi => ?_⟩, ?_⟩
  · rw [h.tree]
    exact Tree.agree_applyPlacements mid.tree fun id hid hnot => hnot (hids id hid)
  · rw [h.kept, IdMap.get?_insert, if_neg hi]
  · rw [h.tree, Tree.isRendered_applyPlacements]

/-- Placements of regions and center are placements of children. -/
theorem LaysRegions.mem_children {placements : List Placement}
    (hslots : s.slots container = .ok slots) (hsync : Syncs container b slots s mid)
    (h : LaysRegions layout container (b.sync slots) after placements mid s') {id : ComponentId}
    (hid : id ∈ placements.map Placement.id) : id ∈ mid.tree.children container := by
  obtain ⟨center, content, hcenter, -, hplace⟩ := h.laid
  rw [(hsync.touches hslots).children_eq, ← ids_slots hslots]
  exact Border.mem_slots_of_picked hcenter ((Border.ids_place hplace).subset hid)

theorem touches_border (h : s.run (Step.arrangeBorder layout container b) = .ok (r, s')) :
    Touches container s s' := by
  obtain ⟨slots, mid, hslots, hsync, ⟨-, -, rfl⟩ | ⟨-, after, placements, hlaid⟩⟩ :=
    run_arrangeBorder_eq_ok h
  · exact hsync.touches hslots
  · have hplaced := hlaid.touches fun _ hid => hlaid.mem_children hslots hsync hid
    exact (hsync.touches hslots).trans hplaced

theorem id_holder (h : s.slots container = .ok slots) (name : RegionName) :
    (Border.holder slots name).map Border.Slot.id = s.tree.holder container name := by
  unfold Scene.slots at h
  unfold Border.holder Tree.holder
  generalize s.tree.children container = ids at h ⊢
  induction ids generalizing slots with
  | nil =>
    cases h
    rfl
  | cons id ids ih =>
    obtain ⟨slot, rest, hslot, hrest, rfl⟩ := Length.mapM_cons_eq_ok.1 h
    obtain ⟨d, hd, hslot⟩ := Length.bind_eq_ok.1 hslot
    cases hslot
    have hconfig : s.tree.config? id = some d.config := by
      rw [Tree.config?, Tree.get_eq_ok.1 hd]
      rfl
    rw [List.find?_cons, List.find?_cons, hconfig, Option.bind_some]
    cases d.config.region == some name with
    | true => rfl
    | false => exact ih hrest

theorem holder_center (hslots : s.slots container = .ok slots) {center : ComponentId}
    (hcenter : (b.sync slots).center = some center) :
    s.tree.holder container .center = some center := by
  simp only [Border.sync, Option.map_eq_some_iff, Option.filter_eq_some_iff] at hcenter
  obtain ⟨slot, ⟨hslot, -⟩, rfl⟩ := hcenter
  rw [← id_holder hslots, hslot]
  rfl

/-- The regions of different children and the center have different components. -/
theorem nodup_held {t : Tree} (hheld : ∀ e r, b.get e = some r →
      t.holder container e.region = some r.component) {center : ComponentId}
    (hcenter : t.holder container .center = some center) :
    (b.components Edge.all ++ [center]).Nodup := by
  have hedge : ∀ {e : Edge} {id}, id ∈ (b.get e).map Region.component →
      t.holder container e.region = some id := by
    intro e id hid
    obtain ⟨r, hr, rfl⟩ := Option.map_eq_some_iff.1 (Option.mem_def.1 hid)
    exact hheld e r hr
  refine List.nodup_append.2 ⟨?_, by simp, ?_⟩
  · refine List.Nodup.filterMap (fun e f id he hf => ?_) (by decide)
    exact Edge.region_injective (Tree.holder_injective (hedge he) (hedge hf))
  · rintro id hid _ hcenterId rfl
    rw [List.mem_singleton] at hcenterId
    subst hcenterId
    obtain ⟨e, -, he⟩ := List.mem_filterMap.1 hid
    have hregion := Tree.holder_injective (hedge he) hcenter
    cases e <;> cases hregion

/-- The second pass finds the same center, which the first one has not hidden. -/
theorem center_again (hslots : s.slots container = .ok slots)
    (hsync : Syncs container b slots s mid) {center : ComponentId}
    (hcenter : (b.sync slots).center = some center) (hsees : Sees container mid t)
    (after : Border) :
    (after.sync (Border.reshown t.tree.isVisible slots)).center = some center := by
  simp only [Border.sync, Option.map_eq_some_iff, Option.filter_eq_some_iff] at hcenter
  obtain ⟨slot, ⟨hslot, hvisible⟩, rfl⟩ := hcenter
  have hstill := hsees.shown slot.id (by
    rw [(hsync.touches hslots).children_eq]
    exact (of_mem_slots hslots (Border.region_of_holder hslot).1).1)
  rw [isVisible_center hslots hsync hslot, hvisible] at hstill
  simp [Border.sync, Border.holder_reshown, hslot, ← hstill]

theorem settles_border (hnested : s.tree.Nested) (hown : s.host.targetSize = Host.ownSize)
    (h : s.run (Step.arrangeBorder layout container .empty) = .ok (.ok (), s')) :
    ∃ after, s'.kept.get? container = some (.border after) ∧
      Settles container s' (Step.arrangeBorder layout container after) := by
  obtain ⟨slots, mid, hslots, hsync, ⟨-, hrefused, -⟩ | ⟨-, after, placements, hlaid⟩⟩ :=
    run_arrangeBorder_eq_ok h
  · cases hrefused
  refine ⟨after, ?_, fun t ht r' t' h' => ?_⟩
  · rw [hlaid.kept, IdMap.get?_insert, if_pos rfl]
  have hpicked := hsync.touches hslots
  have hchildren : ∀ id ∈ placements.map Placement.id, id ∈ mid.tree.children container :=
    fun _ hid => hlaid.mem_children hslots hsync hid
  have hplaced := hlaid.touches hchildren
  have hmidNested := hpicked.tree.toSameShape.nested hnested
  have hshown : s'.tree.isVisible = mid.tree.isVisible := by
    rw [hlaid.tree, Tree.isVisible_applyPlacements]
  have hsees := (hplaced.sees hmidNested hshown).trans (.of_near ht)
  obtain ⟨center, content, hcenter, hcontent, hplace⟩ := hlaid.laid
  have hbare := Border.bare_place hplace
  obtain ⟨slots₂, mid₂, hslots₂, hsync₂, hcases⟩ := run_arrangeBorder_eq_ok h'
  have hagain := slots_again (hpicked.tree.toSameShape.trans hsees.shape) hslots
  rw [hslots₂] at hagain
  cases hagain
  have htree₂ : mid₂.tree = t.tree := by
    rw [hsync₂.tree, Border.hiddenBySync_again hbare]
    rfl
  have hsees₂ := hsees.trans (.of_tree_eq hsync₂.host.symm htree₂.symm)
  have hcenter₂ := center_again hslots hsync hcenter hsees after
  rcases hcases with ⟨hnone, -⟩ | ⟨hr, after₂, placements₂, hlaid₂⟩
  · rw [hcenter₂] at hnone
    cases hnone
  obtain ⟨center', content', hcenter', hcontent', hplace'⟩ := hlaid₂.laid
  rw [hcenter₂] at hcenter'
  cases hcenter'
  have hmidOwn : mid.host.targetSize = Host.ownSize := by rw [hsync.host, hown]
  rw [← hsees₂.content_eq hmidOwn, hcontent] at hcontent'
  cases hcontent'
  have hsame : placements₂ = placements := by
    refine (Border.place_again (fun e => ?_) (fun id hid => ?_) hplace hplace').1
    · rw [(Border.sync_again hbare e).1, Border.look_congr hbare]
    · refine hsees₂.regionMember_eq ?_
      rw [hpicked.children_eq, ← ids_slots hslots]
      exact Border.mem_slots_of_picked hcenter hid
  refine ⟨hr, ?_⟩
  rw [hlaid₂.tree, htree₂, hsame]
  have hshows : s'.tree.Shows placements := by
    rw [hlaid.tree]
    refine Tree.shows_applyPlacements ((Border.ids_place hplace).nodup
      (nodup_held (fun e r hr => ?_) (holder_center hslots hcenter))) mid.tree
    rw [Border.get_sync_empty] at hr
    obtain ⟨slot, hslot, rfl⟩ := Option.map_eq_some_iff.1 hr
    rw [← id_holder hslots, hslot]
    rfl
  refine Tree.applyPlacements_eq_self (hshows.of_agree ht.tree fun id hid => .inr ?_)
  rw [hplaced.children_eq]
  exact hchildren id hid

end Scene

end Trellis
