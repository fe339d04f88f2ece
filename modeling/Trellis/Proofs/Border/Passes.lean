import Trellis.Layout.Border
import Trellis.Proofs.Steps

/-!
# Running a border layout

* `run_syncBorder_eq_ok`: picking up the regions hides the components of new, collapsed ones, and
  is never refused.
* `run_arrangeBorder_eq_ok`: a pass is refused without a center, and else places all regions.
* `layAll_keeps`: laying out the regions changes nothing of them but their geometry.
* `place_eq_ok`: the center gets what the regions leave.
-/
namespace Trellis.Scene

variable {s s' : Scene} {layout : LayoutConfig} {container : ComponentId} {b : Border}

/-- The children of a border container as far as regions are concerned. -/
def slots (s : Scene) (container : ComponentId) : Checked (List Border.Slot) :=
  (s.tree.children container).mapM fun id => do
    let c ← s.tree.get id
    return ⟨id, c.config.region, c.config.collapsed, !c.state.hidden⟩

/-- A child as a border layout sees it, and whether it is hidden. -/
def regionMember (s : Scene) (id : ComponentId) : Checked (Member × Bool) := do
  let c ← s.tree.get id
  return (⟨id, c.config, s.host.measure id c.config⟩, c.state.hidden)

theorem of_regionMember {id : ComponentId} {m : Member} {hidden : Bool}
    (h : s.regionMember id = .ok (m, hidden)) :
    ∃ c, s.tree.get? id = some c ∧ m.config = c.config ∧ hidden = c.state.hidden := by
  obtain ⟨c, hc, h⟩ := Length.bind_eq_ok.1 h
  cases h
  exact ⟨c, Tree.get_eq_ok.1 hc, rfl, rfl⟩

/-- What picking up the regions of a border container changes. -/
structure Syncs (container : ComponentId) (b : Border) (slots : List Border.Slot) (s s' : Scene) :
    Prop where
  tree : s'.tree = (b.hiddenBySync slots).foldl (fun t id => t.setHidden id true) s.tree
  host : s'.host = s.host
  kept : s'.kept = s.kept.insert container (.border (b.sync slots))

theorem run_slots (s : Scene) (container : ComponentId) :
    s.run (Step.slots container) = s.slots container >>= fun slots => .ok (.ok slots, s) := by
  unfold Step.slots
  rw [run_bind, run_tree, Length.ok_bind]
  refine run_mapM_of_reads (fun id => ?_) _
  rw [run_bind, run_check]
  cases s.tree.get id <;> rfl

theorem run_syncBorder_eq_ok {r : Except LayoutError Border}
    (h : s.run (Step.syncBorder container b) = .ok (r, s')) :
    ∃ slots, s.slots container = .ok slots ∧ r = .ok (b.sync slots) ∧
      Syncs container b slots s s' := by
  unfold Step.syncBorder at h
  rw [run_bind, run_slots] at h
  cases hslots : s.slots container with
  | error fault =>
    rw [hslots] at h
    cases h
  | ok slots =>
    simp only [hslots, Length.ok_bind, run_bind, run_draft, Draft.value_noted, run_modifyTree,
      run_keep, run_pure] at h
    cases h
    exact ⟨slots, rfl, rfl, rfl, rfl, rfl⟩

/-- What laying out the regions of a border container changes, once they are picked up. -/
structure LaysRegions (layout : LayoutConfig) (container : ComponentId) (synced after : Border)
    (placements : List Placement) (s s' : Scene) : Prop where
  laid : ∃ center content, synced.center = some center ∧ s.content layout container = .ok content ∧
    (synced.place layout s.regionMember center content).run.value = .ok (after, placements)
  tree : s'.tree = s.tree.applyPlacements placements
  host : s'.host = s.host
  kept : s'.kept = s.kept.insert container (.border after)

theorem run_arrangeBorder_eq_ok {r : Except LayoutError Unit}
    (h : s.run (Step.arrangeBorder layout container b) = .ok (r, s')) :
    ∃ slots mid, s.slots container = .ok slots ∧ Syncs container b slots s mid ∧
      (((b.sync slots).center = none ∧ r = .error (.missingCenterRegion container) ∧ s' = mid) ∨
        r = .ok () ∧ ∃ after placements,
          LaysRegions layout container (b.sync slots) after placements mid s') := by
  unfold Step.arrangeBorder at h
  rw [run_bind, Length.bind_eq_ok] at h
  obtain ⟨⟨_, mid⟩, hsync, h⟩ := h
  obtain ⟨slots, hslots, rfl, hmid⟩ := run_syncBorder_eq_ok hsync
  refine ⟨slots, mid, hslots, hmid, ?_⟩
  cases hcenter : (b.sync slots).center with
  | none =>
    simp only [hcenter, run_throw] at h
    cases h
    exact .inl ⟨rfl, rfl, rfl⟩
  | some center =>
    simp only [hcenter] at h
    rw [run_bind, Length.bind_eq_ok] at h
    obtain ⟨⟨_, _⟩, hfirst, h⟩ := h
    obtain ⟨content, notices, hcontent, rfl, rfl⟩ := run_contentBox_eq_ok hfirst
    simp only [run_bind, run_get, Length.ok_bind, run_draft, bind_assoc, run_keep, run_apply] at h
    obtain ⟨⟨after, placements⟩, hplace, h⟩ := Length.bind_eq_ok.1 h
    cases h
    exact .inr ⟨rfl, after, placements, ⟨center, content, hcenter, hcontent, hplace⟩, rfl, rfl, rfl⟩

end Trellis.Scene

namespace Trellis

theorem Edge.mem_all (e : Edge) : e ∈ all := by cases e <;> decide

/-- The region without its geometry. -/
def Region.bare (r : Region) : Region :=
  { r with rect := none, placeholder := none, splitter := none }

/-- What a region is laid out by. -/
def Region.look (r : Region) : ComponentId × RegionState × Option Int :=
  (r.component, r.state, r.size)

/-- Where a region is: its component, its placeholder and its splitter. -/
def Region.geometry (r : Region) : Option Rect × Option Rect × Option Rect :=
  (r.rect, r.placeholder, r.splitter)

theorem Region.look_eq_iff {r r' : Region} : r'.look = r.look ↔
    r'.component = r.component ∧ r'.state = r.state ∧ r'.size = r.size := by
  simp [look]

theorem Region.look_of_bare {r r' : Region} (h : r'.bare = r.bare) : r'.look = r.look := by
  show r'.bare.look = r.bare.look
  rw [h]

namespace Border

variable {layout : LayoutConfig} {members : ComponentId → Checked (Member × Bool)} {b b' : Border}
  {area rest : Rect} {edges : List Edge} {placements : List Placement}

/-! ## What laying out regions keeps -/

/-- The components of the regions at `edges`. -/
def components (b : Border) (edges : List Edge) : List ComponentId :=
  edges.filterMap fun e => (b.get e).map Region.component

theorem components_congr (h : ∀ e, (b'.get e).map Region.bare = (b.get e).map Region.bare)
    (edges : List Edge) : b'.components edges = b.components edges := by
  have hget : ∀ e, (b'.get e).map Region.component = (b.get e).map Region.component := by
    intro e
    have hbare := congrArg (Option.map Region.component) (h e)
    rwa [Option.map_map, Option.map_map] at hbare
  unfold components
  simp only [hget]

/-- A region is laid out by its looks, without regard to where it was placed before and to what it
waits for. -/
theorem layRegion_look {e : Edge} {r r' : Region} {m : Member} {hidden : Bool} {laid laid' : Laid}
    (hlook : r'.look = r.look) (h : (layRegion layout area e r m hidden).run.value = .ok laid)
    (h' : (layRegion layout area e r' m hidden).run.value = .ok laid') :
    laid'.placement = laid.placement ∧ laid'.rest = laid.rest ∧
      laid'.region.geometry = laid.region.geometry := by
  obtain ⟨name, component, state, pending, size, _, _, _⟩ := r
  obtain ⟨name', component', state', pending', size', _, _, _⟩ := r'
  obtain ⟨rfl, rfl, rfl⟩ := Region.look_eq_iff.1 hlook
  unfold layRegion at h h'
  cases state' with
  | expanded =>
    dsimp only at h h'
    split at h
    · next hhidden =>
      rw [if_pos hhidden] at h'
      cases h
      cases h'
      exact ⟨rfl, rfl, rfl⟩
    · next hshown =>
      rw [if_neg hshown] at h'
      simp only [Draft.value_bind, Draft.value_noted, Draft.value_checked, Length.ok_bind] at h h'
      obtain ⟨strip, hstrip, h⟩ := Length.bind_eq_ok.1 h
      obtain ⟨strip', hstrip', h'⟩ := Length.bind_eq_ok.1 h'
      obtain rfl := Except.ok.inj (hstrip.symm.trans hstrip')
      cases h
      cases h'
      exact ⟨rfl, rfl, rfl⟩
  | collapsed =>
    simp only [Draft.value_bind, Draft.value_noted, Draft.value_checked, Length.ok_bind] at h h'
    obtain ⟨strip, hstrip, h⟩ := Length.bind_eq_ok.1 h
    obtain ⟨strip', hstrip', h'⟩ := Length.bind_eq_ok.1 h'
    obtain rfl := Except.ok.inj (hstrip.symm.trans hstrip')
    cases h
    cases h'
    exact ⟨rfl, rfl, rfl⟩
  | floating =>
    simp only [Draft.value_bind, Draft.value_noted, Draft.value_checked, Length.ok_bind] at h h'
    obtain ⟨strip, hstrip, h⟩ := Length.bind_eq_ok.1 h
    obtain ⟨strip', hstrip', h'⟩ := Length.bind_eq_ok.1 h'
    obtain rfl := Except.ok.inj (hstrip.symm.trans hstrip')
    obtain ⟨overlay, hoverlay, h⟩ := Length.bind_eq_ok.1 h
    obtain ⟨overlay', hoverlay', h'⟩ := Length.bind_eq_ok.1 h'
    obtain rfl := Except.ok.inj (hoverlay.symm.trans hoverlay')
    cases h
    cases h'
    exact ⟨rfl, rfl, rfl⟩

theorem layRegion_keeps {e : Edge} {r : Region} {m : Member} {hidden : Bool} {laid : Laid}
    (h : (layRegion layout area e r m hidden).run.value = .ok laid) :
    laid.region.bare = r.bare ∧ ∀ p ∈ laid.placement, p.id = r.component := by
  unfold layRegion at h
  cases hstate : r.state with
  | expanded =>
    simp only [hstate] at h
    split at h
    · cases h
      simp [Region.bare, hstate]
    · simp only [Draft.value_bind, Draft.value_noted, Draft.value_checked, Length.ok_bind] at h
      obtain ⟨strip, -, h⟩ := Length.bind_eq_ok.1 h
      cases h
      simp [Region.bare, hstate]
  | collapsed =>
    simp only [hstate, Draft.value_bind, Draft.value_noted, Draft.value_checked,
      Length.ok_bind] at h
    obtain ⟨strip, -, h⟩ := Length.bind_eq_ok.1 h
    cases h
    simp [Region.bare, hstate]
  | floating =>
    simp only [hstate, Draft.value_bind, Draft.value_noted, Draft.value_checked,
      Length.ok_bind] at h
    obtain ⟨strip, -, h⟩ := Length.bind_eq_ok.1 h
    obtain ⟨overlay, -, h⟩ := Length.bind_eq_ok.1 h
    cases h
    simp [Region.bare, hstate]

/-- The first edge of several, when all are laid out. -/
theorem layAll_cons_eq_ok {e : Edge}
    (h : (layAll layout members (e :: edges) b area).run.value = .ok (b', placements, rest)) :
    (b.get e = none ∧ (layAll layout members edges b area).run.value = .ok (b', placements, rest)) ∨
      ∃ r m hidden laid others, b.get e = some r ∧ members r.component = .ok (m, hidden) ∧
        (layRegion layout area e r m hidden).run.value = .ok laid ∧
        (layAll layout members edges (b.set e (some laid.region)) laid.rest).run.value =
          .ok (b', others, rest) ∧ placements = laid.placement.toList ++ others := by
  unfold layAll at h
  cases hget : b.get e with
  | none =>
    simp only [hget] at h
    exact .inl ⟨rfl, h⟩
  | some r =>
    simp only [hget, Draft.value_bind, Draft.value_checked] at h
    obtain ⟨⟨m, hidden⟩, hm, h⟩ := Length.bind_eq_ok.1 h
    obtain ⟨laid, hlaid, h⟩ := Length.bind_eq_ok.1 h
    obtain ⟨⟨after, others, last⟩, hrest, h⟩ := Length.bind_eq_ok.1 h
    cases h
    exact .inr ⟨r, m, hidden, laid, others, rfl, hm, hlaid, hrest, rfl⟩

/-- Changing the geometry of a region. -/
theorem bare_set {e : Edge} {r laid : Region} (hr : b.get e = some r) (hlaid : laid.bare = r.bare)
    (f : Edge) : ((b.set e (some laid)).get f).map Region.bare = (b.get f).map Region.bare := by
  rw [Border.get_set]
  split
  · next heq => rw [heq, hr, Option.map_some, Option.map_some, hlaid]
  · rfl

theorem layAll_keeps
    (h : (layAll layout members edges b area).run.value = .ok (b', placements, rest)) :
    (∀ e, (b'.get e).map Region.bare = (b.get e).map Region.bare) ∧ b'.center = b.center ∧
      (placements.map Placement.id).Sublist (b.components edges) := by
  induction edges generalizing b area placements with
  | nil =>
    cases h
    exact ⟨fun _ => rfl, rfl, .slnil⟩
  | cons e edges ih =>
    rcases layAll_cons_eq_ok h with ⟨hnone, hrest⟩ |
      ⟨r, m, hidden, laid, others, hr, -, hlaid, hrest, rfl⟩
    · obtain ⟨hbare, hcenter, hids⟩ := ih hrest
      refine ⟨hbare, hcenter, ?_⟩
      unfold components
      rw [List.filterMap_cons, hnone]
      exact hids
    · obtain ⟨hbare, hcenter, hids⟩ := ih hrest
      obtain ⟨hlaidBare, hplacement⟩ := layRegion_keeps hlaid
      refine ⟨fun f => (hbare f).trans (bare_set hr hlaidBare f), hcenter.trans ?_, ?_⟩
      · cases e <;> rfl
      · rw [components_congr (bare_set hr hlaidBare)] at hids
        have hcomponents : b.components (e :: edges) = r.component :: b.components edges := by
          unfold components
          rw [List.filterMap_cons, hr]
          rfl
        rw [hcomponents, List.map_append]
        cases hp : laid.placement with
        | none => exact hids.cons r.component
        | some p =>
          have hid := hplacement p hp
          simp only [Option.toList_some, List.map_cons, List.map_nil, List.singleton_append, hid]
          exact hids.cons_cons r.component

theorem place_eq_ok {center : ComponentId} {content : Rect}
    (h : (b.place layout members center content).run.value = .ok (b', placements)) :
    ∃ laid others left m hidden rect,
      (layAll layout members Edge.all b content).run.value = .ok (laid, others, left) ∧
      members center = .ok (m, hidden) ∧ left.inset (m.config.marginSides layout) = .ok rect ∧
      b' = { laid with centerRect := some rect } ∧ placements = others ++ [⟨center, rect⟩] := by
  simp only [place, Draft.value_bind, Draft.value_checked, Draft.value_noted, Length.ok_bind] at h
  obtain ⟨⟨laid, others, left⟩, hlaid, h⟩ := Length.bind_eq_ok.1 h
  obtain ⟨⟨m, hidden⟩, hm, h⟩ := Length.bind_eq_ok.1 h
  obtain ⟨rect, hrect, h⟩ := Length.bind_eq_ok.1 h
  cases h
  exact ⟨laid, others, left, m, hidden, rect, hlaid, hm, hrect, rfl, rfl⟩

/-- Keeping where the center was placed leaves the regions as they are. -/
@[simp] theorem get_centerRect (b : Border) (rect : Option Rect) (e : Edge) :
    ({ b with centerRect := rect } : Border).get e = b.get e := by
  cases e <;> rfl

theorem bare_place {center : ComponentId} {content : Rect}
    (h : (b.place layout members center content).run.value = .ok (b', placements)) (e : Edge) :
    (b'.get e).map Region.bare = (b.get e).map Region.bare := by
  obtain ⟨laid, _, _, _, _, rect, hlaid, -, -, rfl, -⟩ := place_eq_ok h
  rw [get_centerRect, (layAll_keeps hlaid).1 e]

theorem center_place {center : ComponentId} {content : Rect}
    (h : (b.place layout members center content).run.value = .ok (b', placements)) :
    b'.center = b.center := by
  obtain ⟨laid, _, _, _, _, rect, hlaid, -, -, rfl, -⟩ := place_eq_ok h
  exact (layAll_keeps hlaid).2.1

end Border

end Trellis
