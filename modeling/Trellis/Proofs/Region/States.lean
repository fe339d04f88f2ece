import Trellis.Proofs.Region.Calls

/-!
# What regions are like

The regions that a border layout keeps go through their states as they should, whatever is called
and whether or not it is refused: an animation that waits fits the state of its region, no thickness
is negative, a region that can neither collapse nor start collapsed is expanded, and the hidden
children are the components of collapsed regions.

* `Region.Sound`, `Border.Sound`: a single region; all regions, and which components are hidden.
* `Region.Changes.sound`, `Border.Sound.sync`, `Border.Sound.changed`: no change breaks that.
* `Regulated`: a scene in which the regions of a container are as they should be.
-/
namespace Trellis

/-! ## A single region -/

/-- The region at an edge of a container is one that it can have there. -/
structure Region.Sound (t : Tree) (c : ComponentId) (e : Edge) (r : Region) : Prop where
  name : r.name = e.region
  holds : t.holder c e.region = some r.component
  collapsing : r.pending = some .collapse → r.state = .expanded
  expanding : r.pending = some .expand → r.state ≠ .expanded
  size : ∀ n, r.size = some n → 0 ≤ n
  /-- What can neither collapse nor start collapsed is expanded. -/
  fixed : ∀ config, t.config? r.component = some config → config.collapsible = false →
    config.collapsed = false → r.state = .expanded ∧ r.pending = none

namespace Region

variable {t u : Tree} {c : ComponentId} {e : Edge} {r r' : Region}

theorem bare_eq_iff : r'.bare = r.bare ↔ r'.name = r.name ∧ r'.component = r.component ∧
    r'.state = r.state ∧ r'.pending = r.pending ∧ r'.size = r.size := by
  cases r
  cases r'
  simp [bare]

theorem Sound.of_bare (h : r.Sound t c e) (hbare : r'.bare = r.bare)
    (hholder : u.holder c = t.holder c) (hconfig : u.config? = t.config?) : r'.Sound u c e := by
  obtain ⟨hname, hcomponent, hstate, hpending, hsize⟩ := bare_eq_iff.1 hbare
  refine ⟨?_, ?_, ?_, ?_, ?_, ?_⟩
  · rw [hname]
    exact h.name
  · rw [hcomponent, hholder]
    exact h.holds
  · rw [hpending, hstate]
    exact h.collapsing
  · rw [hpending, hstate]
    exact h.expanding
  · rw [hsize]
    exact h.size
  · rw [hcomponent, hconfig, hstate, hpending]
    exact h.fixed

/-- A region that is picked up. -/
theorem sound_fresh {i : ComponentId} {collapsed : Bool} (hholds : t.holder c e.region = some i)
    (hcollapsed : ∀ config, t.config? i = some config → config.collapsed = collapsed) :
    (fresh e.region i collapsed).Sound t c e := by
  refine ⟨rfl, hholds, ?_, ?_, ?_, ?_⟩
  · intro hpending
    cases hpending
  · intro hpending
    cases hpending
  · intro n hsize
    cases hsize
  · intro config hconfig _ hexpanded
    rw [hcollapsed config hconfig] at hexpanded
    subst hexpanded
    exact ⟨rfl, rfl⟩

variable {config : Option ItemConfig} {bounds : Option SplitBounds} {call : RegionCall}
  {shows lays : Bool}

theorem Changes.component_eq (h : r.Changes config bounds call r' shows lays) :
    r'.component = r.component := by
  cases h <;> rfl

/-- Unless the component is hidden or shown, the state stays. -/
theorem Changes.state_eq (h : r.Changes config bounds call r' false lays) : r'.state = r.state := by
  cases h <;> rfl

theorem canSlideOut_iff (r : Region) :
    r.canSlideOut = true ↔ r.pending = none ∧ r.state = .collapsed := by
  simp [canSlideOut]

theorem canSlideIn_iff (r : Region) :
    r.canSlideIn = true ↔ r.pending = none ∧ r.state = .floating := by
  simp [canSlideIn]

/-- No call makes a region one that it cannot be. -/
theorem Changes.sound (h : r.Changes (t.config? r.component) bounds call r' shows lays)
    (hr : r.Sound t c e) : r'.Sound t c e := by
  -- what is fixed has not been collapsed, floating or about to change before
  have hfixed : ∀ {config}, t.config? r.component = some config → config.collapsible = false →
      config.collapsed = false → r.state = .expanded ∧ r.pending = none :=
    fun {config} => hr.fixed config
  cases h with
  | collapseLater allowed collapsible =>
    obtain ⟨-, hstate⟩ := (r.allows_iff _).1 allowed
    refine ⟨hr.name, hr.holds, fun _ => hstate.2 rfl, nofun, hr.size, ?_⟩
    intro config hconfig hnot _
    rw [show (r.start .collapse).component = r.component from rfl] at hconfig
    simp [hconfig, hnot] at collapsible
  | collapse allowed collapsible =>
    refine ⟨hr.name, hr.holds, nofun, nofun, hr.size, ?_⟩
    intro config hconfig hnot _
    rw [show (r.finish .collapse).component = r.component from rfl] at hconfig
    simp [hconfig, hnot] at collapsible
  | expandLater allowed =>
    obtain ⟨-, hstate⟩ := (r.allows_iff _).1 allowed
    have hnot : r.state ≠ .expanded := by simpa using hstate
    refine ⟨hr.name, hr.holds, nofun, fun _ => hnot, hr.size, ?_⟩
    exact fun config hconfig h₁ h₂ => absurd (hfixed hconfig h₁ h₂).1 hnot
  | expand allowed =>
    exact ⟨hr.name, hr.holds, nofun, nofun, hr.size, fun _ _ _ _ => ⟨rfl, rfl⟩⟩
  | complete pending =>
    refine ⟨hr.name, hr.holds, nofun, nofun, hr.size, fun config hconfig h₁ h₂ => ?_⟩
    have hnone := (hfixed hconfig h₁ h₂).2
    rw [pending] at hnone
    cases hnone
  | slideOut allowed =>
    obtain ⟨hpending, hstate⟩ := r.canSlideOut_iff.1 allowed
    refine ⟨hr.name, hr.holds, ?_, ?_, hr.size, fun config hconfig h₁ h₂ => ?_⟩
    · intro hsome
      rw [show r.pending = _ from hsome] at hpending
      cases hpending
    · intro hsome
      rw [show r.pending = _ from hsome] at hpending
      cases hpending
    · have hexpanded := (hfixed hconfig h₁ h₂).1
      rw [hstate] at hexpanded
      cases hexpanded
  | slideIn allowed =>
    obtain ⟨hpending, hstate⟩ := r.canSlideIn_iff.1 allowed
    refine ⟨hr.name, hr.holds, ?_, ?_, hr.size, fun config hconfig h₁ h₂ => ?_⟩
    · intro hsome
      rw [show r.pending = _ from hsome] at hpending
      cases hpending
    · intro hsome
      rw [show r.pending = _ from hsome] at hpending
      cases hpending
    · have hexpanded := (hfixed hconfig h₁ h₂).1
      rw [hstate] at hexpanded
      cases hexpanded
  | splitMove allowed known clamped =>
    refine ⟨hr.name, hr.holds, hr.collapsing, hr.expanding, ?_, hr.fixed⟩
    rintro n ⟨⟩
    exact SplitBounds.clamp_nonneg clamped

end Region

/-! ## All regions of a container -/

/-- The regions are those that a container can have, and those of its children are hidden that are
the components of collapsed regions. -/
structure Border.Sound (t : Tree) (c : ComponentId) (b : Border) : Prop where
  region : ∀ e r, b.get e = some r → r.Sound t c e
  hidden : ∀ i ∈ t.children c, t.isHidden i = true ↔
    ∃ e r, b.get e = some r ∧ r.component = i ∧ r.state = .collapsed

/-- What is said of regions without their geometry. -/
theorem Border.get_of_bare {b b' : Border} (hbare : ∀ e, (b'.get e).map Region.bare =
    (b.get e).map Region.bare) {e : Edge} {r' : Region} (hr' : b'.get e = some r') :
    ∃ r, b.get e = some r ∧ r'.bare = r.bare := by
  have he := hbare e
  rw [hr', Option.map_some] at he
  obtain ⟨r, hr, heq⟩ := Option.map_eq_some_iff.1 he.symm
  exact ⟨r, hr, heq.symm⟩

namespace Border.Sound

variable {t u : Tree} {c : ComponentId} {e f : Edge} {r r' : Region} {b b' : Border}
  {slots : List Border.Slot}

theorem of_bare (h : b.Sound t c) (hshape : t.SameShape u)
    (hflags : ∀ i ∈ t.children c, u.isHidden i = t.isHidden i)
    (hbare : ∀ e, (b'.get e).map Region.bare = (b.get e).map Region.bare) : b'.Sound u c := by
  refine ⟨fun e r' hr' => ?_, fun i hi => ?_⟩
  · obtain ⟨r, hr, heq⟩ := Border.get_of_bare hbare hr'
    exact (h.region e r hr).of_bare heq
      (Tree.holder_congr (congrFun hshape.children_eq.symm c) hshape.config?_eq.symm)
      hshape.config?_eq.symm
  · rw [← hshape.children_eq] at hi
    rw [hflags i hi, h.hidden i hi]
    constructor
    · rintro ⟨e, r, hr, hi, hstate⟩
      obtain ⟨r', hr', heq⟩ := Border.get_of_bare (fun e => (hbare e).symm) hr
      obtain ⟨-, hcomponent, hsame, -⟩ := Region.bare_eq_iff.1 heq
      exact ⟨e, r', hr', hcomponent ▸ hi, hsame ▸ hstate⟩
    · rintro ⟨e, r', hr', hi, hstate⟩
      obtain ⟨r, hr, heq⟩ := Border.get_of_bare hbare hr'
      obtain ⟨-, hcomponent, hsame, -⟩ := Region.bare_eq_iff.1 heq
      exact ⟨e, r, hr, hcomponent ▸ hi, hsame ▸ hstate⟩

/-- No component has two regions. -/
theorem edge_unique (h : b.Sound t c) (hr : b.get e = some r) (hr' : b.get f = some r')
    (hcomponent : r'.component = r.component) : f = e := by
  refine Edge.region_injective (Tree.holder_injective (h.region f r' hr').holds ?_)
  rw [hcomponent]
  exact (h.region e r hr).holds

theorem isHidden_component (h : b.Sound t c) (hr : b.get e = some r) :
    t.isHidden r.component = true ↔ r.state = .collapsed := by
  rw [h.hidden _ (Tree.mem_of_holder (h.region e r hr).holds).1]
  constructor
  · rintro ⟨f, r', hr', hcomponent, hstate⟩
    rw [h.edge_unique hr hr' hcomponent, hr] at hr'
    cases hr'
    exact hstate
  · intro hstate
    exact ⟨e, r, hr, rfl, hstate⟩

/-- One region changes, and its component is hidden or shown accordingly. -/
theorem set (h : b.Sound t c) (hr : b.get e = some r) (hr' : r'.Sound t c e)
    (hshape : t.SameShape u)
    (hflags : ∀ i ∈ t.children c, u.isHidden i = true ↔
      if i = r'.component then r'.state = .collapsed else t.isHidden i = true) :
    (b.set e (some r')).Sound u c := by
  have hholder := Tree.holder_congr (congrFun hshape.children_eq.symm c) hshape.config?_eq.symm
  have hsame : r'.component = r.component :=
    Option.some.inj (hr'.holds.symm.trans (h.region e r hr).holds)
  refine ⟨fun f r'' hr'' => ?_, fun i hi => ?_⟩
  · rw [Border.get_set] at hr''
    split at hr''
    · next heq =>
      cases hr''
      exact heq ▸ hr'.of_bare rfl hholder hshape.config?_eq.symm
    · exact (h.region f r'' hr'').of_bare rfl hholder hshape.config?_eq.symm
  · rw [← hshape.children_eq] at hi
    rw [hflags i hi]
    by_cases heq : i = r'.component
    · rw [if_pos heq]
      constructor
      · intro hstate
        exact ⟨e, r', by rw [Border.get_set, if_pos rfl], heq.symm, hstate⟩
      · rintro ⟨f, r'', hr'', hcomponent, hstate⟩
        rw [Border.get_set] at hr''
        split at hr''
        · cases hr''
          exact hstate
        · next hne =>
          exact absurd (h.edge_unique hr hr'' (by rw [hcomponent, heq, hsame])) hne
    · rw [if_neg heq, h.hidden i hi]
      constructor
      · rintro ⟨f, r'', hr'', hcomponent, hstate⟩
        refine ⟨f, r'', ?_, hcomponent, hstate⟩
        rw [Border.get_set, if_neg]
        · exact hr''
        · rintro rfl
          rw [hr, Option.some.injEq] at hr''
          subst hr''
          exact heq (hcomponent.symm.trans hsame.symm)
      · rintro ⟨f, r'', hr'', hcomponent, hstate⟩
        rw [Border.get_set] at hr''
        split at hr''
        · cases hr''
          exact absurd hcomponent.symm heq
        · exact ⟨f, r'', hr'', hcomponent, hstate⟩

end Border.Sound

namespace Scene

variable {s t : Scene} {c d : ComponentId} {b : Border} {slots : List Border.Slot} {e : Edge}
  {r : Region}

/-! ## Picking up regions -/

theorem collapsed_of_holder (h : s.slots d = .ok slots) {name : RegionName} {slot : Border.Slot}
    (hslot : Border.holder slots name = some slot) {config : ItemConfig}
    (hconfig : s.tree.config? slot.id = some config) : config.collapsed = slot.collapsed := by
  obtain ⟨id, -, hread⟩ := Length.exists_of_mem_mapM h (Border.region_of_holder hslot).1
  obtain ⟨d, hd, hread⟩ := Length.bind_eq_ok.1 hread
  cases hread
  rw [Tree.config?, Tree.get_eq_ok.1 hd] at hconfig
  cases hconfig
  rfl

/-- A region stays as long as its component is the child configured for it. -/
theorem get_sync_of_held (hslots : s.slots d = .ok slots) (hr : b.get e = some r)
    (hholder : s.tree.holder d e.region = some r.component) :
    (b.sync slots).get e = some r ∧ Border.newlyHidden slots (b.get e) e.region = none := by
  rw [← id_holder hslots] at hholder
  obtain ⟨slot, hslot, hid⟩ := Option.map_eq_some_iff.1 hholder
  rw [Border.get_sync]
  unfold Border.regionAt Border.newlyHidden
  simp [hslot, hid, hr]

theorem get_sync_of_unknown (hr : b.get e = none) : (b.sync slots).get e =
    (Border.holder slots e.region).map fun slot => .fresh e.region slot.id slot.collapsed := by
  rw [Border.get_sync]
  unfold Border.regionAt
  cases Border.holder slots e.region <;> simp [hr]

/-- What picking up hides are the components of regions that it picks up collapsed. -/
theorem mem_hiddenBySync (hslots : s.slots d = .ok slots)
    (hheld : ∀ e r, b.get e = some r → s.tree.holder d e.region = some r.component)
    {i : ComponentId} : i ∈ b.hiddenBySync slots ↔ ∃ e r, b.get e = none ∧
      (b.sync slots).get e = some r ∧ r.component = i ∧ r.state = .collapsed := by
  have hnew : ∀ {e}, b.get e = none → (Border.newlyHidden slots (b.get e) e.region = some i ↔
      ∃ r, (b.sync slots).get e = some r ∧ r.component = i ∧ r.state = .collapsed) := by
    intro e hr
    rw [get_sync_of_unknown hr]
    unfold Border.newlyHidden
    cases Border.holder slots e.region with
    | none => simp
    | some slot => cases hcollapsed : slot.collapsed <;> simp [hr, hcollapsed, Region.fresh]
  unfold Border.hiddenBySync
  rw [List.mem_filterMap]
  constructor
  · rintro ⟨e, -, he⟩
    cases hr : b.get e with
    | none =>
      obtain ⟨r, hsync⟩ := (hnew hr).1 he
      exact ⟨e, r, hr, hsync⟩
    | some r =>
      rw [(get_sync_of_held hslots hr (hheld e r hr)).2] at he
      cases he
  · rintro ⟨e, r, hr, hsync⟩
    exact ⟨e, e.mem_all, (hnew hr).2 ⟨r, hsync⟩⟩

theorem sound_sync (hlinked : s.tree.Linked) (h : b.Sound s.tree d)
    (hslots : s.slots d = .ok slots) :
    (b.sync slots).Sound
      ((b.hiddenBySync slots).foldl (fun t id => t.setHidden id true) s.tree) d := by
  have hshape := s.tree.sameShape_setHiddens (b.hiddenBySync slots) true
  have hholder := Tree.holder_congr (congrFun hshape.children_eq.symm d) hshape.config?_eq.symm
  refine ⟨fun e r hr => ?_, fun i hi => ?_⟩
  · cases hknown : b.get e with
    | some r' =>
      rw [(get_sync_of_held hslots hknown (h.region e r' hknown).holds).1, Option.some.injEq] at hr
      subst hr
      exact (h.region e r' hknown).of_bare rfl hholder hshape.config?_eq.symm
    | none =>
      rw [get_sync_of_unknown hknown] at hr
      obtain ⟨slot, hslot, rfl⟩ := Option.map_eq_some_iff.1 hr
      have hholds := id_holder hslots e.region
      rw [hslot] at hholds
      refine Region.sound_fresh (by rw [hholder, ← hholds]; rfl) fun config hconfig => ?_
      rw [← hshape.config?_eq] at hconfig
      exact collapsed_of_holder hslots hslot hconfig
  · have hchild : i ∈ s.tree.children d := by rwa [hshape.children_eq]
    have hflag :
        ((b.hiddenBySync slots).foldl (fun t id => t.setHidden id true) s.tree).isHidden i = true ↔
          i ∈ b.hiddenBySync slots ∨ s.tree.isHidden i = true := by
      rw [(hshape.linked hlinked).isHidden_child hi, isVisible_hide, hlinked.isHidden_child hchild]
      simp [or_comm]
    rw [hflag, mem_hiddenBySync hslots (fun e r hr => (h.region e r hr).holds),
      h.hidden i hchild]
    constructor
    · rintro (⟨e, r, -, hsync⟩ | ⟨e, r, hr, hsync⟩)
      · exact ⟨e, r, hsync⟩
      · exact ⟨e, r, (get_sync_of_held hslots hr (h.region e r hr).holds).1, hsync⟩
    · rintro ⟨e, r, hr, hsync⟩
      cases hknown : b.get e with
      | none => exact .inl ⟨e, r, hknown, hr, hsync⟩
      | some r' =>
        rw [(get_sync_of_held hslots hknown (h.region e r' hknown).holds).1] at hr
        exact .inr ⟨e, r, hknown.trans hr, hsync⟩

end Scene

end Trellis
