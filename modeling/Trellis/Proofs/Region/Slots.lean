import Trellis.Proofs.Passes.Levels
import Trellis.Proofs.Region.Refusals

/-!
# Who is at which edge

A pass over a border container looks for the child that is configured for each edge. If there is
one, it is at that edge afterwards. If there is none, the region that was known there stays as long
as its component is a child of the container, whatever the component is configured for by then. So
a child that gets other settings may stay at its former edge, besides being the center or at another
one.

* `Registers`: the regions that are known have the names of their edges, and their components are
  there; `registers_after`: they always are.
* `Tree.occupant`: the component that a pass leaves at an edge; `PickedUp`: the pass has left it
  there.
* `slots_assigned_iff`: when every component is where it is configured to be.
-/
namespace Trellis

namespace Tree

variable {t u : Tree} {c : ComponentId}

/-- The component that is at an edge after picking up regions, when `known` was there: the child
configured for the edge, and if there is none the known one as long as it is a child. -/
def occupant (t : Tree) (c : ComponentId) (name : RegionName) (known : Option ComponentId) :
    Option ComponentId :=
  (t.holder c name).or (known.filter (t.children c).contains)

theorem occupant_again (t : Tree) (c : ComponentId) (name : RegionName)
    (known : Option ComponentId) :
    t.occupant c name (t.occupant c name known) = t.occupant c name known := by
  unfold occupant
  cases t.holder c name with
  | some i => rfl
  | none => simp only [Option.none_or, Option.filter_filter, Bool.and_self]

theorem SameShape.occupant_eq (h : t.SameShape u) : u.occupant c = t.occupant c := by
  funext name known
  unfold occupant
  rw [holder_congr (congrFun h.children_eq c) h.config?_eq, h.children_eq]

end Tree

/-- The component of the region at an edge. -/
def Border.componentAt (b : Border) (e : Edge) : Option ComponentId :=
  (b.get e).map Region.component

/-- The regions have the names of their edges, and their components are there. -/
def Border.Listed (t : Tree) (b : Border) : Prop :=
  ∀ e r, b.get e = some r → r.name = e.region ∧ (t.get? r.component).isSome

/-- Every component of a region is configured for that region, and has no other place. -/
structure Border.Assigned (t : Tree) (b : Border) : Prop where
  configured : ∀ e r, b.get e = some r →
    r.name = e.region ∧ (t.config? r.component).bind ItemConfig.region = some r.name
  distinct : ∀ e f r q, b.get e = some r → b.get f = some q → r.component = q.component → e = f
  center : ∀ e r, b.get e = some r → b.center ≠ some r.component

namespace Border

variable {t u : Tree} {b b' : Border}

theorem componentAt_of_bare (hbare : ∀ e, (b'.get e).map Region.bare = (b.get e).map Region.bare)
    (e : Edge) : b'.componentAt e = b.componentAt e := by
  have he := congrArg (Option.map Region.component) (hbare e)
  rwa [Option.map_map, Option.map_map] at he

namespace Listed

theorem mono (h : b.Listed t) (htree : ∀ i, (t.get? i).isSome → (u.get? i).isSome) :
    b.Listed u := by
  intro e r hr
  exact ⟨(h e r hr).1, htree _ (h e r hr).2⟩

theorem of_bare (h : b.Listed t)
    (hbare : ∀ e, (b'.get e).map Region.bare = (b.get e).map Region.bare) : b'.Listed t := by
  intro e r' hr'
  obtain ⟨r, hr, heq⟩ := get_of_bare hbare hr'
  obtain ⟨hname, hcomponent, -⟩ := Region.bare_eq_iff.1 heq
  rw [hname, hcomponent]
  exact h e r hr

theorem set {e : Edge} {r : Region} (h : b.Listed t) (hname : r.name = e.region)
    (hthere : (t.get? r.component).isSome) : (b.set e (some r)).Listed t := by
  intro f q hq
  rw [get_set] at hq
  split at hq
  · next heq =>
    cases hq
    exact ⟨by rw [hname, heq], hthere⟩
  · exact h f q hq

end Listed

end Border

theorem Region.Changes.name_eq {r r' : Region} {config : Option ItemConfig}
    {bounds : Option SplitBounds} {call : RegionCall} {shows lays : Bool}
    (h : r.Changes config bounds call r' shows lays) : r'.name = r.name := by
  cases h <;> rfl

namespace Scene

variable {s₀ s s' t u : Scene} {c d : ComponentId} {b : Border} {slots : List Border.Slot}
  {layout : LayoutConfig} {r : Except LayoutError Unit}

/-- Picking up leaves the occupants at their edges. -/
theorem componentAt_sync (hslots : s.slots c = .ok slots) (b : Border) (e : Edge) :
    (b.sync slots).componentAt e = s.tree.occupant c e.region (b.componentAt e) := by
  unfold Border.componentAt Tree.occupant
  rw [Border.get_sync, ← id_holder hslots, ← ids_slots hslots]
  unfold Border.regionAt
  cases Border.holder slots e.region with
  | some slot =>
    cases hknown : b.get e with
    | none => rfl
    | some q =>
      by_cases hsame : q.component = slot.id
      · simp [hsame]
      · simp [hsame, Region.fresh]
  | none =>
    cases hknown : b.get e with
    | none => rfl
    | some q => simp only [Option.filter_some, Option.map_some, Option.map_none, Option.none_or,
        apply_ite (Option.map Region.component)]

theorem listed_sync (hslots : s.slots c = .ok slots) (hb : b.Listed s.tree) :
    (b.sync slots).Listed s.tree := by
  intro e q hq
  rw [Border.get_sync] at hq
  unfold Border.regionAt at hq
  cases hslot : Border.holder slots e.region with
  | none =>
    rw [hslot] at hq
    exact hb e q (Option.filter_eq_some_iff.1 hq).1
  | some slot =>
    obtain ⟨-, x, hx, -⟩ := of_mem_slots hslots (Border.region_of_holder hslot).1
    have hfresh : ∀ collapsed, Region.fresh e.region slot.id collapsed = q →
        q.name = e.region ∧ (s.tree.get? q.component).isSome := by
      rintro collapsed rfl
      exact ⟨rfl, Option.isSome_of_eq_some hx⟩
    rw [hslot] at hq
    cases hknown : b.get e with
    | none =>
      rw [hknown] at hq
      exact hfresh _ (Option.some.inj hq)
    | some known =>
      rw [hknown] at hq
      dsimp only at hq
      split at hq
      · exact hb e q (hknown.trans hq)
      · exact hfresh _ (Option.some.inj hq)

/-! ## Known regions -/

/-- The container has a border layout, and its known regions are listed. -/
structure Registers (c : ComponentId) (s : Scene) : Prop where
  linked : s.tree.Linked
  bordered : s.Bordered c
  listed : (s.regions c).Listed s.tree

namespace Registers

theorem of_shape (h : Registers c s) (hshape : s.tree.SameShape t.tree)
    (hlisted : (t.regions c).Listed s.tree) : Registers c t := by
  refine ⟨hshape.linked h.linked, (bordered_congr hshape).1 h.bordered, hlisted.mono fun i hi => ?_⟩
  rwa [← hshape.isSome_eq]

theorem evolves (h : Registers c s) (hevolves : Evolves s t) : Registers c t := by
  have hother : ∀ {d}, d ≠ c → (∀ i, i ≠ d → t.kept.get? i = s.kept.get? i) →
      (t.regions c).Listed s.tree := by
    intro d hne hkept
    rw [regions_congr (hkept c hne.symm)]
    exact h.listed
  refine h.of_shape hevolves.shape ?_
  cases hevolves with
  | rests _ regions =>
    rw [regions]
    exact h.listed
  | elsewhere other agree =>
    refine hother ?_ fun i hi => (agree.kept i hi).symm
    rintro rfl
    exact other h.bordered
  | @syncs d slots _ found kept =>
    by_cases heq : d = c
    · subst heq
      rw [regions_eq (by rw [kept, if_pos rfl])]
      exact listed_sync found h.listed
    · exact hother heq fun i hi => by rw [kept, if_neg hi]
  | @places d _ after _ _ laid =>
    by_cases heq : d = c
    · subst heq
      obtain ⟨center, content, -, -, hplace⟩ := laid.laid
      rw [regions_eq (by rw [laid.kept, IdMap.get?_insert, if_pos rfl])]
      exact h.listed.of_bare (Border.bare_place hplace)
    · exact hother heq fun i hi => by rw [laid.kept, IdMap.get?_insert, if_neg hi]

theorem changed {e : Edge} {q q' : Region} {config : Option ItemConfig}
    {bounds : Option SplitBounds} {call : RegionCall} {shows lays : Bool} (h : Registers c s)
    (hb : s.kept.get? d = some (.border b)) (hq : b.get e = some q)
    (hchanges : q.Changes config bounds call q' shows lays) :
    Registers c (s.changed d b e q' shows) := by
  refine h.of_shape (s.agree_changed d b e q' shows).toSameShape ?_
  by_cases heq : d = c
  · subst heq
    have hlisted := h.listed
    rw [regions_eq hb] at hlisted
    rw [regions_changed]
    refine hlisted.set ?_ ?_
    · rw [hchanges.name_eq]
      exact (hlisted e q hq).1
    · rw [hchanges.component_eq]
      exact (hlisted e q hq).2
  · have hsame : (s.changed d b e q' shows).regions c = s.regions c :=
      regions_congr (by rw [kept_changed, if_neg (Ne.symm heq)])
    rw [hsame]
    exact h.listed

theorem robust (c : ComponentId) : Robust (Registers c) :=
  ⟨linked, evolves, fun h _ hb hq hchanges => h.changed hb hq hchanges⟩

/-- What leaves the settings of the container alone, and all components where they are known. -/
theorem of_tree (h : Registers c s) (hlinked : t.tree.Linked) (hkept : t.kept = s.kept)
    (hlayout : t.tree.layout? c = s.tree.layout? c)
    (hthere : ∀ i, (s.tree.get? i).isSome → (t.tree.get? i).isSome) : Registers c t := by
  refine ⟨hlinked, ?_, ?_⟩
  · obtain ⟨layout, hlayoutOf, hborder⟩ := h.bordered
    rw [Tree.layout?_of_layoutOf hlayoutOf] at hlayout
    exact ⟨layout, Tree.layoutOf_of_layout? hlayout, hborder⟩
  · have hsame : t.regions c = s.regions c := regions_congr (by rw [hkept])
    rw [hsame]
    exact h.listed.mono hthere

theorem move (h : Registers c s) {m : TreeMove} (hstays : ∀ item, m ≠ .configure c item)
    (hrun : s.run m.step = .ok (r, s')) : Registers c s' := by
  have hlinked := linked_move h.linked hrun
  have hrearranged : ∀ {u : Tree}, s.tree.Rearranged u → s'.tree = u → s'.kept = s.kept →
      Registers c s' := by
    rintro u hu rfl hkept
    refine h.of_tree hlinked hkept (congrFun (Tree.layout?_congr hu.config?_eq.symm) c) ?_
    intro i hi
    have hsame := hu.eq_at (g := Option.isSome) (by rintro (_ | _) <;> rfl) i
    rwa [← hsame]
  cases m with
  | append parent child =>
    obtain ⟨u, hu, rfl⟩ := run_edit_eq_ok hrun
    obtain ⟨-, -, rfl⟩ := Tree.appendChild_eq_ok hu
    exact hrearranged (Tree.rearranged_attach s.tree parent child) rfl rfl
  | remove parent child =>
    obtain ⟨u, hu, rfl⟩ := run_edit_eq_ok hrun
    obtain rfl := Tree.removeChild_eq_ok hu
    exact hrearranged (Tree.rearranged_detach s.tree parent child) rfl rfl
  | hide id hidden =>
    cases hrun
    exact h.of_shape (s.tree.sameShape_setHiddens [id] hidden) h.listed
  | create item =>
    cases hrun
    obtain ⟨layout, hlayout, -⟩ := h.bordered
    obtain ⟨x, hx⟩ := Tree.exists_get?_of_lt (Tree.lt_size_of_layoutOf hlayout)
    refine h.of_tree hlinked rfl ?_ fun i hi => ?_
    · show ((s.tree.alloc item).get? c).bind _ = (s.tree.get? c).bind _
      rw [Tree.get?_alloc_of_isSome s.tree item (Option.isSome_of_eq_some hx)]
    · show ((s.tree.alloc item).get? i).isSome
      rwa [Tree.get?_alloc_of_isSome s.tree item hi]
  | configure id item =>
    cases hrun
    have hne : id ≠ c := by
      rintro rfl
      exact hstays item rfl
    refine h.of_tree hlinked rfl ?_ fun i hi => ?_
    · simp only [Tree.layout?, Tree.get?_modify, if_neg hne]
    · simp only [Tree.get?_modify]
      split
      · rwa [Option.isSome_map]
      · exact hi

end Registers

/-- Whatever happens to a border container, its known regions are listed. -/
theorem registers_after {turns : List RegionTurn} (hlinked : s₀.tree.Linked)
    (hc : s₀.Bordered c) (hfresh : s₀.kept.get? c = none)
    (hstays : ∀ item, .move (.configure c item) ∉ turns)
    (hturns : s₀.after (turns.map RegionTurn.step) = .ok s) : Registers c s := by
  have hstart : Registers c s₀ := by
    refine ⟨hlinked, hc, fun e q hq => ?_⟩
    rw [regions, hfresh] at hq
    cases e <;> cases hq
  refine after_preserves (fun x hx s s' r h hrun => ?_) hstart hturns
  obtain ⟨turn, hturn, rfl⟩ := List.mem_map.1 hx
  by_cases hmoves : ∃ m, turn = .move m
  · obtain ⟨m, rfl⟩ := hmoves
    refine h.move (fun item heq => ?_) hrun
    exact hstays item (heq ▸ hturn)
  · exact (Registers.robust c).of_turn (fun m heq => hmoves ⟨m, heq⟩) h hrun

/-! ## What a pass leaves at the edges -/

/-- The regions of the container have been picked up since `s`. -/
structure PickedUp (c : ComponentId) (s t : Scene) : Prop where
  shape : s.tree.SameShape t.tree
  component : ∀ e, (t.regions c).componentAt e =
    s.tree.occupant c e.region ((s.regions c).componentAt e)
  center : ∀ i, (t.regions c).center = some i → s.tree.holder c .center = some i

/-- Picking up the regions that were known in `s`, or those that have been picked up since. -/
theorem pickedUp_sync (hshape : s.tree.SameShape t.tree) (hslots : t.slots c = .ok slots)
    (htree : t.tree.SameShape u.tree) (hregions : u.regions c = b.sync slots)
    (hb : ∀ e, s.tree.occupant c e.region (b.componentAt e) =
      s.tree.occupant c e.region ((s.regions c).componentAt e)) : PickedUp c s u := by
  refine ⟨hshape.trans htree, fun e => ?_, fun i hi => ?_⟩
  · rw [hregions, componentAt_sync hslots, hshape.occupant_eq, hb]
  · rw [hregions] at hi
    rw [← holder_eq hshape]
    exact holder_center hslots hi

theorem PickedUp.evolves (h : PickedUp c s t) (hc : s.Bordered c) (hevolves : Evolves t u) :
    PickedUp c s u := by
  have hshape := hevolves.shape
  have hsame : u.regions c = t.regions c → PickedUp c s u := by
    intro hregions
    refine ⟨h.shape.trans hshape, ?_, ?_⟩ <;> rw [hregions]
    · exact h.component
    · exact h.center
  cases hevolves with
  | rests _ regions => exact hsame (regions c)
  | @elsewhere d other agree =>
    refine hsame (regions_congr (agree.kept c ?_).symm)
    rintro rfl
    exact other ((bordered_congr h.shape).1 hc)
  | @syncs d slots _ found kept =>
    by_cases heq : d = c
    · subst heq
      refine pickedUp_sync h.shape found hshape (regions_eq (by rw [kept, if_pos rfl])) fun e => ?_
      rw [h.component, Tree.occupant_again]
    · exact hsame (regions_congr (by rw [kept, if_neg (Ne.symm heq)]))
  | @places d _ after _ _ laid =>
    by_cases heq : d = c
    · subst heq
      obtain ⟨center, content, -, -, hplace⟩ := laid.laid
      have hregions : u.regions d = after :=
        regions_eq (by rw [laid.kept, IdMap.get?_insert, if_pos rfl])
      refine ⟨h.shape.trans hshape, fun e => ?_, fun i hi => ?_⟩
      · rw [hregions, Border.componentAt_of_bare (Border.bare_place hplace), h.component]
      · rw [hregions, Border.center_place hplace] at hi
        exact h.center i hi
    · exact hsame (regions_congr (by rw [laid.kept, IdMap.get?_insert, if_neg (Ne.symm heq)]))

/-- Passes over any containers leave the regions as they have been picked up. -/
theorem preserved_pickedUp (hlinked : s.tree.Linked) (hc : s.Bordered c) :
    Preserved (fun _ => True) (PickedUp c s) :=
  preserved_of_evolves (fun h => h.shape.linked hlinked) fun h => h.evolves hc

theorem Opens.pickedUp (h : s.Opens layout c r t) (hborder : layout.kind = .border) :
    PickedUp c s t := by
  have hbegun := (undisturbed_begun s layout c).shape
  have harranged := h.arranged
  rw [arrangement_of_border hborder] at harranged
  obtain ⟨slots, mid, hslots, hsyncs, hcases⟩ := run_arrangeBorder_eq_ok harranged
  have hregions : mid.regions c = (s.regions c).sync slots :=
    regions_eq (by rw [hsyncs.kept, IdMap.get?_insert, if_pos rfl])
  have hmid : PickedUp c s mid := by
    refine pickedUp_sync hbegun hslots ?_ hregions fun _ => rfl
    rw [hsyncs.tree]
    exact Tree.sameShape_setHiddens ..
  obtain ⟨-, -, rfl⟩ | ⟨-, after, placements, hlaid⟩ := hcases
  · exact hmid
  · have hc : s.Bordered c := ⟨layout, h.layout_eq, hborder⟩
    rw [← hregions] at hlaid
    exact hmid.evolves hc (.places ((bordered_congr hmid.shape).1 hc) hlaid)

theorem pickedUp_of_layout (hlinked : s.tree.Linked) (hc : s.Bordered c)
    (hheard : s.host.vetoed c .beforeLayout = false)
    (hrun : s.run (Step.layout c) = .ok (r, s')) : PickedUp c s s' := by
  obtain ⟨layout, hlayout, hborder⟩ := hc
  have hopened : ∀ {layout' x laid}, (s.relieved c).Opens layout' c x laid → PickedUp c s laid := by
    intro layout' x laid hopens
    have hsame := hopens.layout_eq
    rw [show (s.relieved c).tree = s.tree from rfl, hlayout] at hsame
    cases hsame
    obtain ⟨hshape, hcomponent, hcenter⟩ := hopens.pickedUp hborder
    exact ⟨hshape, hcomponent, hcenter⟩
  have hbelow := preserved_pickedUp hlinked ⟨layout, hlayout, hborder⟩
  obtain ⟨n, hn⟩ := Nat.exists_eq_add_one_of_ne_zero
    (Nat.ne_zero_of_lt (Tree.lt_size_of_layoutOf hlayout))
  rw [run_layout, run_pass, show (s.relieved c).tree.size = n + 1 from hn] at hrun
  cases level_of_run hrun with
  | unknown herror =>
    rw [show (s.relieved c).tree = s.tree from rfl, hlayout] at herror
    cases herror
  | vetoed _ hvetoed => exact absurd (hheard.symm.trans hvetoed) nofun
  | refused hopens => exact hopened hopens
  | stopped hopens hchildren =>
    exact hbelow.of_forM (fun _ _ => trivial) (hopened hopens) hchildren
  | finished hopens hchildren =>
    exact hbelow.silent (silent_told ..)
      (hbelow.of_forM (fun _ _ => trivial) (hopened hopens) hchildren)

/-- Every component is where it is configured to be if the children configured for the edges are
the occupants. -/
theorem PickedUp.assigned_iff (h : PickedUp c s t) (hlisted : (t.regions c).Listed t.tree) :
    (t.regions c).Assigned t.tree ↔ ∀ e q, (s.regions c).get e = some q →
      q.component ∈ s.tree.children c → (s.tree.holder c e.region).isSome := by
  have hconfig := h.shape.config?_eq
  constructor
  · intro hassigned e q hq hmem
    have hoccupant := h.component e
    cases hholder : s.tree.holder c e.region with
    | some i => rfl
    | none =>
      -- the component that has stayed is configured for the edge itself
      rw [Tree.occupant, hholder, Border.componentAt, Border.componentAt, hq] at hoccupant
      simp only [Option.map_some, Option.filter_some, List.contains_iff_mem, hmem, if_true,
        Option.none_or, Option.map_eq_some_iff] at hoccupant
      obtain ⟨q', hq', hcomponent⟩ := hoccupant
      obtain ⟨hname, hregion⟩ := hassigned.configured e q' hq'
      rw [hcomponent, ← hconfig, hname] at hregion
      have hnone := List.find?_eq_none.1 hholder q.component hmem
      rw [hregion] at hnone
      simp at hnone
  · intro hheld
    have hholder : ∀ e q, (t.regions c).get e = some q →
        s.tree.holder c e.region = some q.component := by
      intro e q hq
      have hoccupant := h.component e
      rw [Border.componentAt, hq, Tree.occupant] at hoccupant
      cases hholder : s.tree.holder c e.region with
      | some i =>
        rw [hholder] at hoccupant
        exact hoccupant.symm
      | none =>
        rw [hholder] at hoccupant
        obtain ⟨hknown, hmem⟩ := Option.filter_eq_some_iff.1 hoccupant.symm
        obtain ⟨known, hget, hcomponent⟩ := Option.map_eq_some_iff.1 hknown
        have hsome := hheld e known hget (by simpa [hcomponent] using hmem)
        rw [hholder] at hsome
        cases hsome
    refine ⟨fun e q hq => ?_, fun e f q q' hq hq' hsame => ?_, fun e q hq hcenter => ?_⟩
    · have hname := (hlisted e q hq).1
      refine ⟨hname, ?_⟩
      rw [← hconfig, hname]
      exact (Tree.mem_of_holder (hholder e q hq)).2
    · have hother := hholder f q' hq'
      rw [← hsame] at hother
      exact Edge.region_injective (Tree.holder_injective (hholder e q hq) hother)
    · have hregion := Tree.holder_injective (hholder e q hq) (h.center _ hcenter)
      cases e <;> cases hregion

end Scene

/-- A pass over a border container picks up its regions, whatever has happened before. It leaves at
each edge the child configured for that edge; if there is none, the component that was known there,
as long as it is a child. So every region has a component of its own that is configured for it, and
not the center, exactly if each edge at which a child was known has a child configured for it. -/
theorem slots_assigned_iff {s₀ s s' : Scene} {c : ComponentId} {turns : List RegionTurn}
    {x : Except LayoutError Unit} (hlinked : s₀.tree.Linked) (hc : s₀.Bordered c)
    (hfresh : s₀.kept.get? c = none) (hstays : ∀ item, .move (.configure c item) ∉ turns)
    (hturns : s₀.after (turns.map RegionTurn.step) = .ok s)
    (hheard : s.host.vetoed c .beforeLayout = false)
    (hrun : s.run (Step.layout c) = .ok (x, s')) :
    (∀ e, (s'.regions c).componentAt e =
      s.tree.occupant c e.region ((s.regions c).componentAt e)) ∧
    ((s'.regions c).Assigned s'.tree ↔ ∀ e r, (s.regions c).get e = some r →
      r.component ∈ s.tree.children c → (s.tree.holder c e.region).isSome) := by
  have hs := Scene.registers_after hlinked hc hfresh hstays hturns
  have hpicked := Scene.pickedUp_of_layout hs.linked hs.bordered hheard hrun
  have hafter := (Scene.Registers.robust c).preserved.of_layout trivial hs hrun
  exact ⟨hpicked.component, hpicked.assigned_iff hafter.listed⟩

section

/-- A page with a pane on its left. -/
private def leftPanePage : Scene :=
  .ofTree (.ofDescription (.node { layout := some { kind := .border } }
    [.node { region := some .west, width := some 40 } [],
      .node { region := some .center } []])) .standard

/-- The page is laid out, and the pane is to go to the right. -/
private def paneGoesRight : List RegionTurn :=
  [.resize 0 ⟨0, 0, 200, 100⟩, .layout 0,
    .move (.configure 1 { region := some .east, width := some 40 })]

/-- The pane goes to the right and stays on the left. -/
theorem moved_pane_has_two_slots :
    ∃ s s', leftPanePage.after (paneGoesRight.map RegionTurn.step) = .ok s ∧
      s.run (Step.layout 0) = .ok (.ok (), s') ∧ (s'.regions 0).componentAt .west = some 1 ∧
      (s'.regions 0).componentAt .east = some 1 ∧ ¬ (s'.regions 0).Assigned s'.tree := by
  obtain ⟨s, x, s', hturns, hrun, hview⟩ := Scene.runs_of_viewLast
    (show leftPanePage.viewLast (paneGoesRight.map RegionTurn.step) (Step.layout 0)
        (fun mid x _ => (x, mid.host.vetoed 0 .beforeLayout, mid.tree.children 0,
          [mid.tree.holder 0 .west, mid.tree.holder 0 .east, (mid.regions 0).componentAt .west])) =
      some (.ok (), false, [1, 2], [none, some 1, some 1]) by decide +kernel)
  simp only [Prod.mk.injEq, List.cons.injEq] at hview
  obtain ⟨rfl, hheard, hchildren, hwest, heast, hknown, -⟩ := hview
  obtain ⟨hcomponents, hassigned⟩ := slots_assigned_iff (Tree.nested_ofDescription _).linked
    ⟨_, rfl, rfl⟩ rfl (by simp [paneGoesRight]) hturns hheard hrun
  refine ⟨s, s', hturns, hrun, ?_, ?_, fun h => ?_⟩
  · rw [hcomponents, hknown, Tree.occupant, Edge.region, hwest, hchildren]
    rfl
  · rw [hcomponents, Tree.occupant, Edge.region, heast]
    rfl
  · obtain ⟨r, hr, hcomponent⟩ := Option.map_eq_some_iff.1 hknown
    have hsome := hassigned.1 h .west r hr (by rw [hcomponent, hchildren]; simp)
    rw [Edge.region, hwest] at hsome
    cases hsome

end

end Trellis
