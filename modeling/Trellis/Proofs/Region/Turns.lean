import Trellis.Proofs.Region.Evolution
import Trellis.Proofs.Region.States

/-!
# What happens to regions

A border layout starts with no region known. Containers are laid out and get other sizes, the host
measures and vetoes as it likes, and regions are called on. As long as all children stay, and
nothing but the regions hides them, the regions are as they should be at any time.

* `RegionTurn`: one thing that may happen.
* `Regulated`: the regions of a container are as they should be; `robust_regulated`: no layout and
  no call breaks that.
* `regions_stay_sound`: what follows for a scene in which nothing has been laid out yet.
-/
namespace Trellis

/-- What a client may change about a tree. -/
inductive TreeMove where
  /-- A component becomes the last child of another one. -/
  | append (parent child : ComponentId)
  | remove (parent child : ComponentId)
  | hide (id : ComponentId) (hidden : Bool)
  /-- A component is added that is not attached to any other. -/
  | create (item : ItemConfig)
  /-- A component gets other settings. -/
  | configure (id : ComponentId) (item : ItemConfig)

def TreeMove.step : TreeMove → Step Unit
  | .append parent child => Step.edit fun t => t.appendChild parent child
  | .remove parent child => Step.edit fun t => t.removeChild parent child
  | .hide id hidden => Step.modifyTree fun t => t.setHidden id hidden
  | .create item => Step.modifyTree fun t => t.alloc item
  | .configure id item => Step.modifyTree fun t => t.modify id fun c => { c with config := item }

/-- What may happen to containers with regions and to others. -/
inductive RegionTurn where
  | layout (d : ComponentId)
  | resize (d : ComponentId) (rect : Rect)
  /-- The host measures, offers sizes or vetoes differently. -/
  | host (h : Host)
  | call (d : ComponentId) (call : RegionCall)
  | outsideClick (d : ComponentId)
  | move (m : TreeMove)

def RegionTurn.step : RegionTurn → Step Unit
  | .layout d => Step.layout d
  | .resize d rect => Step.modifyTree fun t => t.applyRect d rect
  | .host h => modify fun s => { s with host := h }
  | .call d regionCall => regionCall.step d
  | .outsideClick d => do let _ ← Step.outsideClick d
  | .move m => m.step

namespace Scene

variable {s₀ s s' t mid : Scene} {c d : ComponentId} {layout : LayoutConfig} {b b' : Border}
  {e : Edge} {r' : Region} {r : Region}

/-- Turns that leave the tree to the layouts. -/
theorem Robust.of_turn {P : Scene → Prop} (h : Robust P) {turn : RegionTurn}
    {x : Except LayoutError Unit} (hstays : ∀ m, turn ≠ .move m) (hs : P s)
    (hrun : s.run turn.step = .ok (x, s')) : P s' := by
  cases turn with
  | layout d => exact h.preserved.of_layout trivial hs hrun
  | resize d rect =>
    cases hrun
    exact h.evolves hs (.rests (s.tree.sameShape_applyRect d rect) (fun _ => rfl)
      (s.tree.isVisible_applyRect ..))
  | host g =>
    cases hrun
    exact h.evolves hs (.rests (.refl s.tree) (fun _ => rfl) rfl)
  | call d call => exact h.of_does (does_step hrun) hs
  | outsideClick d =>
    obtain ⟨_, hrun, -⟩ := run_void_eq_ok hrun
    exact h.of_outsideClick hrun hs
  | move m => exact absurd rfl (hstays m)

/-- The regions of the container `c` are as they should be, and those of any other one are children
of it. The tree is that of `s₀`, but for what layouts write. -/
structure Regulated (s₀ : Scene) (c : ComponentId) (s : Scene) : Prop where
  shape : s₀.tree.SameShape s.tree
  held : ∀ d e r, s₀.Bordered d → (s.regions d).get e = some r → r.component ∈ s₀.tree.children d
  sound : (s.regions c).Sound s.tree c

namespace Regulated

/-- Something happens that concerns one container. -/
theorem of_change (h : Regulated s₀ c s) (d : ComponentId) (hshape : s.tree.SameShape t.tree)
    (hkept : ∀ i, i ≠ d → t.kept.get? i = s.kept.get? i)
    (hflags : d ≠ c → ∀ i ∈ s.tree.children c, t.tree.isHidden i = s.tree.isHidden i)
    (hheld : s₀.Bordered d → ∀ e r, (t.regions d).get e = some r →
      r.component ∈ s₀.tree.children d)
    (hsound : d = c → (t.regions c).Sound t.tree c) : Regulated s₀ c t := by
  refine ⟨h.shape.trans hshape, fun i e r hi hr => ?_, ?_⟩
  · by_cases heq : i = d
    · subst heq
      exact hheld hi e r hr
    · rw [regions_congr (hkept i heq)] at hr
      exact h.held i e r hi hr
  · by_cases heq : d = c
    · exact hsound heq
    · rw [regions_congr (hkept c (Ne.symm heq))]
      exact h.sound.of_bare hshape (hflags heq) fun _ => rfl

variable (hlinked : s₀.tree.Linked)

include hlinked

/-- Nothing that happens to regions breaks that. -/
theorem evolves (h : Regulated s₀ c s) (hc : s₀.Bordered c) (hevolves : Evolves s t) :
    Regulated s₀ c t := by
  have hshape := hevolves.shape
  have hs := h.shape.linked hlinked
  cases hevolves with
  | rests _ regions shown =>
    have hflags : ∀ i, t.tree.isHidden i = s.tree.isHidden i := fun i =>
      (hshape.isHidden_eq (by rw [shown])).symm
    refine ⟨h.shape.trans hshape, fun i e r hi hr => ?_, ?_⟩
    · rw [regions] at hr
      exact h.held i e r hi hr
    · rw [regions]
      exact h.sound.of_bare hshape (fun i _ => hflags i) fun _ => rfl
  | @elsewhere d other agree =>
    rw [← bordered_congr h.shape] at other
    have hne : d ≠ c := by
      rintro rfl
      exact other hc
    refine h.of_change d hshape (fun i hi => (agree.kept i hi).symm) (fun _ i hi => ?_)
      (fun hd => absurd hd other) fun heq => absurd heq hne
    exact (agree.tree.isHidden_eq fun hmem => hs.not_mem_children hmem hne hi).symm
  | @syncs d slots _ found kept tree =>
    have hregions : t.regions d = (s.regions d).sync slots :=
      regions_eq (by rw [kept, if_pos rfl])
    refine h.of_change d hshape (fun i hi => ?_) (fun hne i hi => ?_) (fun _ e r hr => ?_)
      fun heq => ?_
    · rw [kept, if_neg hi]
    · exact ((Evolves.agree_sync found tree).isHidden_eq
        fun hmem => hs.not_mem_children hmem hne hi).symm
    · rw [hregions] at hr
      have hmem := Border.sync_get_component hr
      rwa [ids_slots found, ← h.shape.children_eq] at hmem
    · subst heq
      rw [hregions, tree]
      exact sound_sync hs h.sound found
  | @places d _ after _ bordered laid =>
    obtain ⟨center, content, -, -, hplace⟩ := laid.laid
    have hregions : t.regions d = after :=
      regions_eq (by rw [laid.kept, IdMap.get?_insert, if_pos rfl])
    have hflags : ∀ i, t.tree.isHidden i = s.tree.isHidden i := fun i =>
      (hshape.isHidden_eq (by rw [laid.tree, Tree.isVisible_applyPlacements])).symm
    refine h.of_change d hshape (fun i hi => ?_) (fun _ i _ => hflags i) (fun hd e r hr => ?_)
      fun heq => ?_
    · rw [laid.kept, IdMap.get?_insert, if_neg hi]
    · rw [hregions] at hr
      obtain ⟨r', hr', hbare⟩ := Border.get_of_bare (Border.bare_place hplace) hr
      rw [(Region.bare_eq_iff.1 hbare).2.1]
      exact h.held d e r' hd hr'
    · subst heq
      rw [hregions]
      exact h.sound.of_bare hshape (fun i _ => hflags i) fun e => Border.bare_place hplace e

/-- A region changes as a call may change it. -/
theorem changed {bounds : Option SplitBounds} {call : RegionCall} {shows lays : Bool}
    (h : Regulated s₀ c s) (hd : s₀.Bordered d) (hb : s.kept.get? d = some (.border b))
    (hr : b.get e = some r)
    (hchanges : r.Changes (s.tree.config? r.component) bounds call r' shows lays) :
    Regulated s₀ c (s.changed d b e r' shows) := by
  have hs := h.shape.linked hlinked
  have hregions := regions_eq hb
  have hcomponent := hchanges.component_eq
  have hmem : r.component ∈ s.tree.children d := by
    rw [← h.shape.children_eq]
    exact h.held d e r hd (by rwa [hregions])
  have hagree := s.agree_changed d b e r' shows
  refine h.of_change d hagree.toSameShape (fun i hi => ?_) (fun hne i hi => ?_)
    (fun _ f r'' hr'' => ?_) fun heq => ?_
  · rw [kept_changed, if_neg hi]
  · refine (hagree.isHidden_eq ?_).symm
    rintro rfl
    rw [hcomponent] at hi
    exact hs.not_mem_children hmem hne hi
  · rw [regions_changed, Border.get_set] at hr''
    split at hr''
    · cases hr''
      rw [hcomponent, h.shape.children_eq]
      exact hmem
    · exact h.held d f r'' hd (by rwa [hregions])
  · subst heq
    have hsound := h.sound
    rw [hregions] at hsound
    rw [regions_changed]
    refine hsound.set hr (hchanges.sound (hsound.region e r hr)) hagree.toSameShape fun i hi => ?_
    by_cases heq : i = r'.component
    · rw [if_pos heq, heq]
      cases shows with
      | true =>
        obtain ⟨x, hx⟩ := hs.exists_child hmem
        rw [isHidden_changed (by rw [hcomponent, hx])]
        simp [Region.hidesComponent]
      | false =>
        rw [hcomponent, hchanges.state_eq]
        exact hsound.isHidden_component hr
    · rw [if_neg heq, hagree.isHidden_eq heq]

end Regulated

section

variable (hlinked : s₀.tree.Linked) (hc : s₀.Bordered c)

include hlinked hc

theorem robust_regulated : Robust (Regulated s₀ c) := by
  refine ⟨fun h => h.shape.linked hlinked, fun h => h.evolves hlinked hc, ?_⟩
  intro s d b e r r' bounds call shows lays h hd hb hr hchanges
  exact h.changed hlinked ((bordered_congr h.shape).2 hd) hb hr hchanges

theorem regulated_after {turns : List RegionTurn} (hfresh : ∀ d, s₀.kept.get? d = none)
    (hvisible : ∀ i ∈ s₀.tree.children c, s₀.tree.isVisible i = true)
    (hstay : ∀ m, .move m ∉ turns) (hturns : s₀.after (turns.map RegionTurn.step) = .ok s) :
    Regulated s₀ c s := by
  have hnone : ∀ d e, (s₀.regions d).get e = none := by
    intro d e
    rw [regions, hfresh]
    cases e <;> rfl
  have hstart : Regulated s₀ c s₀ := by
    refine ⟨.refl s₀.tree, fun d e r _ hr => ?_, fun e r hr => ?_, fun i hi => ?_⟩
    · rw [hnone] at hr
      cases hr
    · rw [hnone] at hr
      cases hr
    · simp [hlinked.isHidden_child hi, hvisible i hi, hnone]
  refine after_preserves (fun x hx s s' r h hrun => ?_) hstart hturns
  obtain ⟨turn, hturn, rfl⟩ := List.mem_map.1 hx
  refine (robust_regulated hlinked hc).of_turn ?_ h hrun
  rintro m rfl
  exact hstay m hturn

end

end Scene

/-- Regions go through their states as they should. Nothing has been laid out yet in `s₀`, and no
child of the border container `c` is hidden. Then containers are laid out, resized and called on in
any order, whatever the host vetoes and whatever is refused; no child comes or goes, and no client
hides one. Each region that is known of `c` at last is `Region.Sound`: it is the region of the child
configured for it, an animation that waits fits its state, its thickness is not negative, and what
can neither collapse nor start collapsed is expanded. Its component is hidden exactly if it is
collapsed. -/
theorem regions_stay_sound {s₀ s : Scene} {c : ComponentId} {turns : List RegionTurn} {e : Edge}
    {r : Region} (hlinked : s₀.tree.Linked) (hc : s₀.Bordered c)
    (hfresh : ∀ d, s₀.kept.get? d = none)
    (hvisible : ∀ i ∈ s₀.tree.children c, s₀.tree.isVisible i = true)
    (hstay : ∀ m, .move m ∉ turns) (hturns : s₀.after (turns.map RegionTurn.step) = .ok s)
    (hr : (s.regions c).get e = some r) :
    r.Sound s₀.tree c e ∧ r.name ≠ .center ∧
      (s.tree.isHidden r.component = true ↔ r.state = .collapsed) := by
  have h := Scene.regulated_after hlinked hc hfresh hvisible hstay hturns
  have hsound := (h.sound.region e r hr).of_bare rfl
    (Tree.holder_congr (congrFun h.shape.children_eq c) h.shape.config?_eq) h.shape.config?_eq
  refine ⟨hsound, ?_, h.sound.isHidden_component hr⟩
  rw [hsound.name]
  cases e <;> nofun

section

/-- A window with a side pane that can collapse, and the page beside it. -/
private def paneWindow : Scene :=
  .ofTree (.ofDescription (.node { layout := some { kind := .border } }
    [.node { region := some .west, width := some 40, collapsible := true } [],
      .node { region := some .center } []])) .standard

/-- The pane collapses with an animation, during which it cannot collapse again; it slides out, and
begins to expand. -/
private def paneTurns : List RegionTurn :=
  [.resize 0 ⟨0, 0, 200, 100⟩, .layout 0, .call 0 (.collapse .west true),
    .call 0 (.collapse .west false), .call 0 (.completeAnimation .west), .call 0 (.slideOut .west),
    .call 0 (.expand .west true)]

theorem side_pane_stays_sound :
    ∃ s r, paneWindow.after (paneTurns.map RegionTurn.step) = .ok s ∧
      (s.regions 0).get .west = some r ∧ r.state = .floating ∧ r.pending = some .expand ∧
      r.Sound paneWindow.tree 0 .west ∧ r.name ≠ .center ∧
      (s.tree.isHidden r.component = true ↔ r.state = .collapsed) := by
  obtain ⟨s, hs, hview⟩ := Scene.after_of_view
    (show (paneWindow.after (paneTurns.map RegionTurn.step)).toOption.map
        (fun s => ((s.regions 0).get .west).map fun r => (r.state, r.pending)) =
      some (some (.floating, some .expand)) by decide +kernel)
  obtain ⟨r, hr, hstate⟩ := Option.map_eq_some_iff.1 hview
  rw [Prod.mk.injEq] at hstate
  refine ⟨s, r, hs, hr, hstate.1, hstate.2, ?_⟩
  exact regions_stay_sound (Tree.nested_ofDescription _).linked ⟨_, rfl, rfl⟩ (fun _ => rfl)
    (by decide +kernel) (by simp [paneTurns]) hs hr

end

end Trellis
