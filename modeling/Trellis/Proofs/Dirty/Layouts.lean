import Trellis.Proofs.Dirty.Marks
import Trellis.Proofs.Passes.Levels

/-!
# What layouts write

A layout computes placements from what it finds, and writes them in one round or two. What else it
does to its children makes none of them dirty: it hides and shows them, and a form notes where their
labels are.

* `Draws`: the placements that a layout writes, in order, for each kind of layout.
* `draws_of_run`: every layout writes some; `Draws.mark?_eq`: and nothing else to rectangles.
-/
namespace Trellis

/-- The rectangle of a child of an anchor, absolute or form container, without its label's. -/
def Anchored.Placed.placement (p : Placed) : Placement := ⟨p.id, p.field⟩

namespace Scene

variable {s s' mid : Scene} {layout : LayoutConfig} {container : ComponentId} {a : Arrangement}
  {placements again : List Placement} {r : Except LayoutError Unit}

/-- The visible children are placed by `place` inside the content box. -/
structure PlacesBy (layout : LayoutConfig) (container : ComponentId)
    (place : Rect → List Framed → Checked (List Placement)) (s : Scene)
    (placements : List Placement) (s' : Scene) : Prop where
  computed : ∃ content framed, s.content layout container = .ok content ∧
    s.framed layout container = .ok framed ∧ place content framed = .ok placements
  places : s.Places s' placements

/-- One child fills the content box. -/
structure Fills (layout : LayoutConfig) (container child : ComponentId) (s : Scene)
    (placement : Placement) (s' : Scene) : Prop where
  computed : ∃ content m, s.content layout container = .ok content ∧ s.member child = .ok m ∧
    (Fill.place layout content m).run.value = .ok placement
  places : s.Places s' [placement]

/-- One round of an anchor, absolute or form layout, which leaves `b`. -/
def Rounds (layout : LayoutConfig) (container : ComponentId) (a : Anchored) (s : Scene)
    (placements : List Placement) (b : Anchored) (s' : Scene) : Prop :=
  ∃ content sized members placed, Anchors layout container a s s' content sized members b placed ∧
    placements = placed.map Anchored.Placed.placement

/-- The layout of `container`, for which `a` is kept, computes `placements` from what it finds in
`s`, and writes them in this order. -/
inductive Draws (layout : LayoutConfig) (container : ComponentId) :
    Arrangement → Scene → List Placement → Scene → Prop where
  | auto {s s' : Scene} {placements : List Placement}
    (placing : s.PlacesBy layout container (fun content => Stack.place content.x content.y)
      placements s') : Draws layout container .auto s placements s'
  | table {s s' : Scene} {placements : List Placement}
    (placing : s.PlacesBy layout container (fun content => Table.placeAll content layout.columns)
      placements s') : Draws layout container .table s placements s'
  | column {s mid s' : Scene} {placements again : List Placement}
    (first : s.PlacesBy layout container Columns.placeRow placements mid)
    (second : again = [] ∧ s' = mid ∨ mid.PlacesBy layout container Columns.placeRow again s') :
    Draws layout container .column s (placements ++ again) s'
  | nothing {s : Scene} (visible : s.tree.visibleChildren container = []) :
    Draws layout container .fit s [] s
  | fit {s s' : Scene} {child : ComponentId} {rest : List ComponentId} {placement : Placement}
    (visible : s.tree.visibleChildren container = child :: rest)
    (fills : s.Fills layout container child placement s') :
    Draws layout container .fit s [placement] s'
  | noCard {s : Scene} {active : Option ComponentId}
    (chosen : s.activeCard layout container active = none) :
    Draws layout container (.card active) s [] (s.dealt container none)
  | card {s s' : Scene} {active : Option ComponentId} {card : ComponentId} {placement : Placement}
    (chosen : s.activeCard layout container active = some card)
    (fills : (s.dealt container (some card)).Fills layout container card placement s') :
    Draws layout container (.card active) s [placement] s'
  | accordion {s s' : Scene} {active : Option ComponentId} {solution : Box.Solution}
    (solved : s.panelLine layout container (s.activePanel layout container active) = .ok solution)
    (tree : s'.tree = s.tree.applyPlacements (s.panelPlacements container solution)) :
    Draws layout container (.accordion active) s (s.panelPlacements container solution) s'
  | anchored {s mid s' : Scene} {a b : Anchored} {placements again : List Placement}
    (first : s.Rounds layout container a placements b mid)
    (second : again = [] ∧ s' = mid ∨ ∃ b', mid.Rounds layout container b again b' s') :
    Draws layout container (.anchored a) s (placements ++ again) s'
  | noCenter {s s' : Scene} {b : Border} {slots : List Border.Slot}
    (found : s.slots container = .ok slots) (syncs : Syncs container b slots s s')
    (missing : (b.sync slots).center = none) : Draws layout container (.border b) s [] s'
  | border {s mid s' : Scene} {b after : Border} {slots : List Border.Slot}
    {placements : List Placement}
    (found : s.slots container = .ok slots) (syncs : Syncs container b slots s mid)
    (lays : LaysRegions layout container (b.sync slots) after placements mid s') :
    Draws layout container (.border b) s placements s'
  | line {s s' : Scene} {l : Linear} {target : Size} {first : Box.Line Float}
    {placements : List Placement} (plain : l.overflow = none)
    (offered : s.host.targetSize s.tree container = .ok target)
    (solved : s.line layout l.axis container target = .ok first)
    (placed : Lines.place 0 first = .ok placements) (places : s.Places s' placements) :
    Draws layout container (.linear l) s placements s'
  | handled {s s' : Scene} {l : Linear} {handler next : Box.Handler} {target : Size}
    {first final : Box.Line Float} {outcome : Box.Outcome} {offset : Int}
    {placements : List Placement} (handles : l.overflow = some handler)
    (handled : Handles layout container l handler s s' target first next outcome offset final
      placements) : Draws layout container (.linear l) s placements s'

theorem placesBy_of_run {place : Rect → List Framed → Checked (List Placement)}
    (h : s.run (Step.placing layout container place) = .ok (r, s')) :
    ∃ placements, s.PlacesBy layout container place placements s' := by
  obtain ⟨content, framed, placements, hcontent, hframed, hplace, -, hplaces⟩ :=
    run_placing_eq_ok h
  exact ⟨placements, ⟨content, framed, hcontent, hframed, hplace⟩, hplaces⟩

theorem fills_of_run {child : ComponentId}
    (h : s.run (Fill.fill layout container child) = .ok (r, s')) :
    ∃ placement, s.Fills layout container child placement s' := by
  obtain ⟨content, m, placement, hcontent, hm, hplace, -, -, hplaces⟩ := run_fill_eq_ok h
  exact ⟨placement, ⟨content, m, hcontent, hm, hplace⟩, hplaces⟩

theorem rounds_of_run {a b : Anchored}
    (h : s.run (Anchored.pass layout container a) = .ok (.ok b, s')) :
    ∃ placements, s.Rounds layout container a placements b s' := by
  obtain ⟨content, sized, members, _, placed, hanchors, heq⟩ := run_anchoredPass_eq_ok h
  cases heq
  exact ⟨_, content, sized, members, placed, hanchors, rfl⟩

theorem draws_columns (h : s.run (Columns.arrange layout container) = .ok (r, s')) :
    ∃ placements, Draws layout container .column s placements s' := by
  obtain ⟨mid, hfirst, hrest⟩ := run_columns_rounds h
  obtain ⟨placements, hplacing⟩ := placesBy_of_run hfirst
  obtain ⟨-, rfl⟩ | hsecond := hrest
  · exact ⟨_, .column hplacing (.inl ⟨rfl, rfl⟩)⟩
  · obtain ⟨again, hagain⟩ := placesBy_of_run hsecond
    exact ⟨_, .column hplacing (.inr hagain)⟩

theorem draws_fit (h : s.run (Fill.arrange layout container) = .ok (r, s')) :
    ∃ placements, Draws layout container .fit s placements s' := by
  rw [run_fit] at h
  split at h
  · next hvisible =>
    cases h
    exact ⟨[], .nothing hvisible⟩
  · next hvisible =>
    obtain ⟨placement, hfills⟩ := fills_of_run h
    exact ⟨_, .fit hvisible hfills⟩

theorem draws_cards {active : Option ComponentId}
    (h : s.run (Fill.arrangeCards layout container active) = .ok (r, s')) :
    ∃ placements, Draws layout container (.card active) s placements s' := by
  rw [run_cards] at h
  split at h
  · next hcard =>
    obtain ⟨placement, hfills⟩ := fills_of_run h
    exact ⟨_, .card hcard hfills⟩
  · next hcard =>
    cases h
    exact ⟨[], .noCard hcard⟩

theorem draws_anchored {a : Anchored} (h : s.run (a.arrange layout container) = .ok (r, s')) :
    ∃ placements, Draws layout container (.anchored a) s placements s' := by
  obtain ⟨-, b, mid, hfirst, hrest⟩ := run_anchored_rounds h
  obtain ⟨placements, hround⟩ := rounds_of_run hfirst
  obtain rfl | ⟨b', hsecond⟩ := hrest
  · exact ⟨_, .anchored hround (.inl ⟨rfl, rfl⟩)⟩
  · obtain ⟨again, hagain⟩ := rounds_of_run hsecond
    exact ⟨_, .anchored hround (.inr ⟨b', hagain⟩)⟩

theorem draws_border {b : Border}
    (h : s.run (Step.arrangeBorder layout container b) = .ok (r, s')) :
    ∃ placements, Draws layout container (.border b) s placements s' := by
  obtain ⟨slots, mid, hslots, hsyncs, hlays⟩ := run_arrangeBorder_eq_ok h
  obtain ⟨hnone, -, rfl⟩ | ⟨-, after, placements, hlaid⟩ := hlays
  · exact ⟨[], .noCenter hslots hsyncs hnone⟩
  · exact ⟨placements, .border hslots hsyncs hlaid⟩

theorem draws_linear {l : Linear} (h : s.run (Lines.arrange layout container l) = .ok (r, s')) :
    ∃ placements, Draws layout container (.linear l) s placements s' := by
  cases hoverflow : l.overflow with
  | none =>
    obtain ⟨-, target, first, placements, htarget, hfirst, hplace, hplaces, -⟩ :=
      run_linear_of_none hoverflow h
    exact ⟨placements, .line hoverflow htarget hfirst hplace hplaces⟩
  | some handler =>
    obtain ⟨-, target, first, next, outcome, offset, final, placements, hhandles⟩ :=
      run_linear_of_handler hoverflow h
    exact ⟨placements, .handled hoverflow hhandles⟩

/-- Every layout writes some placements, if only none. -/
theorem draws_of_run (h : s.run (Step.arrange layout container a) = .ok (r, s')) :
    ∃ placements, Draws layout container a s placements s' := by
  cases a with
  | auto =>
    obtain ⟨placements, hplacing⟩ := placesBy_of_run h
    exact ⟨placements, .auto hplacing⟩
  | fit => exact draws_fit h
  | column => exact draws_columns h
  | table =>
    obtain ⟨placements, hplacing⟩ := placesBy_of_run h
    exact ⟨placements, .table hplacing⟩
  | card active => exact draws_cards h
  | accordion active =>
    obtain ⟨solution, hsolution, -, hplaces⟩ := run_accordion_eq_ok h
    exact ⟨_, .accordion hsolution hplaces.tree⟩
  | anchored a => exact draws_anchored h
  | border b => exact draws_border h
  | linear l => exact draws_linear h

/-! ## What they leave -/

theorem mark?_applyAll (t : Tree) (placed : List Anchored.Placed) :
    (Anchored.applyAll t placed).mark? =
      (t.applyPlacements (placed.map Anchored.Placed.placement)).mark? := by
  induction placed generalizing t with
  | nil => rfl
  | cons p rest ih =>
    rw [Anchored.applyAll, List.foldl_cons]
    exact (ih _).trans (Tree.mark?_applyPlacements_congr
      (Tree.mark?_modifyState (f := fun s => { s with labelRect := p.label }) (fun _ => rfl) _ p.id)
      (rest.map Anchored.Placed.placement))

theorem mark?_dealt (s : Scene) (container : ComponentId) (active : Option ComponentId) :
    (s.dealt container active).tree.mark? = s.tree.mark? :=
  s.tree.mark?_setHiddens _ _

theorem mark?_reacted (s : Scene) (container : ComponentId) (l : Linear) (next : Box.Handler)
    (outcome : Box.Outcome) : (s.reacted container l next outcome).tree.mark? = s.tree.mark? :=
  (Tree.mark?_setHiddens _ outcome.reveal fun _ => false).trans
    (s.tree.mark?_setHiddens outcome.hide fun _ => true)

theorem Syncs.mark?_eq {b : Border} {slots : List Border.Slot} (h : Syncs container b slots s mid) :
    mid.tree.mark? = s.tree.mark? := by
  rw [h.tree]
  exact s.tree.mark?_setHiddens _ fun _ => true

theorem Rounds.mark?_eq {a b : Anchored} (h : s.Rounds layout container a placements b s') :
    s'.tree.mark? = (s.tree.applyPlacements placements).mark? := by
  obtain ⟨content, sized, members, placed, hanchors, rfl⟩ := h
  rw [hanchors.tree]
  exact mark?_applyAll s.tree placed

/-- Placements that are written on top of others. -/
theorem mark?_again (h : mid.tree.mark? = (s.tree.applyPlacements placements).mark?)
    (h' : s'.tree.mark? = (mid.tree.applyPlacements again).mark?) :
    s'.tree.mark? = (s.tree.applyPlacements (placements ++ again)).mark? := by
  rw [h', Tree.applyPlacements_append]
  exact Tree.mark?_applyPlacements_congr h again

/-- What is known of rectangles afterwards is what the placements leave. -/
theorem Draws.mark?_eq (h : Draws layout container a s placements s') :
    s'.tree.mark? = (s.tree.applyPlacements placements).mark? := by
  cases h with
  | auto placing | table placing => rw [placing.places.tree]
  | column first second =>
    refine mark?_again (congrArg _ first.places.tree) ?_
    obtain ⟨rfl, rfl⟩ | hagain := second
    · rfl
    · rw [hagain.places.tree]
  | nothing => rfl
  | fit visible fills => rw [fills.places.tree]
  | noCard => exact mark?_dealt ..
  | card chosen fills =>
    rw [fills.places.tree]
    exact Tree.mark?_applyPlacements_congr (mark?_dealt ..) _
  | accordion solved tree => rw [tree]
  | anchored first second =>
    refine mark?_again first.mark?_eq ?_
    obtain ⟨rfl, rfl⟩ | ⟨b', hagain⟩ := second
    · rfl
    · exact hagain.mark?_eq
  | noCenter found syncs => exact syncs.mark?_eq
  | border found syncs lays =>
    rw [lays.tree]
    exact Tree.mark?_applyPlacements_congr syncs.mark?_eq _
  | line plain offered solved placed places => rw [places.tree]
  | handled handles handled =>
    rw [handled.places.tree]
    exact Tree.mark?_applyPlacements_congr (mark?_reacted ..) _

end Scene

end Trellis
