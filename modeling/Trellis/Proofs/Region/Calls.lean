import Trellis.Proofs.Histories.Passes
import Trellis.Proofs.Histories.Shown

/-!
# Calls on the regions of a container

A call on a region finds the border layout of its container, perhaps picking up the regions first.
Then it is refused or has nothing to do, or it changes the one region that it names. Most changes
are followed by a layout of the container.

* `RegionCall`: the calls; `Region.Changes`: what each one makes of its region.
* `Does`: what a call comes to; `does_step`: it comes to nothing else.
* `run_outsideClick_eq_ok`: what a click beside the floating regions comes to.
-/
namespace Trellis

/-- A call on a region of a border container. -/
inductive RegionCall where
  | collapse (name : RegionName) (animate : Bool)
  | expand (name : RegionName) (animate : Bool)
  | completeAnimation (name : RegionName)
  | slideOut (name : RegionName)
  | slideIn (name : RegionName)
  | splitMove (name : RegionName) (requested : Int)
  deriving DecidableEq, Repr

namespace RegionCall

/-- The call, whatever it answers if it is not refused. -/
def step (container : ComponentId) : RegionCall → Step Unit
  | .collapse name animate => do let _ ← Step.collapse container name animate
  | .expand name animate => do let _ ← Step.expand container name animate
  | .completeAnimation name => do let _ ← Step.completeAnimation container name
  | .slideOut name => Step.slideOut container name
  | .slideIn name => Step.slideIn container name
  | .splitMove name requested => do let _ ← Step.splitMove container name requested

def region : RegionCall → RegionName
  | .collapse name _ | .expand name _ | .completeAnimation name | .slideOut name | .slideIn name
  | .splitMove name _ => name

/-- Whether the call picks up the regions of its container first. -/
def picksUp : RegionCall → Bool
  | .collapse .. | .expand .. | .slideOut _ => true
  | .completeAnimation _ | .slideIn _ | .splitMove .. => false

/-- The call that starts a transition. -/
def ofTransition (t : Transition) (name : RegionName) (animate : Bool) : RegionCall :=
  match t with
  | .collapse => .collapse name animate
  | .expand => .expand name animate

theorem region_ofTransition (t : Transition) (name : RegionName) (animate : Bool) :
    (ofTransition t name animate).region = name := by
  cases t <;> rfl

theorem picksUp_ofTransition (t : Transition) (name : RegionName) (animate : Bool) :
    (ofTransition t name animate).picksUp = true := by
  cases t <;> rfl

end RegionCall

/-- What a call makes of its region, when `config` are the settings of the region's component and
`bounds` those of its splitter; whether the component is hidden or shown then, and whether the
container is laid out. -/
inductive Region.Changes (config : Option ItemConfig) (bounds : Option SplitBounds) (r : Region) :
    RegionCall → Region → (shows lays : Bool) → Prop
  | collapseLater {name} (allowed : r.allows .collapse = true)
      (collapsible : config.any ItemConfig.collapsible = true) :
      Changes config bounds r (.collapse name true) (r.start .collapse) false false
  | collapse {name} (allowed : r.allows .collapse = true)
      (collapsible : config.any ItemConfig.collapsible = true) :
      Changes config bounds r (.collapse name false) (r.finish .collapse) true true
  | expandLater {name} (allowed : r.allows .expand = true) :
      Changes config bounds r (.expand name true) (r.start .expand) false false
  | expand {name} (allowed : r.allows .expand = true) :
      Changes config bounds r (.expand name false) (r.finish .expand) true true
  | complete {name t} (pending : r.pending = some t) :
      Changes config bounds r (.completeAnimation name) (r.finish t) true true
  | slideOut {name} (allowed : r.canSlideOut = true) :
      Changes config bounds r (.slideOut name) { r with state := .floating } true true
  | slideIn {name} (allowed : r.canSlideIn = true) :
      Changes config bounds r (.slideIn name) { r with state := .collapsed } true true
  | splitMove {name requested limits size} (allowed : r.canResize = true)
      (known : bounds = some limits) (clamped : limits.clamp requested = .ok size) :
      Changes config bounds r (.splitMove name requested) { r with size := some size } false true

theorem RegionName.region_of_edge? {name : RegionName} {e : Edge} (h : name.edge? = some e) :
    e.region = name := by
  cases name <;> cases h <;> rfl

/-- A reason to refuse a call itself, and not the layout that follows it. -/
def LayoutError.Immediate (err : LayoutError) : Prop := ∀ c, err ≠ .missingCenterRegion c

theorem Region.immediate_refuse (r : Region) (operation : RegionOperation) :
    (r.refuse operation).Immediate :=
  nofun

theorem SplitBounds.clamp_nonneg {bounds : SplitBounds} {requested size : Int}
    (h : bounds.clamp requested = .ok size) : 0 ≤ size := by
  simp only [clamp, Length.bind_eq_ok] at h
  obtain ⟨_, -, _, -, h⟩ := h
  cases h
  exact Int.le_max_right ..

theorem Arrangement.eq_border {a : Arrangement} (h : a.kind = .border) : ∃ b, a = .border b := by
  cases a with
  | border b => exact ⟨b, rfl⟩
  | anchored a =>
    obtain ⟨mode, _, _⟩ := a
    cases mode <;> cases h
  | linear l =>
    obtain ⟨axis, _⟩ := l
    cases axis <;> cases h
  | _ => cases h

namespace Scene

variable {s s' t mid told : Scene} {d : ComponentId} {layout : LayoutConfig} {b : Border}
  {picks : Bool}

/-- The regions that are known of a container. -/
def regions (s : Scene) (d : ComponentId) : Border :=
  match s.kept.get? d with
  | some (.border b) => b
  | _ => .empty

theorem regions_eq (h : s.kept.get? d = some (.border b)) : s.regions d = b := by
  rw [regions, h]

theorem regions_congr (h : t.kept.get? d = s.kept.get? d) : t.regions d = s.regions d := by
  unfold regions
  rw [h]

/-- The layout of the container is a border layout. -/
def Bordered (s : Scene) (d : ComponentId) : Prop :=
  ∃ layout, s.tree.layoutOf d = .ok layout ∧ layout.kind = .border

theorem arrangement_of_border (hborder : layout.kind = .border) :
    s.arrangement layout d = .border (s.regions d) := by
  unfold arrangement regions
  cases hkept : s.kept.get? d with
  | none =>
    rw [Option.filter_none, Option.getD_none, Arrangement.fresh, hborder]
  | some a =>
    rw [Option.filter_some]
    by_cases hkind : a.kind = layout.kind
    · rw [if_pos (beq_iff_eq.2 hkind), Option.getD_some]
      obtain ⟨b, rfl⟩ := Arrangement.eq_border (hkind.trans hborder)
      rfl
    · rw [if_neg (by simpa using hkind), Option.getD_none, Arrangement.fresh, hborder]
      cases a with
      | border b => exact absurd hborder.symm hkind
      | _ => rfl

/-- Nothing has changed but what is kept for a container that has no border layout. -/
structure Elsewhere (d : ComponentId) (s t : Scene) : Prop where
  other : ¬ s.Bordered d
  tree : t.tree = s.tree
  host : t.host = s.host
  kept : ∀ i, i ≠ d → t.kept.get? i = s.kept.get? i

/-- The bounds of a region's splitter, if its component is known. -/
def splitBounds (s : Scene) (d : ComponentId) (e : Edge) (r : Region) : Option SplitBounds :=
  (s.tree.config? r.component).map fun c =>
    Step.splitBounds (s.regions d) e r c ((s.regions d).center.bind s.tree.config?)

theorem splitBounds_eq {e : Edge} {r : Region} {x : Component}
    (hx : s.tree.get r.component = .ok x) : s.splitBounds d e r =
      some (Step.splitBounds (s.regions d) e r x.config
        (((s.regions d).center.bind s.tree.get?).map Component.config)) := by
  rw [splitBounds, Tree.config?, Tree.get_eq_ok.1 hx, Option.map_bind]
  rfl

/-- A call has found the regions `b` of its container: those that are known or, if it picks up the
regions first, those that it picks up. -/
structure Finds (d : ComponentId) (picks : Bool) (s : Scene) (b : Border) (t : Scene) : Prop where
  bordered : s.Bordered d
  host : t.host = s.host
  kept : ∀ i, t.kept.get? i = if i = d then some (.border b) else s.kept.get? i
  found : picks = false ∧ b = s.regions d ∧ t.tree = s.tree ∨
    picks = true ∧ ∃ slots, s.slots d = .ok slots ∧ b = (s.regions d).sync slots ∧
      t.tree = ((s.regions d).hiddenBySync slots).foldl (fun t id => t.setHidden id true) s.tree

/-- The scene in which the region at an edge has changed. -/
def changed (s : Scene) (d : ComponentId) (b : Border) (e : Edge) (r : Region) (shows : Bool) :
    Scene :=
  { s with
    kept := s.kept.insert d (.border (b.set e (some r)))
    tree := if shows then s.tree.setHidden r.component r.hidesComponent else s.tree }

theorem kept_changed (s : Scene) (d : ComponentId) (b : Border) (e : Edge) (r : Region)
    (shows : Bool) (i : ComponentId) : (s.changed d b e r shows).kept.get? i =
      if i = d then some (.border (b.set e (some r))) else s.kept.get? i := by
  rw [changed, IdMap.get?_insert]

theorem regions_changed (s : Scene) (d : ComponentId) (b : Border) (e : Edge) (r : Region)
    (shows : Bool) : (s.changed d b e r shows).regions d = b.set e (some r) :=
  regions_eq (by rw [kept_changed, if_pos rfl])

/-- Only the component of the region is hidden or shown. -/
theorem agree_changed (s : Scene) (d : ComponentId) (b : Border) (e : Edge) (r : Region)
    (shows : Bool) : s.tree.Agree (· ≠ r.component) (s.changed d b e r shows).tree := by
  cases shows with
  | false => exact .refl _ s.tree
  | true =>
    show s.tree.Agree _ (s.tree.modifyState r.component fun s =>
      { s with hidden := r.hidesComponent })
    exact Tree.agree_modifyState s.tree _ (by simp)

theorem isHidden_changed {r : Region} {x : Component}
    (hx : s.tree.get? r.component = some x) (d : ComponentId) (b : Border) (e : Edge) :
    (s.changed d b e r true).tree.isHidden r.component = r.hidesComponent := by
  rw [changed, if_pos rfl, Tree.isHidden_setHidden, hx, if_pos rfl]
  rfl

/-- What a call on a region comes to. -/
inductive Does (call : RegionCall) (d : ComponentId) (s : Scene) :
    Except LayoutError Unit → Scene → Prop
  /-- The container has no border layout. -/
  | elsewhere {e t} (elsewhere : Elsewhere d s t) : Does call d s (.error e) t
  /-- The call is refused or vetoed, or has nothing to do. -/
  | rests {b t x} (finds : Finds d call.picksUp s b t)
      (immediate : ∀ err, x = .error err → err.Immediate) : Does call d s x t
  /-- An animation begins. -/
  | begins {b t e r r'} (finds : Finds d call.picksUp s b t) (names : call.region = e.region)
      (known : b.get e = some r)
      (changes : r.Changes (s.tree.config? r.component) (s.splitBounds d e r) call r' false
        false) :
      Does call d s (.ok ()) (t.changed d b e r' false)
  /-- The region changes and the container is laid out. -/
  | lays {b t e r r' shows x laid after} (finds : Finds d call.picksUp s b t)
      (names : call.region = e.region) (known : b.get e = some r)
      (changes : r.Changes (s.tree.config? r.component) (s.splitBounds d e r) call r' shows true)
      (run : (t.changed d b e r' shows).run (Step.layout d) = .ok (x, laid))
      (silent : Silent laid after) : Does call d s x after

theorem Does.refused {call : RegionCall} {err : LayoutError} (hfinds : Finds d call.picksUp s b t)
    (himmediate : err.Immediate) : Does call d s (.error err) t := by
  refine .rests hfinds fun err' heq => ?_
  cases heq
  exact himmediate

section

variable {α : Type} {y : Except LayoutError α}

/-- A call that wants the border layout of its container. -/
theorem run_border_then {operation : Operation} {f : Border → Step α}
    (h : s.run (Step.border d operation >>= f) = .ok (y, s')) :
    (∃ e, y = .error e ∧ Elsewhere d s s') ∨
      ∃ t, Finds d false s (s.regions d) t ∧ t.tree = s.tree ∧
        t.run (f (s.regions d)) = .ok (y, s') := by
  unfold Step.border at h
  rw [bind_assoc, run_bind] at h
  cases hlayout : s.tree.layoutOf d with
  | error e =>
    have hrun : s.run (Step.arrangement d) = .ok (.error e, s) := by
      rw [Step.arrangement, run_bind, run_layoutConfig, hlayout]
      rfl
    rw [hrun] at h
    cases h
    refine .inl ⟨e, rfl, ?_, rfl, rfl, fun _ _ => rfl⟩
    rintro ⟨layout, hlayout', -⟩
    rw [hlayout] at hlayout'
    cases hlayout'
  | ok layout =>
    rw [run_arrangement hlayout, Length.ok_bind] at h
    dsimp only at h
    by_cases hborder : layout.kind = .border
    · rw [arrangement_of_border hborder] at h
      refine .inr ⟨{ s with kept := s.kept.insert d (.border (s.regions d)) },
        ⟨⟨layout, hlayout, hborder⟩, rfl, fun i => ?_, .inl ⟨rfl, rfl, rfl⟩⟩, rfl, h⟩
      exact IdMap.get?_insert ..
    · have hkind := s.kind_arrangement layout d
      generalize s.arrangement layout d = a at h hkind
      have hother : (∃ e, y = .error e) ∧ s' = { s with kept := s.kept.insert d a } := by
        cases a with
        | border b => exact absurd hkind.symm hborder
        | _ =>
          cases h
          exact ⟨⟨_, rfl⟩, rfl⟩
      obtain ⟨⟨e, rfl⟩, rfl⟩ := hother
      refine .inl ⟨e, rfl, ?_, rfl, rfl, fun i hi => ?_⟩
      · rintro ⟨layout', hlayout', hborder'⟩
        rw [hlayout] at hlayout'
        cases hlayout'
        exact hborder hborder'
      · simp only [IdMap.get?_insert, if_neg hi]

/-- A call that picks up the regions of its container first. -/
theorem run_sync_then {operation : Operation} {f : Border → Step α}
    (h : s.run (do f (← Step.syncBorder d (← Step.border d operation))) = .ok (y, s')) :
    (∃ e, y = .error e ∧ Elsewhere d s s') ∨
      ∃ b t, Finds d true s b t ∧ t.run (f b) = .ok (y, s') := by
  obtain helsewhere | ⟨known, hknown, htree, hrest⟩ := run_border_then h
  · exact .inl helsewhere
  obtain ⟨_, hsync, -⟩ | ⟨b, t, hsync, hrest⟩ := run_bind_cases hrest
  all_goals
    obtain ⟨slots, hslots, hx, hsyncs⟩ := run_syncBorder_eq_ok hsync
    cases hx
  refine .inr ⟨_, t, ⟨hknown.bordered, hsyncs.host.trans hknown.host, fun i => ?_,
    .inr ⟨rfl, slots, ?_, rfl, ?_⟩⟩, hrest⟩
  · rw [hsyncs.kept, IdMap.get?_insert, hknown.kept]
    split <;> rfl
  · unfold Scene.slots at hslots ⊢
    rwa [htree] at hslots
  · rw [hsyncs.tree, htree]

/-- A call that wants one region. -/
theorem run_region_then {name : RegionName} {operation : RegionOperation}
    {f : Edge × Region → Step α}
    (h : t.run (Step.region b d name operation >>= f) = .ok (y, s')) :
    (name.edge?.bind b.get = none ∧ (∃ err, y = .error err ∧ err.Immediate) ∧ s' = t) ∨
      ∃ e r, name = e.region ∧ b.get e = some r ∧ t.run (f (e, r)) = .ok (y, s') := by
  unfold Step.region at h
  cases hedge : name.edge? with
  | none =>
    rw [hedge] at h
    cases h
    exact .inl ⟨rfl, ⟨_, rfl, nofun⟩, rfl⟩
  | some e =>
    rw [hedge] at h
    dsimp only at h
    cases hr : b.get e with
    | none =>
      rw [hr] at h
      cases h
      exact .inl ⟨hr, ⟨_, rfl, nofun⟩, rfl⟩
    | some r =>
      rw [hr] at h
      exact .inr ⟨e, r, (RegionName.region_of_edge? hedge).symm, hr, h⟩

end

theorem Finds.silent (h : Finds d picks s b mid) (hsilent : Silent mid t) :
    Finds d picks s b t := by
  refine ⟨h.bordered, hsilent.host.trans h.host, ?_, ?_⟩
  · rw [hsilent.kept]
    exact h.kept
  · rw [hsilent.tree]
    exact h.found

theorem Finds.shape (h : Finds d picks s b t) : s.tree.SameShape t.tree := by
  obtain ⟨-, -, htree⟩ | ⟨-, slots, -, -, htree⟩ := h.found
  · rw [htree]
    exact .refl s.tree
  · rw [htree]
    exact s.tree.sameShape_setHiddens _ true

theorem Finds.config (h : Finds d picks s b t) {i : ComponentId} {c : Component}
    (hc : t.tree.get i = .ok c) : s.tree.config? i = some c.config := by
  rw [h.shape.config?_eq, Tree.config?, Tree.get_eq_ok.1 hc]
  rfl

/-- The answer of a call does not matter. -/
theorem run_void_eq_ok {α : Type} {x : Step α} {y : Except LayoutError Unit}
    (h : s.run (do let _ ← x) = .ok (y, s')) :
    ∃ z, s.run x = .ok (z, s') ∧ y = z.map fun _ => () := by
  obtain ⟨e, hx, rfl⟩ | ⟨a, mid, hx, h⟩ := run_bind_cases h
  · exact ⟨_, hx, rfl⟩
  · cases h
    exact ⟨_, hx, rfl⟩

/-- A layout, and something after it that changes nothing and is never refused. -/
theorem run_layout_then {α : Type} {f : Unit → Step α} {x : Except LayoutError α}
    (hf : ∀ laid : Scene, ∃ a after, Silent laid after ∧ laid.run (f ()) = .ok (.ok a, after))
    (h : s.run (Step.layout d >>= f) = .ok (x, s')) :
    ∃ laid, s.run (Step.layout d) = .ok (x.map fun _ => (), laid) ∧ Silent laid s' := by
  obtain ⟨e, hlayout, rfl⟩ | ⟨_, laid, hlayout, h⟩ := run_bind_cases h
  · exact ⟨_, hlayout, .refl s'⟩
  · obtain ⟨a, after, hsilent, hafter⟩ := hf laid
    change laid.run (f ()) = _ at h
    rw [hafter] at h
    cases h
    exact ⟨laid, hlayout, hsilent⟩

/-! ## What each call comes to -/

theorem run_keepRegion_then {α : Type} {e : Edge} {r : Region} {f : Border → Step α} :
    s.run (Step.keepRegion b d e r >>= f) =
      (s.changed d b e r true).run (f (b.set e (some r))) :=
  rfl

/-- The layout after a transition, of which the host is told. -/
theorem run_conclude_then {α : Type} {i : ComponentId} {name : RegionName} {tr : Transition} {a : α}
    {x : Except LayoutError α}
    (h : s.run (do
      Step.concludeTransition d i name tr
      return a) = .ok (x, s')) :
    ∃ laid, s.run (Step.layout d) = .ok (x.map fun _ => (), laid) ∧ Silent laid s' := by
  rw [Step.concludeTransition, bind_assoc] at h
  refine run_layout_then (fun laid => ?_) h
  obtain ⟨told, hsilent, hrun⟩ := laid.exists_run_notify i (tr.after name)
  refine ⟨a, told, hsilent, ?_⟩
  rw [bind_assoc, run_bind, hrun]
  rfl

/-- A transition has to be allowed by the region's state. -/
theorem run_check_then {α : Type} {y : Except LayoutError α} {r : Region} {tr : Transition}
    {f : Unit → Step α}
    (h : s.run (Step.beginTransition.liftExcept (r.check tr) >>= f) = .ok (y, s')) :
    ((∃ err, y = .error err ∧ err.Immediate) ∧ s' = s) ∨
      r.allows tr = true ∧ s.run (f ()) = .ok (y, s') := by
  unfold Region.check at h
  cases hallows : r.allows tr with
  | false =>
    rw [hallows] at h
    cases h
    exact .inl ⟨⟨_, rfl, r.immediate_refuse _⟩, rfl⟩
  | true =>
    rw [hallows] at h
    exact .inr ⟨rfl, h⟩

theorem changes_later {c : ItemConfig} {bounds : Option SplitBounds} {r : Region}
    {tr : Transition} {name : RegionName} (hallows : r.allows tr = true)
    (hcollapsible : ¬ (tr = .collapse ∧ (!c.collapsible) = true)) :
    r.Changes (some c) bounds (.ofTransition tr name true) (r.start tr) false false := by
  cases tr with
  | collapse => exact .collapseLater hallows (by simpa using hcollapsible)
  | expand => exact .expandLater hallows

theorem changes_now {c : ItemConfig} {bounds : Option SplitBounds} {r : Region}
    {tr : Transition} {name : RegionName} (hallows : r.allows tr = true)
    (hcollapsible : ¬ (tr = .collapse ∧ (!c.collapsible) = true)) :
    r.Changes (some c) bounds (.ofTransition tr name false) (r.finish tr) true true := by
  cases tr with
  | collapse => exact .collapse hallows (by simpa using hcollapsible)
  | expand => exact .expand hallows

theorem does_beginTransition {x : Except LayoutError Step.TransitionOutcome} {tr : Transition}
    {name : RegionName} {animate : Bool}
    (h : s.run (Step.beginTransition d name tr animate) = .ok (x, s')) :
    Does (.ofTransition tr name animate) d s (x.map fun _ => ()) s' := by
  obtain ⟨e, rfl, helsewhere⟩ | ⟨b, t, hfinds, h⟩ := run_sync_then h
  · exact .elsewhere helsewhere
  rw [← RegionCall.picksUp_ofTransition tr name animate] at hfinds
  obtain ⟨-, ⟨err, rfl, himmediate⟩, rfl⟩ | ⟨e, r, rfl, hr, h⟩ := run_region_then h
  · exact .refused hfinds himmediate
  dsimp only at h
  rw [run_bind, run_tree, Length.ok_bind] at h
  dsimp only at h
  rw [run_bind, run_check, bind_assoc] at h
  obtain ⟨c, hc, h⟩ := Length.bind_eq_ok.1 h
  rw [Length.ok_bind] at h
  dsimp only at h
  have hconfig := hfinds.config hc
  split at h
  · cases h
    exact .refused hfinds (r.immediate_refuse _)
  next hcollapsible =>
  obtain ⟨⟨err, rfl, himmediate⟩, rfl⟩ | ⟨hallows, h⟩ := run_check_then h
  · exact .refused hfinds himmediate
  obtain ⟨told, hsilent, hnotify⟩ := t.exists_run_notify r.component (tr.before e.region)
  rw [run_bind, hnotify, Length.ok_bind] at h
  dsimp only at h
  have htold := hfinds.silent hsilent
  split at h
  · cases h
    exact .rests htold nofun
  split at h
  · next hanimate =>
    cases h
    obtain rfl : animate = true := hanimate
    refine .begins htold (RegionCall.region_ofTransition ..) hr ?_
    rw [hconfig]
    exact changes_later hallows hcollapsible
  · next hanimate =>
    rw [run_keepRegion_then] at h
    obtain ⟨laid, hlayout, hafter⟩ := run_conclude_then h
    obtain rfl : animate = false := Bool.eq_false_iff.2 hanimate
    refine .lays htold (RegionCall.region_ofTransition ..) hr ?_ hlayout hafter
    rw [hconfig]
    exact changes_now hallows hcollapsible

theorem does_completeAnimation {x : Except LayoutError (Option Transition)} {name : RegionName}
    (h : s.run (Step.completeAnimation d name) = .ok (x, s')) :
    Does (.completeAnimation name) d s (x.map fun _ => ()) s' := by
  obtain ⟨e, rfl, helsewhere⟩ | ⟨t, hfinds, -, h⟩ := run_border_then h
  · exact .elsewhere helsewhere
  obtain ⟨-, ⟨err, rfl, himmediate⟩, rfl⟩ | ⟨e, r, rfl, hr, h⟩ := run_region_then h
  · exact .refused hfinds himmediate
  dsimp only at h
  split at h
  · cases h
    exact .rests hfinds nofun
  · next tr hpending =>
    rw [run_keepRegion_then] at h
    obtain ⟨laid, hlayout, hafter⟩ := run_conclude_then h
    exact .lays hfinds rfl hr (.complete hpending) hlayout hafter

/-- A region that slides, in or out, once the border layout is found. -/
theorem does_slide {x : Except LayoutError Unit} {call : RegionCall} {operation : RegionOperation}
    {allowed : Region → Bool} {state : RegionState} (hfinds : Finds d call.picksUp s b t)
    (hchanges : ∀ {config : Option ItemConfig} {bounds : Option SplitBounds} (r : Region),
      allowed r = true → r.Changes config bounds call { r with state } true true)
    (h : t.run (do
      let (e, r) ← Step.region b d call.region operation
      if !allowed r then throw (r.refuse operation)
      let _ ← Step.keepRegion b d e { r with state }
      Step.layout d) = .ok (x, s')) : Does call d s x s' := by
  obtain ⟨-, ⟨err, rfl, himmediate⟩, rfl⟩ | ⟨e, r, hname, hr, h⟩ := run_region_then h
  · exact .refused hfinds himmediate
  dsimp only at h
  split at h
  · cases h
    exact .refused hfinds (r.immediate_refuse _)
  · next hallowed =>
    exact .lays hfinds hname hr (hchanges r (by simpa using hallowed)) h (.refl s')

theorem does_slideOut {x : Except LayoutError Unit} {name : RegionName}
    (h : s.run (Step.slideOut d name) = .ok (x, s')) : Does (.slideOut name) d s x s' := by
  obtain ⟨e, rfl, helsewhere⟩ | ⟨b, t, hfinds, h⟩ := run_sync_then h
  · exact .elsewhere helsewhere
  · exact does_slide hfinds (fun _ => .slideOut) h

theorem does_slideIn {x : Except LayoutError Unit} {name : RegionName}
    (h : s.run (Step.slideIn d name) = .ok (x, s')) : Does (.slideIn name) d s x s' := by
  obtain ⟨e, rfl, helsewhere⟩ | ⟨t, hfinds, -, h⟩ := run_border_then h
  · exact .elsewhere helsewhere
  · exact does_slide hfinds (fun _ => .slideIn) h

/-- The splitter of a region is moved: that is refused, or the region gets the size within its
bounds and the container is laid out. -/
theorem run_splitMove_cases {x : Except LayoutError Int} {name : RegionName} {requested : Int}
    (h : s.run (Step.splitMove d name requested) = .ok (x, s')) :
    (∃ e, x = .error e ∧ Elsewhere d s s') ∨
      ∃ t, Finds d false s (s.regions d) t ∧ t.tree = s.tree ∧
      (((∃ err, x = .error err ∧ err.Immediate) ∧ s' = t) ∨
        ∃ e r c size laid, name = e.region ∧ (s.regions d).get e = some r ∧ r.canResize = true ∧
          t.tree.get r.component = .ok c ∧
          (Step.splitBounds (s.regions d) e r c.config
            (((s.regions d).center.bind t.tree.get?).map Component.config)).clamp requested =
              .ok size ∧
          (t.changed d (s.regions d) e { r with size := some size } false).run (Step.layout d) =
            .ok (x.map fun _ => (), laid) ∧
          (∀ n, x = .ok n → n = size) ∧ Silent laid s') := by
  obtain ⟨e, rfl, helsewhere⟩ | ⟨t, hfinds, htree, h⟩ := run_border_then h
  · exact .inl ⟨e, rfl, helsewhere⟩
  refine .inr ⟨t, hfinds, htree, ?_⟩
  obtain ⟨-, hrefused, rfl⟩ | ⟨e, r, rfl, hr, h⟩ := run_region_then h
  · exact .inl ⟨hrefused, rfl⟩
  dsimp only at h
  split at h
  · cases h
    exact .inl ⟨⟨_, rfl, r.immediate_refuse _⟩, rfl⟩
  · next hallowed =>
    rw [run_bind, run_tree, Length.ok_bind] at h
    dsimp only at h
    rw [run_bind, run_check, bind_assoc] at h
    obtain ⟨c, hc, h⟩ := Length.bind_eq_ok.1 h
    rw [Length.ok_bind] at h
    dsimp only at h
    rw [run_bind, run_check, bind_assoc] at h
    obtain ⟨size, hsize, h⟩ := Length.bind_eq_ok.1 h
    rw [Length.ok_bind] at h
    dsimp only at h
    refine .inr ⟨e, r, c, size, ?_⟩
    obtain ⟨y, hlayout, rfl⟩ | ⟨_, laid, hlayout, h⟩ := run_bind_cases
      (s := t.changed d (s.regions d) e { r with size := some size } false) h
    · exact ⟨s', rfl, hr, by simpa using hallowed, hc, hsize, hlayout, nofun, .refl s'⟩
    · cases h
      exact ⟨s', rfl, hr, by simpa using hallowed, hc, hsize, hlayout,
        fun n hn => (Except.ok.inj hn).symm, .refl s'⟩

theorem does_splitMove {x : Except LayoutError Int} {name : RegionName} {requested : Int}
    (h : s.run (Step.splitMove d name requested) = .ok (x, s')) :
    Does (.splitMove name requested) d s (x.map fun _ => ()) s' := by
  obtain ⟨e, rfl, helsewhere⟩ | ⟨t, hfinds, htree, ⟨⟨err, rfl, himmediate⟩, rfl⟩ |
    ⟨e, r, c, size, laid, rfl, hr, hallowed, hc, hsize, hlayout, -, hafter⟩⟩ :=
    run_splitMove_cases h
  · exact .elsewhere helsewhere
  · exact .refused hfinds himmediate
  · rw [htree] at hc hsize
    exact .lays hfinds rfl hr (.splitMove hallowed (splitBounds_eq hc) hsize) hlayout hafter

/-- A call comes to one of these. -/
theorem does_step {call : RegionCall} {x : Except LayoutError Unit}
    (h : s.run (call.step d) = .ok (x, s')) : Does call d s x s' := by
  cases call with
  | collapse name animate =>
    obtain ⟨y, hrun, rfl⟩ := run_void_eq_ok h
    exact @does_beginTransition _ _ _ _ .collapse _ _ hrun
  | expand name animate =>
    obtain ⟨y, hrun, rfl⟩ := run_void_eq_ok h
    exact @does_beginTransition _ _ _ _ .expand _ _ hrun
  | completeAnimation name =>
    obtain ⟨y, hrun, rfl⟩ := run_void_eq_ok h
    exact does_completeAnimation hrun
  | slideOut name => exact does_slideOut h
  | slideIn name => exact does_slideIn h
  | splitMove name requested =>
    obtain ⟨y, hrun, rfl⟩ := run_void_eq_ok h
    exact does_splitMove hrun

/-! ## Clicks beside floating regions -/

/-- Floating regions are put back one after another. -/
inductive SlidesIn (d : ComponentId) : Scene → Border → Scene → Border → Prop
  | done {s : Scene} {b : Border} : SlidesIn d s b s b
  | step {s t : Scene} {b b' : Border} {e : Edge} {r : Region} (known : b.get e = some r)
      (allowed : r.canSlideIn = true)
      (rest : SlidesIn d (s.changed d b e { r with state := .collapsed } true)
        (b.set e (some { r with state := .collapsed })) t b') : SlidesIn d s b t b'

theorem run_slideInAll_eq_ok {edges : List Edge} {x : Except LayoutError (List RegionName)}
    (h : s.run (Step.slideInAll d b edges) = .ok (x, s')) :
    ∃ closed, x = .ok closed ∧ (closed = [] → s' = s) ∧ ∃ b', SlidesIn d s b s' b' := by
  induction edges generalizing s b x with
  | nil =>
    cases h
    exact ⟨_, rfl, fun _ => rfl, b, .done⟩
  | cons e edges ih =>
    unfold Step.slideInAll at h
    cases hr : b.get e with
    | none =>
      rw [hr] at h
      exact ih h
    | some r =>
      rw [hr] at h
      dsimp only at h
      split at h
      · next hallowed =>
        rw [run_keepRegion_then] at h
        obtain ⟨y, hrest, -⟩ | ⟨closed, t, hrest, h⟩ := run_bind_cases h
        · obtain ⟨_, hx, -⟩ := ih hrest
          cases hx
        · cases h
          obtain ⟨_, -, -, b', hslides⟩ := ih hrest
          exact ⟨_, rfl, nofun, b', .step hr hallowed hslides⟩
      · exact ih h

/-- A click puts the floating regions back, and lays out the container if there are any. -/
theorem run_outsideClick_eq_ok {x : Except LayoutError (List RegionName)}
    (h : s.run (Step.outsideClick d) = .ok (x, s')) :
    Elsewhere d s s' ∨ ∃ t, Finds d false s (s.regions d) t ∧ (s' = t ∨ ∃ b mid laid,
      SlidesIn d t (s.regions d) mid b ∧
      mid.run (Step.layout d) = .ok (x.map fun _ => (), laid) ∧ Silent laid s') := by
  obtain ⟨-, -, helsewhere⟩ | ⟨t, hfinds, -, h⟩ := run_border_then h
  · exact .inl helsewhere
  refine .inr ⟨t, hfinds, ?_⟩
  obtain ⟨e, hslides, -⟩ | ⟨closed, mid, hslides, h⟩ := run_bind_cases h
  · obtain ⟨_, hx, -⟩ := run_slideInAll_eq_ok hslides
    cases hx
  obtain ⟨_, hclosed, hnone, b, hslides⟩ := run_slideInAll_eq_ok hslides
  cases hclosed
  split at h
  · obtain ⟨laid, hlayout, hafter⟩ :=
      run_layout_then (fun laid => ⟨closed, laid, .refl laid, rfl⟩) h
    exact .inr ⟨b, mid, laid, hslides, hlayout, hafter⟩
  · next hempty =>
    cases h
    exact .inl (hnone (by simpa using hempty))

end Scene

end Trellis
