import Trellis.Proofs.Region.Calls
import Trellis.Proofs.Sizes.Layouts

/-!
# No component ever gets a negative size

Roots get sizes, containers are laid out, items become active, regions are called on and lines are
scrolled, in any order. Passes go from containers to the containers in them, so what a layout leaves
is what the next one starts from.

* `safe_layout`: a pass leaves no negative size, however deep containers nest.
* `LayoutCall`: the calls; `LayoutCall.safe`: what holds of passes holds of each of them.
* `sizes_stay_nonneg`: what follows for a tree in which nothing has been laid out yet.
-/
namespace Trellis

namespace Step

variable {container d : ComponentId} {b : Border} {e : Edge} {r : Region}

/-! ## Passes -/

theorem safe_layoutConfig (id : ComponentId) : (layoutConfig id).Safe := by
  refine safe_tree.bind fun t _ => ?_
  split
  · split
    · exact yields_pure trivial
    · exact yields_throw _
  · exact yields_throw _

theorem yields_arrangement (container : ComponentId) :
    (arrangement container).Yields Arrangement.Nonneg := by
  refine (safe_layoutConfig container).bind fun layout _ => yields_get.bind fun s hs => ?_
  have hnonneg : (((s.kept.get? container).filter fun a => a.kind == layout.kind).getD
      (.fresh layout)).Nonneg := by
    cases hknown : (s.kept.get? container).filter fun a => a.kind == layout.kind with
    | none => exact Arrangement.nonneg_fresh layout
    | some a => exact hs.kept container a (Option.filter_eq_some_iff.1 hknown).1
  exact (safe_keep container hnonneg).bind fun _ _ => yields_pure hnonneg

theorem safe_renderChildren (container : ComponentId) : (renderChildren container).Safe :=
  safe_modifyTree (fun t => (t.agree_renderChildren container).toSameShape) fun _ ht =>
    ht.renderChildren container

theorem safe_passWithin (n : Nat) (container : ComponentId) : (passWithin n container).Safe := by
  induction n generalizing container with
  | zero => exact safe_check _
  | succ n ih =>
    refine (safe_layoutConfig container).bind fun layout _ =>
      (safe_notify container .beforeLayout).bind fun heard _ => ?_
    cases heard with
    | false => exact yields_pure trivial
    | true =>
      refine (safe_renderChildren container).bind fun _ _ =>
        (yields_arrangement container).bind fun a ha =>
        (safe_arrange ha).bind fun _ _ =>
        safe_tree.bind fun t _ =>
        (safe_forM (fun child => safe_tree.bind fun u _ => ?_) _).bind fun _ _ =>
        (safe_notify container .afterLayout).bind fun _ _ => yields_pure trivial
      split
      · exact ih child
      · exact yields_pure trivial

theorem safe_layout (container : ComponentId) : (layout container).Safe := by
  refine (safe_modify fun s => ?_).bind fun _ _ => safe_tree.bind fun t _ =>
    safe_passWithin t.size container
  exact ⟨rfl, rfl, rfl⟩

theorem safe_layoutRoot (root : ComponentId) {size : Size} (hsize : size.Nonneg) :
    (layoutRoot root size).Safe := by
  refine (safe_modifyTree (fun t => t.sameShape_applyRect root _) fun t ht =>
    ht.applyRect root ?_).bind fun _ _ => safe_layout root
  exact ⟨hsize.width, hsize.height⟩

/-! ## Operations -/

theorem safe_setActiveItem (container item : ComponentId) :
    (setActiveItem container item).Safe := by
  have hactivate :
      (do layout container; let _ ← notify item .activate; pure true : Step Bool).Safe :=
    (safe_layout container).bind fun _ _ => (safe_notify item _).bind fun _ _ =>
      yields_pure trivial
  refine (safe_layoutConfig container).bind fun config _ => safe_tree.bind fun t _ => ?_
  dsimp only
  split
  · exact yields_throw _
  · refine (yields_arrangement container).bind fun a _ => ?_
    split
    case' h_1 => refine (safe_keep container (a := .card (some item)) trivial).bind fun _ _ => ?_
    case' h_2 =>
      refine (safe_keep container (a := .accordion (some item)) trivial).bind fun _ _ => ?_
    case h_3 => exact Yields.bind (Q := fun _ => False) (yields_throw _) fun _ h => h.elim
    -- both kinds go on with the item that was active before
    all_goals
      refine Yields.bind (Q := fun _ => True) (yields_pure trivial) fun previous _ => ?_
      split
      · exact yields_pure trivial
      · cases previous with
        | none => exact hactivate
        | some id => exact (safe_notify id _).bind fun _ _ => hactivate

theorem yields_border (container : ComponentId) (operation : Operation) :
    (border container operation).Yields Border.Nonneg := by
  refine (yields_arrangement container).bind fun a ha => ?_
  split
  · exact yields_pure ha
  · exact yields_throw _

/-- A region that is found is one of those that are known. -/
theorem yields_region (hb : b.Nonneg) (container : ComponentId) (name : RegionName)
    (operation : RegionOperation) :
    (region b container name operation).Yields fun er => ∀ n ∈ er.2.size, 0 ≤ n := by
  unfold region
  split
  · exact yields_throw _
  · next e _ =>
    split
    · exact yields_throw _
    · next r hr => exact yields_pure (hb e r hr)

theorem yields_keepRegion (hb : b.Nonneg) (container : ComponentId) (e : Edge)
    (hr : ∀ n ∈ r.size, 0 ≤ n) : (keepRegion b container e r).Yields Border.Nonneg := by
  have hset := hb.set e hr
  refine (safe_keep container (a := .border (b.set e (some r))) hset).bind fun _ _ =>
    (safe_modifyTree (fun t => t.sameShape_setHiddens [r.component] r.hidesComponent) fun t ht =>
      ht.setHiddens [r.component] fun _ => r.hidesComponent).bind fun _ _ => yields_pure hset

theorem safe_concludeTransition (container component : ComponentId) (name : RegionName)
    (t : Transition) : (concludeTransition container component name t).Safe :=
  (safe_layout container).bind fun _ _ => (safe_notify component _).bind fun _ _ =>
    yields_pure trivial

theorem safe_beginTransition (container : ComponentId) (name : RegionName) (t : Transition)
    (animate : Bool) : (beginTransition container name t animate).Safe := by
  refine (yields_border container _).bind fun known hknown =>
    (yields_syncBorder hknown).bind fun b hb =>
    (yields_region hb container name _).bind fun er hr =>
    safe_tree.bind fun u _ => (safe_check _).bind fun c _ => ?_
  dsimp only
  split
  · exact yields_throw _
  · refine Yields.bind (Q := fun _ => True) ?_ fun _ _ =>
      (safe_notify er.2.component _).bind fun heard _ => ?_
    · cases er.2.check t with
      | ok _ => exact yields_pure trivial
      | error refusal => exact yields_throw refusal
    · split
      · exact yields_pure trivial
      · split
        · exact (safe_keep container (a := .border (b.set er.1 (some (er.2.start t))))
            (hb.set er.1 hr)).bind fun _ _ => yields_pure trivial
        · exact (yields_keepRegion hb container er.1 (r := er.2.finish t) hr).bind fun _ _ =>
            (safe_concludeTransition container _ name t).bind fun _ _ => yields_pure trivial

theorem safe_completeAnimation (container : ComponentId) (name : RegionName) :
    (completeAnimation container name).Safe := by
  refine (yields_border container _).bind fun b hb =>
    (yields_region hb container name _).bind fun er hr => ?_
  dsimp only
  split
  · exact yields_pure trivial
  · exact (yields_keepRegion hb container er.1 (r := er.2.finish _) hr).bind fun _ _ =>
      (safe_concludeTransition container _ name _).bind fun _ _ => yields_pure trivial

/-- A region that slides, in or out. -/
theorem safe_slide (hb : b.Nonneg) (container : ComponentId) (name : RegionName)
    (operation : RegionOperation) (allowed : Region → Bool) (state : RegionState) :
    (do
      let (e, r) ← region b container name operation
      if !allowed r then throw (r.refuse operation)
      let _ ← keepRegion b container e { r with state }
      layout container : Step Unit).Safe := by
  refine (yields_region hb container name _).bind fun er hr => ?_
  dsimp only
  split
  · exact yields_throw _
  · exact (yields_keepRegion hb container er.1 (r := { er.2 with state }) hr).bind
      fun _ _ => safe_layout container

theorem safe_slideOut (container : ComponentId) (name : RegionName) :
    (slideOut container name).Safe :=
  (yields_border container _).bind fun _ hknown =>
    (yields_syncBorder hknown).bind fun _ hb =>
      safe_slide hb container name .slideOut Region.canSlideOut .floating

theorem safe_slideIn (container : ComponentId) (name : RegionName) :
    (slideIn container name).Safe :=
  (yields_border container _).bind fun _ hb =>
    safe_slide hb container name .slideIn Region.canSlideIn .collapsed

theorem safe_slideInAll (container : ComponentId) (edges : List Edge) (hb : b.Nonneg) :
    (slideInAll container b edges).Safe := by
  induction edges generalizing b with
  | nil => exact yields_pure trivial
  | cons e rest ih =>
    unfold slideInAll
    split
    · exact ih hb
    · next r hr =>
      split
      · exact (yields_keepRegion hb container e (r := { r with state := .collapsed })
          (hb e r hr)).bind fun _ hb' => (ih hb').bind fun _ _ => yields_pure trivial
      · exact ih hb

theorem safe_outsideClick (container : ComponentId) : (outsideClick container).Safe := by
  refine (yields_border container _).bind fun b hb =>
    (safe_slideInAll container Edge.all hb).bind fun closed _ => ?_
  split
  · exact (safe_layout container).bind fun _ _ => yields_pure trivial
  · exact yields_pure trivial

theorem safe_splitMove (container : ComponentId) (name : RegionName) (requested : Int) :
    (splitMove container name requested).Safe := by
  refine (yields_border container _).bind fun b hb =>
    (yields_region hb container name _).bind fun er hr => ?_
  dsimp only
  split
  · exact yields_throw _
  · refine safe_tree.bind fun t _ => (safe_check _).bind fun c _ =>
      (yields_check fun size => SplitBounds.clamp_nonneg).bind fun size hsize => ?_
    have hset : (b.set er.1 (some { er.2 with size := some size })).Nonneg :=
      hb.set er.1 fun n hn => by cases hn; exact hsize
    exact (safe_keep container (a := .border _) hset).bind fun _ _ =>
      (safe_layout container).bind fun _ _ => yields_pure trivial

theorem safe_scrollBy (container : ComponentId) (delta : Int) :
    (scrollBy container delta).Safe := by
  refine yields_get.bind fun s _ => ?_
  split
  · refine (safe_keep container (a := .linear _) trivial).bind fun _ _ => ?_
    split
    · exact yields_pure trivial
    · exact (safe_layout container).bind fun _ _ => yields_pure trivial
  · exact yields_pure trivial

end Step

/-! ## Sequences of calls -/

/-- A call that lays containers out. -/
inductive LayoutCall where
  | layoutRoot (root : ComponentId) (size : Size)
  | layout (container : ComponentId)
  | setActiveItem (container item : ComponentId)
  | region (container : ComponentId) (call : RegionCall)
  | outsideClick (container : ComponentId)
  | scrollBy (container : ComponentId) (delta : Int)

namespace LayoutCall

/-- The call, whatever it answers if it is not refused. -/
def step : LayoutCall → Step Unit
  | .layoutRoot root size => Step.layoutRoot root size
  | .layout container => Step.layout container
  | .setActiveItem container item => do let _ ← Step.setActiveItem container item
  | .region container call => call.step container
  | .outsideClick container => do let _ ← Step.outsideClick container
  | .scrollBy container delta => do let _ ← Step.scrollBy container delta

/-- No root is given a negative size. -/
def Nonneg : LayoutCall → Prop
  | .layoutRoot _ size => size.Nonneg
  | _ => True

/-- No call leaves a negative size. -/
theorem safe (call : LayoutCall) (hcall : call.Nonneg) : call.step.Safe := by
  have hvoid : ∀ {α : Type} {x : Step α}, x.Safe → (do let _ ← x : Step Unit).Safe :=
    fun hx => hx.bind fun _ _ => Step.yields_pure trivial
  cases call with
  | layoutRoot root size => exact Step.safe_layoutRoot root hcall
  | layout container => exact Step.safe_layout container
  | setActiveItem container item => exact hvoid (Step.safe_setActiveItem container item)
  | region container call =>
    cases call with
    | collapse name animate => exact hvoid (Step.safe_beginTransition container name _ animate)
    | expand name animate => exact hvoid (Step.safe_beginTransition container name _ animate)
    | completeAnimation name => exact hvoid (Step.safe_completeAnimation container name)
    | slideOut name => exact Step.safe_slideOut container name
    | slideIn name => exact Step.safe_slideIn container name
    | splitMove name requested => exact hvoid (Step.safe_splitMove container name requested)
  | outsideClick container => exact hvoid (Step.safe_outsideClick container)
  | scrollBy container delta => exact hvoid (Step.safe_scrollBy container delta)

end LayoutCall

/-- No component ever gets a negative size. In the tree, no configured or intrinsic length and no
bound is negative, no component is measured with a negative size, and none has one to begin with.
Whatever else is configured, and whatever sizes containers offer: roots get sizes that are not
negative, containers are laid out, items become active, regions are called on, floating regions are
put back and lines are scrolled, in any order and refused or not. Then no component has a rectangle
of negative width or height. -/
theorem sizes_stay_nonneg {tree : Tree} {host : Host} {calls : List LayoutCall} {s : Scene}
    (hconfigs : ∀ i c, tree.get? i = some c → c.config.Nonneg)
    (hmeasures : ∀ i c, tree.get? i = some c → (host.measure i c.config).Nonneg)
    (hrects : ∀ i c, tree.get? i = some c → c.state.rect.size.Nonneg)
    (hcalls : ∀ call ∈ calls, call.Nonneg)
    (h : (Scene.ofTree tree host).after (calls.map LayoutCall.step) = .ok s) {i : ComponentId}
    {c : Component} (hc : s.tree.get? i = some c) :
    0 ≤ c.state.rect.width ∧ 0 ≤ c.state.rect.height := by
  have hstart : (Scene.ofTree tree host).Nonneg := by
    refine ⟨fun i c hc => ?_, fun i c hc => ?_, hrects, fun d a ha => nomatch ha⟩
    · obtain ⟨x, hx, rfl⟩ := Option.map_eq_some_iff.1 hc
      exact hconfigs i x hx
    · obtain ⟨x, hx, rfl⟩ := Option.map_eq_some_iff.1 hc
      exact hmeasures i x hx
  have hs : s.Nonneg := by
    refine Scene.after_preserves (fun x hx s s' r hs hrun => ?_) hstart h
    obtain ⟨call, hmem, rfl⟩ := List.mem_map.1 hx
    exact (call.safe (hcalls call hmem) hs hrun).1
  exact ⟨(hs.rects i c hc).width, (hs.rects i c hc).height⟩

section

/-- A window narrower than its side pane, and a page that fills what is left beside the pane. -/
private def crampedWindow : Tree :=
  .ofDescription (.node { layout := some { kind := .border } }
    [.node { region := some .west, width := some 40, collapsible := true } [],
      .node { region := some .center, layout := some { kind := .fit } } [.node {} []]])

/-- The pane collapses and is shown over the page. -/
private def crampedCalls : List LayoutCall :=
  [.layoutRoot 0 ⟨30, 10⟩, .region 0 (.collapse .west false), .region 0 (.slideOut .west)]

theorem cramped_page_stops_at_zero :
    ∃ s c, (Scene.ofTree crampedWindow .standard).after (crampedCalls.map LayoutCall.step) =
        .ok s ∧
      s.tree.get? 3 = some c ∧ c.state.rect = ⟨0, 0, 0, 10⟩ ∧
      0 ≤ c.state.rect.width ∧ 0 ≤ c.state.rect.height := by
  have hall : ∀ c ∈ crampedWindow.components.toList,
      c.config.Nonneg ∧ c.state.rect.size.Nonneg := by decide +kernel
  have hmem : ∀ i c, crampedWindow.get? i = some c → c ∈ crampedWindow.components.toList :=
    fun i c hc => (Array.mem_of_getElem? hc).val
  obtain ⟨s, hs, hview⟩ := Scene.after_of_view
    (show ((Scene.ofTree crampedWindow .standard).after
        (crampedCalls.map LayoutCall.step)).toOption.map (fun s => s.tree.rects[3]?) =
      some (some ⟨0, 0, 0, 10⟩) by decide +kernel)
  obtain ⟨c, hc, hrect⟩ := Tree.get?_of_rects hview
  refine ⟨s, c, hs, hc, hrect, ?_⟩
  exact sizes_stay_nonneg (fun i c hc => (hall c (hmem i c hc)).1)
    (fun i c hc => (hall c (hmem i c hc)).1.contentSize) (fun i c hc => (hall c (hmem i c hc)).2)
    (by simp [crampedCalls, LayoutCall.Nonneg]; decide) hs hc

end

end Trellis
