import Trellis.Proofs.Active.Switching
import Trellis.Proofs.Dirty.Passes
import Trellis.Proofs.Overflow.Turns
import Trellis.Proofs.Relayout.Twice
import Trellis.Proofs.Requests.Gathering
import Trellis.Proofs.Sizes.Turns

/-!
# Which changes are collected

A client takes the changes from time to time and draws the components that are reported. Between two
collections containers are laid out, regions are called on and layouts are configured. Every
rectangle that changes meanwhile is reported, and so is one that has changed and changed back.
The rectangle of a form field's label is not: a form whose labels grow or go reports only the fields
that move with them.

* `DirtyTurn`: what may happen; `DirtyTurn.Renews`: a turn gives a component a new rectangle.
* `accounts_turn`: no turn makes a component dirty in another way.
* `collected_iff_renewed`: what follows for two collections and the turns between them.
-/
namespace Trellis

namespace LayoutCall

def container : LayoutCall → ComponentId
  | .layoutRoot root _ => root
  | .layout container | .setActiveItem container _ | .region container _ | .outsideClick container
  | .scrollBy container _ => container

end LayoutCall

/-- Report the components whose rectangle has changed, and begin anew. -/
def Step.takeDirty : Step (List ComponentId) := do
  let t ← tree
  modifyTree Tree.clearDirty
  return t.dirtyIds

/-- What may happen to rectangles, and to layouts. -/
inductive DirtyTurn where
  | call (call : LayoutCall)
  | request (container : ComponentId) (now : Nat)
  | serve (call : ServeCall)
  | resize (d : ComponentId) (rect : Rect)
  /-- The host measures, offers sizes or vetoes differently. -/
  | host (h : Host)
  /-- A component gets other layout settings, or none. -/
  | configure (d : ComponentId) (settings : Option LayoutConfig)
  | takeDirty

namespace DirtyTurn

def step : DirtyTurn → Step Unit
  | .call made => made.step
  | .request container now => do let _ ← Step.requestLayout container now
  | .serve served => do let _ ← served.step
  | .resize d rect => Step.modifyTree fun t => t.applyRect d rect
  | .host h => modify fun s => { s with host := h }
  | .configure d settings => Step.modifyTree fun t => t.setLayout d settings
  | .takeDirty => do let _ ← Step.takeDirty

/-- The rectangles that a turn writes before it lays anything out. -/
def written : DirtyTurn → List Placement
  | .call (.layoutRoot root size) => [⟨root, ⟨0, 0, size.width, size.height⟩⟩]
  | .resize d rect => [⟨d, rect⟩]
  | _ => []

/-- The containers that a turn lays out, unless it is refused or finds nothing to do. -/
def containers (s : Scene) : DirtyTurn → List ComponentId
  | .call made => [made.container]
  | .request container _ => [container]
  | .serve served => served.due s
  | _ => []

end DirtyTurn

namespace Scene

variable {s s' t u laid : Scene} {c i : ComponentId} {xs : List ComponentId}
  {r : Except LayoutError Unit}

/-! ## Turns around passes -/

/-- What a turn does before it lays containers out: it hides and shows components, and changes what
is kept for these containers, what waits and what has been said. -/
structure Leads (containers : List ComponentId) (s t : Scene) : Prop where
  host : t.host = s.host
  shape : s.tree.SameShape t.tree
  kept : ∀ i, i ∉ containers → t.kept.get? i = s.kept.get? i
  mark : t.tree.mark? = s.tree.mark?

namespace Leads

theorem refl (xs : List ComponentId) (s : Scene) : Leads xs s s :=
  ⟨rfl, .refl s.tree, fun _ _ => rfl, rfl⟩

theorem trans (h : Leads xs s t) (h' : Leads xs t u) : Leads xs s u :=
  ⟨h'.host.trans h.host, h.shape.trans h'.shape, fun i hi => (h'.kept i hi).trans (h.kept i hi),
    h'.mark.trans h.mark⟩

theorem of_tree (hhost : t.host = s.host) (htree : t.tree = s.tree)
    (hkept : ∀ i, i ∉ xs → t.kept.get? i = s.kept.get? i) : Leads xs s t := by
  refine ⟨hhost, ?_, hkept, by rw [htree]⟩
  rw [htree]
  exact .refl s.tree

theorem of_silent (h : Silent s t) : Leads xs s t :=
  .of_tree h.host h.tree fun _ _ => by rw [h.kept]

theorem insert (s : Scene) (c : ComponentId) (a : Arrangement) :
    Leads [c] s { s with kept := s.kept.insert c a } :=
  .of_tree rfl rfl fun i hi => by
    rw [IdMap.get?_insert, if_neg (List.ne_of_not_mem_cons hi)]

theorem changed (s : Scene) (c : ComponentId) (b : Border) (e : Edge) (r : Region) (shows : Bool) :
    Leads [c] s (s.changed c b e r shows) := by
  refine ⟨rfl, (s.agree_changed c b e r shows).toSameShape, fun i hi => ?_, ?_⟩
  · rw [kept_changed, if_neg (List.ne_of_not_mem_cons hi)]
  · cases shows with
    | false => rfl
    | true => exact s.tree.mark?_setHidden r.component r.hidesComponent

end Leads

theorem Elsewhere.leads (h : Elsewhere c s t) : Leads [c] s t :=
  .of_tree h.host h.tree fun i hi => h.kept i (List.ne_of_not_mem_cons hi)

theorem Finds.leads {picks : Bool} {b : Border} (h : Finds c picks s b t) : Leads [c] s t := by
  refine ⟨h.host, h.shape, fun i hi => ?_, ?_⟩
  · rw [h.kept, if_neg (List.ne_of_not_mem_cons hi)]
  · obtain ⟨-, -, htree⟩ | ⟨-, slots, -, -, htree⟩ := h.found
    · rw [htree]
    · rw [htree]
      exact s.tree.mark?_setHiddens _ fun _ => true

theorem SlidesIn.leads {b b' : Border} (h : SlidesIn c s b t b') : Leads [c] s t := by
  induction h with
  | done => exact .refl _ _
  | step known allowed rest ih => exact (Leads.changed ..).trans ih

/-- The passes of a turn: where they begin and what they leave. -/
structure Passage where
  start : Scene
  finish : Scene

/-- Between `s` and `s'` nothing is done to rectangles but by passes over the containers, one after
the other. -/
structure Passage.Between (p : Passage) (containers : List ComponentId) (s s' : Scene) : Prop where
  leads : s.Leads containers p.start
  run : ∃ r, p.start.run (containers.forM Step.pass) = .ok (r, p.finish)
  silent : Silent p.finish s'

theorem Passage.Between.accounts {p : Passage} (h : p.Between xs s s') (i : ComponentId) :
    s.tree.Accounts s'.tree i (p.start.RenewsIn i xs) := by
  obtain ⟨r, hrun⟩ := h.run
  have hpasses := ((Tree.Accounts.of_same h.leads.mark i).trans (accounts_passes hrun)).trans
    (.of_same (congrArg _ h.silent.tree) i)
  exact hpasses.congr (by rw [or_false, false_or])

/-- What a turn comes to: its passes run, or it does nothing to rectangles. -/
def ComesTo (containers : List ComponentId) (s s' : Scene) : Prop :=
  (∃ p : Passage, p.Between containers s s') ∨ s'.tree.mark? = s.tree.mark?

theorem run_forM_singleton {f : ComponentId → Step Unit} (h : s.run (f c) = .ok (r, s')) :
    s.run ([c].forM f) = .ok (r, s') := by
  rw [List.forM, run_bind, h, Length.ok_bind]
  cases r <;> rfl

theorem comesTo_layout (hleads : Leads [c] s t) (hrun : t.run (Step.layout c) = .ok (r, laid))
    (hsilent : Silent laid s') : ComesTo [c] s s' := by
  have hrelieved : Leads [c] t (t.relieved c) := .of_tree rfl rfl fun _ _ => rfl
  exact .inl ⟨⟨t.relieved c, laid⟩, hleads.trans hrelieved, ⟨r, run_forM_singleton hrun⟩, hsilent⟩

/-! ## What each turn comes to -/

theorem comesTo_handOver {item : ComponentId} {previous : Option ComponentId}
    {y : Except LayoutError Bool} (hleads : Leads [c] s t)
    (h : t.run (Step.handOver c item previous) = .ok (y, s')) : ComesTo [c] s s' := by
  have hactivate : ∀ {told : Scene}, Leads [c] s told → told.run (do
      Step.layout c
      let _ ← Step.notify item .activate
      pure true) = .ok (y, s') → ComesTo [c] s s' := by
    intro told htold hrun
    obtain ⟨laid, hlayout, hsilent⟩ := run_layout_then (fun laid =>
      ⟨true, laid.told item .activate, silent_told .., by rw [run_bind, run_notify_eq]; rfl⟩) hrun
    exact comesTo_layout htold hlayout hsilent
  unfold Step.handOver at h
  split at h
  · cases h
    exact .inr hleads.mark
  cases previous with
  | none => exact hactivate hleads h
  | some id =>
    dsimp only at h
    rw [run_bind, run_notify_eq, Length.ok_bind] at h
    exact hactivate (hleads.trans (.of_silent (silent_told ..))) h

theorem comesTo_setActiveItem {item : ComponentId} {y : Except LayoutError Bool}
    (h : s.run (Step.setActiveItem c item) = .ok (y, s')) : ComesTo [c] s s' := by
  rw [Step.setActiveItem, run_bind, run_layoutConfig] at h
  cases hlayout : s.tree.layoutOf c with
  | error e =>
    rw [hlayout] at h
    cases h
    exact .inr rfl
  | ok layout =>
    rw [hlayout, Length.ok_bind] at h
    dsimp only at h
    rw [run_bind, run_tree, Length.ok_bind] at h
    dsimp only at h
    split at h
    · cases h
      exact .inr rfl
    rw [run_bind, run_arrangement hlayout, Length.ok_bind] at h
    dsimp only at h
    generalize s.arrangement layout c = a at h
    have hchosen : Leads [c] s (s.chosen c a item) :=
      (Leads.insert s c a).trans (Leads.insert _ c (a.activate item))
    cases a with
    | card active => exact comesTo_handOver hchosen h
    | accordion active => exact comesTo_handOver hchosen h
    | _ =>
      cases h
      exact .inr rfl

theorem comesTo_does {call : RegionCall} (h : Does call c s r s') : ComesTo [c] s s' := by
  cases h with
  | elsewhere helsewhere => exact .inr helsewhere.leads.mark
  | rests hfinds => exact .inr hfinds.leads.mark
  | begins hfinds => exact .inr (hfinds.leads.trans (.changed ..)).mark
  | lays hfinds _ _ _ hrun hsilent =>
    exact comesTo_layout (hfinds.leads.trans (.changed ..)) hrun hsilent

theorem comesTo_outsideClick {y : Except LayoutError (List RegionName)}
    (h : s.run (Step.outsideClick c) = .ok (y, s')) : ComesTo [c] s s' := by
  obtain helsewhere | ⟨t, hfinds, rfl | ⟨b, mid, laid, hslides, hlayout, hsilent⟩⟩ :=
    run_outsideClick_eq_ok h
  · exact .inr helsewhere.leads.mark
  · exact .inr hfinds.leads.mark
  · exact comesTo_layout (hfinds.leads.trans hslides.leads) hlayout hsilent

theorem comesTo_scrollBy {delta : Int} {y : Except LayoutError Bool}
    (h : s.run (Step.scrollBy c delta) = .ok (y, s')) : ComesTo [c] s s' := by
  obtain ⟨-, rfl⟩ | ⟨axis, handler, -, ⟨-, rfl⟩ | ⟨-, x, hlayout⟩⟩ := run_scrollBy_cases h
  · exact .inr rfl
  · exact .inr rfl
  · exact comesTo_layout (.insert s c _) hlayout (.refl s')

theorem comesTo_requestLayout {now : Nat} {y : Except LayoutError Bool}
    (h : s.run (Step.requestLayout c now) = .ok (y, s')) : ComesTo [c] s s' := by
  cases hlayout : s.tree.layoutOf c with
  | error e =>
    rw [run_requestLayout_unknown hlayout] at h
    cases h
    exact .inr rfl
  | ok layout =>
    cases hwindow : layout.window? with
    | none =>
      rw [run_requestLayout_immediate hlayout hwindow] at h
      obtain ⟨⟨x, laid⟩, hrun, h⟩ := Length.bind_eq_ok.1 h
      cases h
      exact comesTo_layout (.refl _ s) hrun (.refl laid)
    | some window =>
      rw [run_requestLayout_gathered hlayout hwindow] at h
      cases h
      exact .inr rfl

theorem comesTo_serve {call : ServeCall} {y : Except LayoutError (List ComponentId)}
    (h : s.run call.step = .ok (y, s')) : ComesTo (call.due s) s s' := by
  obtain ⟨x, hpasses, -⟩ := ServeCall.run_step_eq_ok.1 h
  exact .inl ⟨⟨call.taken s, s'⟩, .of_tree rfl rfl fun _ _ => rfl, ⟨x, hpasses⟩, .refl s'⟩

end Scene

namespace DirtyTurn

open Scene

variable {s s' : Scene} {i : ComponentId} {turn : DirtyTurn} {turns : List DirtyTurn}
  {r : Except LayoutError Unit}

/-- The scene once the turn has written its own rectangles. -/
def begun (turn : DirtyTurn) (s : Scene) : Scene :=
  { s with tree := s.tree.applyPlacements turn.written }

theorem comesTo_call {made : LayoutCall} (h : s.run made.step = .ok (r, s')) :
    ComesTo [made.container] (begun (.call made) s) s' := by
  cases made with
  | layoutRoot root size => exact comesTo_layout (.refl _ _) h (.refl s')
  | layout container => exact comesTo_layout (.refl _ _) h (.refl s')
  | setActiveItem container item =>
    obtain ⟨y, hrun, -⟩ := run_void_eq_ok h
    exact comesTo_setActiveItem hrun
  | region container call => exact comesTo_does (does_step h)
  | outsideClick container =>
    obtain ⟨y, hrun, -⟩ := run_void_eq_ok h
    exact comesTo_outsideClick hrun
  | scrollBy container delta =>
    obtain ⟨y, hrun, -⟩ := run_void_eq_ok h
    exact comesTo_scrollBy hrun

theorem comesTo_step (hturn : turn ≠ .takeDirty) (h : s.run turn.step = .ok (r, s')) :
    ComesTo (turn.containers s) (turn.begun s) s' := by
  cases turn with
  | call made => exact comesTo_call h
  | request container now =>
    obtain ⟨y, hrun, -⟩ := run_void_eq_ok h
    exact comesTo_requestLayout hrun
  | serve served =>
    obtain ⟨y, hrun, -⟩ := run_void_eq_ok h
    exact comesTo_serve hrun
  | resize d rect =>
    cases h
    exact .inr rfl
  | host g =>
    cases h
    exact .inr rfl
  | configure d settings =>
    cases h
    refine .inr (funext fun i => ?_)
    exact Tree.eq_at_setLayout (g := fun o => o.map (·.state.mark)) (fun _ => rfl) s.tree d i
  | takeDirty => exact absurd rfl hturn

/-- The turn, which leads from `s` to `s'`, gives the component a rectangle that is new to it: by
itself, or by the layout of a container that its passes come to. -/
def Renews (turn : DirtyTurn) (i : ComponentId) (s s' : Scene) : Prop :=
  s.tree.Alters i turn.written ∨ ∃ p : Passage,
    p.Between (turn.containers s) (turn.begun s) s' ∧ p.start.RenewsIn i (turn.containers s)

/-- Who becomes dirty in the course of a turn. -/
theorem accounts_turn (hturn : turn ≠ .takeDirty) (h : s.run turn.step = .ok (r, s')) :
    s.tree.Accounts s'.tree i (turn.Renews i s s') := by
  have hwritten : s.tree.Accounts (turn.begun s).tree i (s.tree.Alters i turn.written) :=
    Tree.accounts_applyPlacements rfl i
  exact hwritten.trans (.of_given (fun p hp => hp.accounts i) (comesTo_step hturn h))

/-- One of the turns, from `s` on, gives the component a rectangle that is new to it. -/
def Renewed (i : ComponentId) (s : Scene) (turns : List DirtyTurn) : Prop :=
  ∃ before turn rest mid next r, turns = before ++ turn :: rest ∧
    s.after (before.map step) = .ok mid ∧ mid.run turn.step = .ok (r, next) ∧
    turn.Renews i mid next

theorem renewed_cons {mid : Scene} (hrun : s.run turn.step = .ok (r, mid)) :
    Renewed i s (turn :: turns) ↔ turn.Renews i s mid ∨ Renewed i mid turns := by
  constructor
  · rintro ⟨_ | ⟨first, before⟩, other, rest, u, next, x, hturns, hbefore, hother, hrenews⟩
    · cases hturns
      cases hbefore
      rw [hrun] at hother
      cases hother
      exact .inl hrenews
    · cases hturns
      rw [List.map_cons, Scene.after, hrun] at hbefore
      exact .inr ⟨before, other, rest, u, next, x, rfl, hbefore, hother, hrenews⟩
  · rintro (hrenews | ⟨before, other, rest, u, next, x, rfl, hbefore, hother, hrenews⟩)
    · exact ⟨[], turn, turns, s, mid, r, rfl, rfl, hrun, hrenews⟩
    · refine ⟨turn :: before, other, rest, u, next, x, rfl, ?_, hother, hrenews⟩
      rw [List.map_cons, Scene.after, hrun]
      exact hbefore

theorem not_renewed_nil : ¬ Renewed i s [] := by
  rintro ⟨before, turn, rest, -, -, -, hturns, -⟩
  simp at hturns

/-- Who becomes dirty in the course of several turns. -/
theorem accounts_turns (hturns : DirtyTurn.takeDirty ∉ turns)
    (h : s.after (turns.map step) = .ok s') :
    s.tree.Accounts s'.tree i (Renewed i s turns) := by
  induction turns generalizing s with
  | nil =>
    cases h
    exact (Tree.Accounts.of_same rfl i).congr (iff_of_false id not_renewed_nil)
  | cons turn rest ih =>
    rw [List.mem_cons, not_or] at hturns
    obtain ⟨⟨r, mid⟩, hrun, hrest⟩ := Length.bind_eq_ok.1 h
    exact ((accounts_turn (Ne.symm hturns.1) hrun).trans (ih hturns.2 hrest)).congr
      (renewed_cons hrun).symm

theorem dirtyIds_of_taken {before : List DirtyTurn} {s₀ : Scene}
    (h : s₀.after ((before ++ [DirtyTurn.takeDirty]).map step) = .ok s) : s.tree.dirtyIds = [] := by
  induction before generalizing s₀ with
  | nil =>
    cases h
    exact s₀.tree.dirtyIds_clearDirty
  | cons turn rest ih =>
    obtain ⟨⟨r, mid⟩, -, hrest⟩ := Length.bind_eq_ok.1 h
    exact ih hrest

end DirtyTurn

theorem Scene.run_takeDirty (s : Scene) : s.run Step.takeDirty =
    .ok (.ok s.tree.dirtyIds, { s with tree := s.tree.clearDirty }) :=
  rfl

/-- A component is reported exactly if one of its rectangles was new. Changes are taken, which
leaves `s`. Then any containers are laid out, regions are called on, components get sizes, layouts
are configured and hosts change, refused or not, until changes are taken again. What is reported
then is in ascending order and without repetition, and it is every component that has been given its
first rectangle since, or another one than it had at that moment, be it by a call, by its parent's
layout in the first or the second round, or by a layout further down in a pass. So every component
is reported whose rectangle is another one than in `s`. No other one is: neither one that was given
the same rectangle over and over, nor one of which only the label has changed. -/
theorem collected_iff_renewed {s₀ s s' : Scene} {before since : List DirtyTurn}
    (hbefore : s₀.after ((before ++ [DirtyTurn.takeDirty]).map DirtyTurn.step) = .ok s)
    (hsince : DirtyTurn.takeDirty ∉ since) (hafter : s.after (since.map DirtyTurn.step) = .ok s') :
    ∃ ids, s'.run Step.takeDirty = .ok (.ok ids, { s' with tree := s'.tree.clearDirty }) ∧
      ids.Pairwise (· < ·) ∧ ∀ i, (i ∈ ids ↔ DirtyTurn.Renewed i s since) ∧
        (s'.tree.rect? i ≠ s.tree.rect? i → i ∈ ids) := by
  refine ⟨_, s'.run_takeDirty, s'.tree.pairwise_dirtyIds, fun i => ?_⟩
  have haccounts := DirtyTurn.accounts_turns (i := i) hsince hafter
  have hrenewed : i ∈ s'.tree.dirtyIds ↔ DirtyTurn.Renewed i s since := by
    rw [haccounts.dirty, DirtyTurn.dirtyIds_of_taken hbefore]
    simp
  exact ⟨hrenewed, fun hchanged => hrenewed.2 (by_contra fun hnone =>
    hchanged (haccounts.rect hnone))⟩

section

private def loginForm (labelHeight : Int) : LayoutConfig :=
  { kind := .form, labelWidth := 50, labelHeight }

/-- A form with two fields, each with a label on its left. -/
private def loginPage : Scene :=
  .ofTree (.ofDescription (.node { layout := some (loginForm 20) }
    [.node { width := some 120, height := some 30 } [],
      .node { width := some 120, height := some 30 } []])) .standard

/-- The form gets taller labels, and another size of its own. -/
private def tallerLabels : List DirtyTurn :=
  [.configure 0 (some (loginForm 30)), .call (.layoutRoot 0 ⟨300, 100⟩)]

private def labelOf (t : Tree) (i : ComponentId) : Option Rect :=
  (t.get? i).bind (·.state.labelRect)

/-- The form is reported. Its fields, whose labels have grown, are not. -/
theorem grown_labels_are_not_collected :
    ∃ s s' s'', loginPage.after ([.call (.layoutRoot 0 ⟨200, 100⟩), .takeDirty].map
        DirtyTurn.step) = .ok s ∧
      s.after (tallerLabels.map DirtyTurn.step) = .ok s' ∧
      s'.run Step.takeDirty = .ok (.ok [0], s'') ∧
      labelOf s.tree 1 = some ⟨0, 0, 50, 20⟩ ∧ labelOf s'.tree 1 = some ⟨0, 0, 50, 30⟩ ∧
      s'.tree.rect? 1 = s.tree.rect? 1 ∧ ¬ DirtyTurn.Renewed 1 s tallerLabels := by
  obtain ⟨s, hs, hview⟩ := Scene.after_of_view
    (show (loginPage.after ([.call (.layoutRoot 0 ⟨200, 100⟩), .takeDirty].map
        DirtyTurn.step)).toOption.map (fun s => (labelOf s.tree 1,
          (s.after (tallerLabels.map DirtyTurn.step)).toOption.map fun s' =>
            (s'.tree.dirtyIds, labelOf s'.tree 1))) =
      some (some ⟨0, 0, 50, 20⟩, some ([0], some ⟨0, 0, 50, 30⟩)) by decide +kernel)
  obtain ⟨hold, hview⟩ := Prod.mk.inj hview
  obtain ⟨s', hs', hview⟩ := Scene.after_of_view hview
  obtain ⟨hdirty, hnew⟩ := Prod.mk.inj hview
  have hbefore : loginPage.after (([DirtyTurn.call (.layoutRoot 0 ⟨200, 100⟩)] ++
      [DirtyTurn.takeDirty]).map DirtyTurn.step) = .ok s := hs
  obtain ⟨ids, hrun, -, hids⟩ := collected_iff_renewed hbefore (by simp [tallerLabels]) hs'
  obtain rfl : ids = [0] := by
    rw [s'.run_takeDirty, hdirty] at hrun
    cases hrun
    rfl
  obtain ⟨hrenewed, hchanged⟩ := hids 1
  have hnone : 1 ∉ [0] := by decide
  exact ⟨s, s', _, hs, hs', hrun, hold, hnew, by_contra fun hne => hnone (hchanged hne),
    fun h => hnone (hrenewed.2 h)⟩

end

end Trellis
