import Trellis.Proofs.Passes.Frame
import Trellis.Proofs.Region.Refusals
import Trellis.Proofs.Requests.Ancestors

/-!
# Components that have left

A call that collapses, expands or slides out a region picks up the regions of its container first,
so it finds children only. The calls that bring a region to rest do not: they take the regions as an
earlier pass has left them. The component of such a region may have been taken out of the container
since, and may be in another one.

* `ClosingCall`: these calls; `ClosingCall.closed`: the regions that a call brings to rest.
* `run_closing_eq_ok`: what such a call comes to.
* `spares_outside`: a pass over a container spares all but its descendants, in any tree.
* `isHidden_of_closing`: what becomes of the hidden flags of all other components.
* `closing_call_flags_iff`: when a call changes hidden flags of descendants only.
-/
namespace Trellis

/-- A call that brings regions to rest, as they are known. -/
inductive ClosingCall where
  | completeAnimation (name : RegionName)
  | slideIn (name : RegionName)
  | outsideClick
  deriving DecidableEq, Repr

namespace ClosingCall

/-- The call, whatever it answers if it is not refused. -/
def step (container : ComponentId) : ClosingCall → Step Unit
  | .completeAnimation name => do let _ ← Step.completeAnimation container name
  | .slideIn name => Step.slideIn container name
  | .outsideClick => do let _ ← Step.outsideClick container

/-- The edges at which the call looks for regions. -/
def edges : ClosingCall → List Edge
  | .completeAnimation name | .slideIn name => name.edge?.toList
  | .outsideClick => Edge.all

/-- The region at rest, if the call brings it to rest. -/
def closes (call : ClosingCall) (r : Region) : Option Region :=
  match call with
  | .completeAnimation _ => r.pending.map r.finish
  | .slideIn _ | .outsideClick =>
    if r.canSlideIn then some { r with state := .collapsed } else none

/-- The regions that the call brings to rest, as it leaves them. -/
def closed (call : ClosingCall) (b : Border) : List Region :=
  call.edges.filterMap fun e => (b.get e).bind call.closes

theorem closed_eq_nil {call : ClosingCall} {b : Border} {name : RegionName}
    (hedges : call.edges = name.edge?.toList) (hnone : name.edge?.bind b.get = none) :
    call.closed b = [] := by
  unfold closed
  rw [hedges]
  cases hedge : name.edge? with
  | none => rfl
  | some e =>
    rw [hedge, Option.bind_some] at hnone
    simp [hnone]

theorem closed_eq {call : ClosingCall} {b : Border} {e : Edge} {r : Region}
    (hedges : call.edges = e.region.edge?.toList) (hr : b.get e = some r) :
    call.closed b = (call.closes r).toList := by
  unfold closed
  rw [hedges, RegionName.edge?_region]
  cases hcloses : call.closes r <;> simp [hr, hcloses]

/-- A call either hides the components of the regions that it brings to rest, or shows them. -/
theorem exists_hides (call : ClosingCall) (b : Border) :
    ∃ hidden, ∀ r ∈ call.closed b, r.hidesComponent = hidden := by
  have hcollapsed : ∀ {call : ClosingCall}, (∀ q r, call.closes q = some r → r.state = .collapsed) →
      ∀ r ∈ call.closed b, r.hidesComponent = true := by
    intro call hcloses r hr
    obtain ⟨e, -, hr⟩ := List.mem_filterMap.1 hr
    obtain ⟨q, -, hr⟩ := Option.bind_eq_some_iff.1 hr
    simp [Region.hidesComponent, hcloses q r hr]
  cases call with
  | completeAnimation name =>
    -- there is one such region at most
    cases hknown : name.edge?.bind b.get with
    | none => exact ⟨true, by rw [closed_eq_nil rfl hknown]; simp⟩
    | some q =>
      obtain ⟨e, hedge, hq⟩ := Option.bind_eq_some_iff.1 hknown
      obtain rfl := RegionName.region_of_edge? hedge
      rw [closed_eq rfl hq]
      cases closes (.completeAnimation e.region) q with
      | none => exact ⟨true, by simp⟩
      | some r => exact ⟨r.hidesComponent, by simp⟩
  | slideIn name =>
    refine ⟨true, hcollapsed fun q r hr => ?_⟩
    obtain ⟨-, rfl⟩ := by simpa [closes] using hr
    rfl
  | outsideClick =>
    refine ⟨true, hcollapsed fun q r hr => ?_⟩
    obtain ⟨-, rfl⟩ := by simpa [closes] using hr
    rfl

end ClosingCall

namespace Tree

theorem SameShape.isDescendantOf_eq {t u : Tree} (h : t.SameShape u) :
    t.isDescendantOf = u.isDescendantOf := by
  funext i c
  rw [Bool.eq_iff_iff, isDescendantOf_iff, isDescendantOf_iff, h.parent?_eq, h.inside_eq]

/-- The tree in which the components of the regions are hidden or shown accordingly. -/
def following (t : Tree) (rs : List Region) : Tree :=
  rs.foldl (fun t r => t.setHidden r.component r.hidesComponent) t

theorem sameShape_following (t : Tree) (rs : List Region) : t.SameShape (t.following rs) := by
  induction rs generalizing t with
  | nil => exact .refl t
  | cons r rs ih =>
    exact (t.sameShape_setHiddens [r.component] r.hidesComponent).trans (ih _)

/-- Components of regions that all hide or all show theirs, and the other components. -/
theorem isHidden_following {rs : List Region} {hidden : Bool}
    (hrs : ∀ r ∈ rs, r.hidesComponent = hidden) (t : Tree) (i : ComponentId) :
    (t.following rs).isHidden i =
      if i ∈ rs.map Region.component then t.contains i && hidden else t.isHidden i := by
  induction rs generalizing t with
  | nil => rfl
  | cons r rs ih =>
    have hshape : t.SameShape (t.setHidden r.component r.hidesComponent) :=
      t.sameShape_setHiddens [r.component] r.hidesComponent
    have hfirst := t.isHidden_setHidden r.component i r.hidesComponent
    rw [← contains_eq_isSome, hrs r (by simp)] at hfirst
    change ((t.setHidden r.component r.hidesComponent).following rs).isHidden i = _
    rw [ih fun q hq => hrs q (by simp [hq])]
    by_cases hmem : i ∈ rs.map Region.component
    · rw [if_pos hmem, if_pos (by simp [hmem]), ← hshape.contains_eq]
    · rw [if_neg hmem, hrs r (by simp), hfirst]
      by_cases heq : r.component = i
      · rw [if_pos heq, if_pos (by simp [heq])]
      · rw [if_neg heq, if_neg (by simp [hmem, Ne.symm heq])]

end Tree

namespace Scene

variable {s s' t : Scene} {c : ComponentId} {b : Border} {r : Except LayoutError Unit}

/-! ## What the calls come to -/

/-- Putting back the floating regions at several edges hides their components. -/
theorem tree_slideInAll {edges : List Edge} (hnodup : edges.Nodup)
    {x : Except LayoutError (List RegionName)}
    (h : s.run (Step.slideInAll c b edges) = .ok (x, s')) :
    s'.tree = s.tree.following
      (edges.filterMap fun e => (b.get e).bind ClosingCall.outsideClick.closes) := by
  induction edges generalizing s s' b x with
  | nil =>
    cases h
    rfl
  | cons e edges ih =>
    rw [List.nodup_cons] at hnodup
    unfold Step.slideInAll at h
    cases hr : b.get e with
    | none =>
      rw [hr] at h
      rw [List.filterMap_cons, hr]
      exact ih hnodup.2 h
    | some r =>
      rw [hr] at h
      dsimp only at h
      split at h
      · next hallowed =>
        -- the regions at the other edges are still as they were
        have hothers : (edges.filterMap fun f =>
              ((b.set e (some { r with state := .collapsed })).get f).bind
                ClosingCall.outsideClick.closes) =
            edges.filterMap fun f => (b.get f).bind ClosingCall.outsideClick.closes := by
          refine List.filterMap_congr fun f hf => ?_
          rw [Border.get_set, if_neg]
          rintro rfl
          exact hnodup.1 hf
        have hrest : ∀ {x : Except LayoutError (List RegionName)} {t : Scene},
            (s.changed c b e { r with state := .collapsed } true).run (Step.slideInAll c
              (b.set e (some { r with state := .collapsed })) edges) = .ok (x, t) →
            t.tree = s.tree.following ((e :: edges).filterMap fun f =>
              (b.get f).bind ClosingCall.outsideClick.closes) := by
          intro x t hrun
          rw [ih hnodup.2 hrun, hothers, List.filterMap_cons, hr, Option.bind_some,
            ClosingCall.closes, if_pos hallowed]
          rfl
        rw [run_keepRegion_then] at h
        obtain ⟨_, hrun, -⟩ | ⟨_, t, hrun, h⟩ := run_bind_cases h
        · exact hrest hrun
        · cases h
          exact hrest hrun
      · next hrefused =>
        rw [List.filterMap_cons, hr, Option.bind_some, ClosingCall.closes, if_neg hrefused]
        exact ih hnodup.2 h

/-- The call has hidden or shown the components of some regions, and has laid out the container
after that or has not. -/
def Closes (c : ComponentId) (rs : List Region) (s s' : Scene) : Prop :=
  ∃ mid, mid.tree = s.tree.following rs ∧
    (s' = mid ∨ ∃ y laid, mid.run (Step.layout c) = .ok (y, laid) ∧ Silent laid s')

theorem run_closing_eq_ok {call : ClosingCall} (hc : s.Bordered c)
    (h : s.run (call.step c) = .ok (r, s')) : Closes c (call.closed (s.regions c)) s s' := by
  have hrests : ∀ {t : Scene} {rs : List Region}, rs = [] → t.tree = s.tree →
      Closes c rs s t := by
    rintro t _ rfl htree
    exact ⟨t, htree, .inl rfl⟩
  have hchanged : ∀ {t : Scene} {e : Edge} {q : Region}, t.tree = s.tree →
      (t.changed c (s.regions c) e q true).tree = s.tree.following [q] := by
    intro t e q htree
    rw [← htree]
    rfl
  cases call with
  | completeAnimation name =>
    obtain ⟨x, h, -⟩ := run_void_eq_ok h
    obtain ⟨_, -, helsewhere⟩ | ⟨t, -, htree, h⟩ := run_border_then h
    · exact absurd hc helsewhere.other
    obtain ⟨hnone, -, rfl⟩ | ⟨e, q, rfl, hq, h⟩ := run_region_then h
    · exact hrests (ClosingCall.closed_eq_nil rfl hnone) htree
    rw [ClosingCall.closed_eq rfl hq]
    dsimp only at h
    split at h
    · next hpending =>
      cases h
      exact hrests (by simp [ClosingCall.closes, hpending]) htree
    · next tr hpending =>
      rw [run_keepRegion_then] at h
      obtain ⟨laid, hlayout, hafter⟩ := run_conclude_then h
      refine ⟨_, ?_, .inr ⟨_, laid, hlayout, hafter⟩⟩
      rw [hchanged htree, ClosingCall.closes, hpending]
      rfl
  | slideIn name =>
    obtain ⟨_, -, helsewhere⟩ | ⟨t, -, htree, h⟩ := run_border_then h
    · exact absurd hc helsewhere.other
    obtain ⟨hnone, -, rfl⟩ | ⟨e, q, rfl, hq, h⟩ := run_region_then h
    · exact hrests (ClosingCall.closed_eq_nil rfl hnone) htree
    rw [ClosingCall.closed_eq rfl hq]
    dsimp only at h
    split at h
    · next hrefused =>
      cases h
      exact hrests (by simpa [ClosingCall.closes] using hrefused) htree
    · next hallowed =>
      rw [run_keepRegion_then] at h
      refine ⟨_, ?_, .inr ⟨_, s', h, .refl s'⟩⟩
      rw [hchanged htree, ClosingCall.closes, if_pos (by simpa using hallowed)]
      rfl
  | outsideClick =>
    obtain ⟨x, h, -⟩ := run_void_eq_ok h
    obtain ⟨_, -, helsewhere⟩ | ⟨t, -, htree, h⟩ := run_border_then h
    · exact absurd hc helsewhere.other
    have hslid : ∀ {y : Except LayoutError (List RegionName)} {mid : Scene},
        t.run (Step.slideInAll c (s.regions c) Edge.all) = .ok (y, mid) →
        mid.tree = s.tree.following (ClosingCall.outsideClick.closed (s.regions c)) := by
      intro y mid hrun
      rw [tree_slideInAll (by decide) hrun, htree]
      rfl
    obtain ⟨_, hrun, -⟩ | ⟨names, mid, hrun, h⟩ := run_bind_cases h
    · exact ⟨s', hslid hrun, .inl rfl⟩
    split at h
    · obtain ⟨laid, hlayout, hafter⟩ :=
        run_layout_then (fun laid => ⟨names, laid, .refl laid, rfl⟩) h
      exact ⟨mid, hslid hrun, .inr ⟨_, laid, hlayout, hafter⟩⟩
    · cases h
      exact ⟨s', hslid hrun, .inl rfl⟩

/-! ## What passes spare -/

/-- Passes over containers inside `c` spare what is no descendant of `c`. -/
theorem preserved_outside (hlinked : s.tree.Linked) (c : ComponentId) :
    Preserved (s.tree.Inside c)
      (fun t => s.tree.Spares (fun i => s.tree.isDescendantOf i c = false) t.tree) := by
  have hchild : ∀ {t : Scene} {d i},
      s.tree.Spares (fun i => s.tree.isDescendantOf i c = false) t.tree → s.tree.Inside c d →
      i ∈ t.tree.children d → s.tree.isDescendantOf i c = true := by
    intro t d i ht hd hi
    rw [← ht.toSameShape.children_eq, hlinked.mem_children] at hi
    exact Tree.isDescendantOf_iff.2 ⟨d, hi, hd⟩
  have hstep : ∀ {t : Scene} {u : Tree} {d},
      s.tree.Spares (fun i => s.tree.isDescendantOf i c = false) t.tree → s.tree.Inside c d →
      t.tree.Spares (· ∉ t.tree.children d) u →
      s.tree.Spares (fun i => s.tree.isDescendantOf i c = false) u := by
    intro t u d ht hd hu
    refine ht.trans (hu.mono fun i hi hmem => ?_)
    rw [hchild ht hd hmem] at hi
    cases hi
  constructor
  · intro t u hsilent ht
    rw [hsilent.tree]
    exact ht
  · intro t d ht hd x hx
    rw [← ht.toSameShape.children_eq, hlinked.mem_children] at hx
    exact .head hx hd
  · intro t d layout ht hd _
    exact hstep ht hd (t.tree.spares_renderChildren d)
  · intro t u d layout a r ht hd _ _ _ hrun
    exact hstep ht hd (spares_arrange (ht.toSameShape.linked hlinked) hrun)

theorem spares_outside (hlinked : s.tree.Linked)
    (h : s.run (Step.layout c) = .ok (r, s')) :
    s.tree.Spares (fun i => s.tree.isDescendantOf i c = false) s'.tree :=
  (preserved_outside hlinked c).of_layout (s.tree.inside_self c) (.refl _ s.tree) h

/-! ## What the calls leave of hidden flags -/

/-- What is no descendant is hidden or shown with the regions that the call brings to rest, if it is
the component of one, and is left alone otherwise. -/
theorem isHidden_of_closing {call : ClosingCall} {hidden : Bool} {i : ComponentId}
    (hlinked : s.tree.Linked) (hc : s.Bordered c)
    (hhides : ∀ q ∈ call.closed (s.regions c), q.hidesComponent = hidden)
    (hrun : s.run (call.step c) = .ok (r, s')) (hi : s.tree.isDescendantOf i c = false) :
    s'.tree.isHidden i = if i ∈ (call.closed (s.regions c)).map Region.component then
      s.tree.contains i && hidden else s.tree.isHidden i := by
  obtain ⟨mid, hmid, hlaid⟩ := run_closing_eq_ok hc hrun
  have hshape := s.tree.sameShape_following (call.closed (s.regions c))
  rw [← hmid] at hshape
  have hafter : s'.tree.isHidden i = mid.tree.isHidden i := by
    obtain rfl | ⟨y, laid, hlayout, hsilent⟩ := hlaid
    · rfl
    · have hspares := spares_outside (hshape.linked hlinked) hlayout
      rw [← hshape.isDescendantOf_eq] at hspares
      rw [hsilent.tree, Tree.isHidden, hspares.same i hi]
      rfl
  rw [hafter, hmid, Tree.isHidden_following hhides]

end Scene

/-- What a call that brings regions to rest does to the hidden flags of components that are no
descendants of the border container, in whatever state it comes. It changes none of them, unless the
component is that of a region which the call brings to rest: that one is hidden or shown as the
region asks, wherever it is. So the call changes hidden flags of descendants only exactly if each
such region has a component that is a descendant, or that is hidden or shown already. -/
theorem closing_call_flags_iff {s s' : Scene} {c : ComponentId} {call : ClosingCall}
    {x : Except LayoutError Unit} (hlinked : s.tree.Linked) (hc : s.Bordered c)
    (hrun : s.run (call.step c) = .ok (x, s')) :
    (∀ i, s.tree.isDescendantOf i c = false →
      (∀ r ∈ call.closed (s.regions c), r.component ≠ i) →
        s'.tree.isHidden i = s.tree.isHidden i) ∧
    (∀ r ∈ call.closed (s.regions c), s.tree.isDescendantOf r.component c = false →
      s.tree.contains r.component → s'.tree.isHidden r.component = r.hidesComponent) ∧
    ((∀ i, s'.tree.isHidden i ≠ s.tree.isHidden i → s.tree.isDescendantOf i c = true) ↔
      ∀ r ∈ call.closed (s.regions c), s.tree.contains r.component →
        s.tree.isDescendantOf r.component c = true ∨
          s.tree.isHidden r.component = r.hidesComponent) := by
  obtain ⟨hidden, hhides⟩ := call.exists_hides (s.regions c)
  have hflags := fun i => Scene.isHidden_of_closing (i := i) hlinked hc hhides hrun
  have hspared : ∀ i, s.tree.isDescendantOf i c = false →
      (∀ r ∈ call.closed (s.regions c), r.component ≠ i) →
      s'.tree.isHidden i = s.tree.isHidden i := by
    intro i hi hother
    rw [hflags i hi, if_neg]
    intro hmem
    obtain ⟨r, hr, heq⟩ := List.mem_map.1 hmem
    exact hother r hr heq
  have hfollows : ∀ r ∈ call.closed (s.regions c), s.tree.isDescendantOf r.component c = false →
      s.tree.contains r.component → s'.tree.isHidden r.component = r.hidesComponent := by
    intro r hr hi hthere
    rw [hflags _ hi, if_pos (List.mem_map_of_mem hr), hthere, hhides r hr, Bool.true_and]
  refine ⟨hspared, hfollows, fun honly r hr hthere => ?_, fun hheld i hchanged => ?_⟩
  · cases hin : s.tree.isDescendantOf r.component c with
    | true => exact .inl rfl
    | false =>
      refine .inr ?_
      by_contra hdiffers
      rw [← hfollows r hr hin hthere] at hdiffers
      rw [honly _ (Ne.symm hdiffers)] at hin
      cases hin
  · by_contra hnot
    rw [Bool.not_eq_true] at hnot
    by_cases hstray : ∃ r ∈ call.closed (s.regions c), r.component = i
    · obtain ⟨r, hr, rfl⟩ := hstray
      cases hthere : s.tree.contains r.component with
      | false =>
        refine hchanged ?_
        rw [hflags _ hnot, if_pos (List.mem_map_of_mem hr), hthere, Bool.false_and]
        rw [Tree.contains_eq_isSome] at hthere
        rw [Tree.isHidden_eq, hthere, Bool.false_and]
      | true =>
        obtain hin | hsame := hheld r hr hthere
        · rw [hnot] at hin
          cases hin
        · exact hchanged ((hfollows r hr hnot hthere).trans hsame.symm)
    · exact hchanged (hspared i hnot fun r hr heq => hstray ⟨r, hr, heq⟩)

section

/-- Two pages side by side; the first one has a pane on its left that can collapse. -/
private def twoPages : Scene :=
  .ofTree (.ofDescription (.node { layout := some { kind := .auto } }
    [.node { layout := some { kind := .border } }
        [.node { region := some .west, width := some 40, collapsible := true } [],
          .node { region := some .center } []],
      .node { layout := some { kind := .auto } } []])) .standard

/-- The pane collapses and slides out, and is put into the other page. -/
private def paneLeaves : List RegionTurn :=
  [.layout 0, .call 1 (.collapse .west false), .call 1 (.slideOut .west), .move (.append 4 2)]

/-- Where the pane is, and the regions of the first page that slide in. -/
private structure PaneView where
  parent : Option ComponentId
  inside : Bool
  hidden : Bool
  page : Option LayoutKind
  closed : List (ComponentId × Bool × Bool)
  deriving DecidableEq

private def paneView (s : Scene) : PaneView where
  parent := s.tree.parent? 2
  inside := s.tree.isDescendantOf 2 1
  hidden := s.tree.isHidden 2
  page := (s.tree.layout? 1).map LayoutConfig.kind
  closed := ((ClosingCall.slideIn .west).closed (s.regions 1)).map fun r =>
    (r.component, r.hidesComponent, s.tree.contains r.component)

/-- The first page hides the pane, which is in the other one. -/
theorem former_pane_is_hidden :
    ∃ s s', twoPages.after (paneLeaves.map RegionTurn.step) = .ok s ∧
      s.run ((ClosingCall.slideIn .west).step 1) = .ok (.ok (), s') ∧
      s.tree.parent? 2 = some 4 ∧ s.tree.isDescendantOf 2 1 = false ∧
      s.tree.isHidden 2 = false ∧ s'.tree.isHidden 2 = true := by
  obtain ⟨s, x, s', hturns, hrun, hview⟩ := Scene.runs_of_viewLast
    (show twoPages.viewLast (paneLeaves.map RegionTurn.step) ((ClosingCall.slideIn .west).step 1)
        (fun mid x _ => (x, paneView mid)) =
      some (.ok (), ⟨some 4, false, false, some .border, [(2, true, true)]⟩) by decide +kernel)
  simp only [Prod.mk.injEq, paneView, PaneView.mk.injEq] at hview
  obtain ⟨rfl, hparent, houtside, hshown, hkind, hclosed⟩ := hview
  obtain ⟨layout, hlayout, hborder⟩ := Option.map_eq_some_iff.1 hkind
  have hlinked := Scene.linked_after (Tree.nested_ofDescription _).linked hturns
  obtain ⟨-, hfollows, -⟩ := closing_call_flags_iff hlinked
    ⟨layout, Tree.layoutOf_of_layout? hlayout, hborder⟩ hrun
  obtain ⟨r, hr, hpane⟩ := List.mem_map.1 (hclosed ▸ List.mem_singleton_self _)
  simp only [Prod.mk.injEq] at hpane
  obtain ⟨hcomponent, hhides, hthere⟩ := hpane
  have hafter := hfollows r hr (by rw [hcomponent, houtside]) hthere
  rw [hcomponent, hhides] at hafter
  exact ⟨s, s', hturns, hrun, hparent, houtside, hshown, hafter⟩

end

end Trellis
