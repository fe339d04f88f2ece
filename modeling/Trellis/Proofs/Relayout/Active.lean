import Trellis.Layout.Accordion
import Trellis.Proofs.Relayout.Settling

/-!
# Active children stay active

A card layout chooses its active child among all children, an accordion among the visible ones. The
child that was chosen is chosen again: it is still a candidate, or it is the configured one.

* `chooseActive_again`: choosing twice is choosing once.
* `settles_cards`, `settles_accordion`: what these layouts leave is settled.
-/
namespace Trellis

theorem chooseActive_again (candidates : List ComponentId)
    (active configured : Option ComponentId) :
    chooseActive candidates (chooseActive candidates active configured) configured =
      chooseActive candidates active configured := by
  cases hchosen : chooseActive candidates active configured with
  | none =>
    unfold chooseActive at hchosen ⊢
    simp only [Option.or_eq_none_iff] at hchosen
    simp [hchosen.1.2, hchosen.2]
  | some child =>
    by_cases hmem : child ∈ candidates
    · simp [chooseActive, Option.filter, hmem]
    · -- only the configured child is chosen without being a candidate
      have hconfigured : configured = some child := by
        cases configured with
        | none => exact absurd (chooseActive_mem (by simp) hchosen) hmem
        | some other =>
          by_cases hother : other ∈ candidates
          · refine absurd (chooseActive_mem (fun c hc => ?_) hchosen) hmem
            cases hc
            exact hother
          · unfold chooseActive at hchosen
            cases hkept : active.filter candidates.contains with
            | none =>
              rw [hkept] at hchosen
              exact hchosen
            | some a =>
              rw [hkept] at hchosen
              cases hchosen
              exact absurd (by simpa using (Option.filter_eq_some_iff.1 hkept).2) hmem
      simp [chooseActive, Option.filter, hmem, hconfigured]

theorem Tree.mem_children_of_resolve {t : Tree} (h : t.Linked) {container child : ComponentId}
    {item : Option ActiveItem} (hchild : t.resolve container item = some child) :
    child ∈ t.children container := by
  unfold resolve at hchild
  split at hchild
  · cases hchild
  · exact List.mem_of_getElem? hchild
  · rw [h.mem_children]
    simpa using (Option.filter_eq_some_iff.1 hchild).2

namespace Scene

variable {s s' t : Scene} {layout : LayoutConfig} {container : ComponentId}
  {active : Option ComponentId} {r : Except LayoutError Unit}

theorem touches_keep (s : Scene) (container : ComponentId) (a : Arrangement) :
    Touches container s { s with kept := s.kept.insert container a } := by
  refine ⟨⟨rfl, .refl _ s.tree, fun i hi => ?_⟩, rfl⟩
  rw [IdMap.get?_insert, if_neg hi]

/-! ## Cards -/

/-- The card that is to be active. -/
def activeCard (s : Scene) (layout : LayoutConfig) (container : ComponentId)
    (active : Option ComponentId) : Option ComponentId :=
  chooseActive (s.tree.children container) active (s.tree.resolve container layout.activeItem)

/-- The scene once the active card is chosen and all others are hidden. -/
def dealt (s : Scene) (container : ComponentId) (active : Option ComponentId) : Scene :=
  { s with
    kept := s.kept.insert container (.card active)
    tree := Fill.showOnly (s.tree.children container) active s.tree }

theorem run_cards (s : Scene) : s.run (Fill.arrangeCards layout container active) =
    match s.activeCard layout container active with
    | some card => (s.dealt container (some card)).run (Fill.fill layout container card)
    | none => .ok (.ok (), s.dealt container none) := by
  have hrun : s.run (Fill.arrangeCards layout container active) =
      (s.dealt container (s.activeCard layout container active)).run
        (match s.activeCard layout container active with
        | some card => Fill.fill layout container card
        | none => return) := by
    rw [Fill.arrangeCards, run_bind, run_tree, Length.ok_bind]
    dsimp only
    rw [run_bind, run_keep, Length.ok_bind]
    dsimp only
    rw [run_bind, run_modifyTree, Length.ok_bind]
    rfl
  rw [hrun]
  cases s.activeCard layout container active <;> rfl

theorem activeCard_mem (hlinked : s.tree.Linked) {card : ComponentId}
    (h : s.activeCard layout container active = some card) : card ∈ s.tree.children container :=
  chooseActive_mem (fun _ hc => Tree.mem_children_of_resolve hlinked hc) h

theorem touches_dealt (s : Scene) (container : ComponentId) (active : Option ComponentId) :
    Touches container s (s.dealt container active) := by
  refine (touches_keep s container (.card active)).trans ⟨⟨rfl, ?_, fun _ _ => rfl⟩, ?_⟩
  · exact Tree.agree_setHiddens s.tree fun id hid hnot => hnot hid
  · exact Tree.isRendered_setHiddens s.tree _ fun id => some id != active

/-- All cards but the active one are hidden. -/
theorem hidden_dealt (hlinked : s.tree.Linked) {card : ComponentId}
    (hcard : card ∈ s.tree.children container) {c : Component}
    (hc : (s.dealt container active).tree.get? card = some c) :
    c.state.hidden = (some card != active) := by
  have hnodup : ((s.tree.children container).map id).Nodup := by
    rw [List.map_id]
    exact hlinked.nodup container
  refine Tree.holds_foldl (P := fun card c => c.state.hidden = (some card != active))
    (fun t card c hc => ?_) (fun t card i hi => ?_) hnodup s.tree card hcard c hc
  · rw [Tree.setHidden, Tree.get?_modifyState, if_pos (show card = id card from rfl)] at hc
    obtain ⟨d, -, rfl⟩ := Option.map_eq_some_iff.1 hc
    rfl
  · rw [Tree.setHidden, Tree.get?_modifyState, if_neg fun heq : card = i => hi heq.symm]

/-- Where the cards are hidden already, hiding them changes nothing. -/
theorem tree_dealt_eq_self (hnested : s.tree.Nested)
    (h : Sees container (s.dealt container active) t) :
    (t.dealt container active).tree = t.tree := by
  have hchildren : t.tree.children container = s.tree.children container := by
    rw [← h.shape.children_eq, (touches_dealt s container active).children_eq]
  show Fill.showOnly (t.tree.children container) active t.tree = t.tree
  rw [hchildren]
  refine Tree.foldl_eq_self fun card hcard => Tree.modifyState_eq_self fun d hd => ?_
  obtain ⟨c, hc, hhidden⟩ :=
    h.exists_get? (by rwa [(touches_dealt s container active).children_eq]) hd
  rw [← hidden_dealt hnested.linked hcard hc, hhidden]

theorem touches_cards (hlinked : s.tree.Linked)
    (h : s.run (Fill.arrangeCards layout container active) = .ok (r, s')) :
    Touches container s s' := by
  rw [run_cards] at h
  split at h
  · next card hcard =>
    refine (touches_dealt s container (some card)).trans (touches_fill ?_ h)
    rw [(touches_dealt s container (some card)).children_eq]
    exact activeCard_mem hlinked hcard
  · cases h
    exact touches_dealt s container none

theorem settles_cards (hnested : s.tree.Nested) (hown : s.host.targetSize = Host.ownSize)
    (h : s.run (Fill.arrangeCards layout container active) = .ok (r, s')) :
    ∃ active', s'.kept.get? container = some (.card active') ∧
      Settles container s' (Fill.arrangeCards layout container active') := by
  have htouches := touches_cards hnested.linked h
  refine ⟨s.activeCard layout container active, ?_, fun t ht r' t' h' => ?_⟩
  · rw [run_cards] at h
    split at h
    · next card hcard =>
      obtain ⟨_, _, _, -, -, -, -, -, hplaces⟩ := run_fill_eq_ok h
      rw [hplaces.kept]
      simp [dealt, hcard]
    · next hnone =>
      cases h
      simp [dealt, hnone]
  · have hagain : t.activeCard layout container (s.activeCard layout container active) =
        s.activeCard layout container active := by
      have hshape := htouches.tree.toSameShape.trans ht.tree.toSameShape
      unfold activeCard
      rw [← hshape.children_eq, ← hshape.resolve_eq, chooseActive_again]
    rw [run_cards, hagain] at h'
    rw [run_cards] at h
    cases hcard : s.activeCard layout container active with
    | none =>
      simp only [hcard] at h h'
      cases h
      cases h'
      exact ⟨rfl, tree_dealt_eq_self hnested (.of_near ht)⟩
    | some card =>
      simp only [hcard] at h h'
      have hdealt := touches_dealt s container (some card)
      have hmem : card ∈ (s.dealt container (some card)).tree.children container := by
        rw [hdealt.children_eq]
        exact activeCard_mem hnested.linked hcard
      have hfill := (touches_fill hmem h).sees (hdealt.tree.toSameShape.nested hnested)
        (isVisible_fill h)
      have hsame := tree_dealt_eq_self hnested (hfill.trans (.of_near ht))
      have hnear : s'.Agree (s'.tree.Near container) (fun _ => False)
          (t.dealt container (some card)) := by
        refine ⟨ht.host, ?_, fun _ hi => hi.elim⟩
        rw [hsame]
        exact ht.tree
      obtain ⟨hr, htree⟩ :=
        settles_fill (hdealt.tree.toSameShape.nested hnested) hown hmem h _ hnear r' t' h'
      exact ⟨hr, htree.trans hsame⟩

/-! ## Accordions -/

/-- The panel that is to be active. -/
def activePanel (s : Scene) (layout : LayoutConfig) (container : ComponentId)
    (active : Option ComponentId) : Option ComponentId :=
  chooseActive (s.tree.visibleChildren container) active
    (s.tree.resolve container layout.activeItem)

/-- The line of the panels. -/
def panelLine (s : Scene) (layout : LayoutConfig) (container : ComponentId)
    (active : Option ComponentId) : Checked Box.Solution := do
  let members ← s.members container
  let available ← s.host.targetSize s.tree container
  Box.solve (members.map fun m => (Accordion.panelRequest layout active m).value)
    { axis := .vertical, available, pack := .start, align := .stretch
      padding := layout.paddingSides }

/-- The rectangles of the panels. -/
def panelPlacements (s : Scene) (container : ComponentId) (solution : Box.Solution) :
    List Placement :=
  ((s.tree.visibleChildren container).zip solution.rects).map fun (id, rect) => ⟨id, rect⟩

theorem members_kept (s : Scene) (kept : IdMap Arrangement) (container : ComponentId) :
    Scene.members { s with kept } container = s.members container :=
  rfl

theorem run_accordion_eq_ok
    (h : s.run (Accordion.arrange layout container active) = .ok (r, s')) :
    ∃ solution, s.panelLine layout container (s.activePanel layout container active) =
        .ok solution ∧ r = .ok () ∧
      Places { s with kept :=
          s.kept.insert container (.accordion (s.activePanel layout container active)) }
        s' (s.panelPlacements container solution) := by
  simp only [Accordion.arrange, run_bind, run_tree, run_keep, Length.ok_bind, run_members,
    members_kept] at h
  cases hmembers : s.members container with
  | error fault =>
    rw [hmembers] at h
    cases h
  | ok members =>
    simp only [hmembers, Length.ok_bind, run_draft, Draft.value_noted, Noted.value_mapM,
      run_targetSize, run_check, bind_assoc, run_apply] at h
    obtain ⟨available, havailable, h⟩ := Length.bind_eq_ok.1 h
    obtain ⟨solution, hsolution, h⟩ := Length.bind_eq_ok.1 h
    cases h
    refine ⟨solution, ?_, rfl, rfl, rfl, rfl⟩
    rw [panelLine, hmembers, Length.ok_bind,
      show s.host.targetSize s.tree container = .ok available from havailable, Length.ok_bind]
    exact hsolution

theorem ids_panelPlacements (s : Scene) (container : ComponentId) (solution : Box.Solution) :
    ((s.panelPlacements container solution).map Placement.id).Sublist
      (s.tree.visibleChildren container) := by
  unfold panelPlacements
  rw [List.map_map]
  exact sublist_map_fst_zip _ _

theorem touches_accordion (h : s.run (Accordion.arrange layout container active) = .ok (r, s')) :
    Touches container s s' := by
  obtain ⟨solution, -, -, hplaces⟩ := run_accordion_eq_ok h
  refine (touches_keep s container _).trans (hplaces.touches fun id hid => ?_)
  exact mem_children_of_visible ((ids_panelPlacements s container solution).subset hid)

theorem settles_accordion (hnested : s.tree.Nested) (hown : s.host.targetSize = Host.ownSize)
    (h : s.run (Accordion.arrange layout container active) = .ok (r, s')) :
    ∃ active', s'.kept.get? container = some (.accordion active') ∧
      Settles container s' (Accordion.arrange layout container active') := by
  have htouches := touches_accordion h
  obtain ⟨solution, hsolution, -, hplaces⟩ := run_accordion_eq_ok h
  refine ⟨s.activePanel layout container active, ?_, fun t ht r' t' h' => ?_⟩
  · rw [hplaces.kept]
    simp
  · have hsees := (htouches.sees hnested hplaces.isVisible_eq).trans (.of_near ht)
    have hagain : t.activePanel layout container (s.activePanel layout container active) =
        s.activePanel layout container active := by
      unfold activePanel
      rw [← hsees.visibleChildren_eq, ← hsees.shape.resolve_eq, chooseActive_again]
    obtain ⟨solution', hsolution', hr, hplaces'⟩ := run_accordion_eq_ok h'
    rw [hagain] at hsolution'
    have hline : s.panelLine layout container (s.activePanel layout container active) =
        t.panelLine layout container (s.activePanel layout container active) := by
      unfold panelLine
      rw [hsees.members_eq, hsees.targetSize_eq hown]
    rw [← hline, hsolution] at hsolution'
    cases hsolution'
    have hsame : t.panelPlacements container solution = s.panelPlacements container solution := by
      unfold panelPlacements
      rw [hsees.visibleChildren_eq]
    have hids := ids_panelPlacements s container solution
    rw [hsame] at hplaces'
    have hinside : ∀ id ∈ (s.panelPlacements container solution).map Placement.id,
        id ∈ s'.tree.children container := by
      intro id hid
      rw [htouches.children_eq]
      exact mem_children_of_visible (hids.subset hid)
    have hplaced := hplaces.again
      (hids.nodup (hnested.linked.nodup_visibleChildren container)) hinside ht
    exact ⟨hr, hplaces'.tree.trans hplaced⟩

end Scene

end Trellis
