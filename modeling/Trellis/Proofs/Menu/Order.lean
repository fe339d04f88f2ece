import Trellis.Proofs.Menu.Turns

/-!
# The order of a menu's list

A menu lists the children that it hides in front of those that it has hidden already. The list is in
the order of the children only as long as every visible child stands in front of every listed one
(`Ordered`). Passes rely on that, and keep it: they shift the limit between what is visible and what
is listed along one and the same row of children. Nothing sees to it when a child is appended. One
that is visible stands behind the listed ones from then on, and comes in front of them in the list
once it is hidden.

* `Passed.behind_eq`: what the menu lists after a pass, whatever the order was.
* `Passed.row_eq`: what a pass makes of a line in order.
* `InOrder.step_iff`: which turns keep a line in order; `InOrder.ordered_append_iff`: what may be
  appended.
* `menu_list_order`: the order of the list after any turns.
-/
namespace Trellis

open Box (HiddenItem Menu)

/-! ## Rows of children -/

section

variable {front back cs ds bs rest : List ComponentId} {x : ComponentId} {vis : ComponentId → Bool}

/-- A part of the children may be continued by another one exactly if it stands before it. -/
theorem append_sublist_iff (hnodup : cs.Nodup) (hfront : front.Sublist cs) :
    (front ++ back).Sublist cs ↔
      back.Sublist cs ∧ ∀ f ∈ front, ∀ b ∈ back, [f, b].Sublist cs := by
  constructor
  · intro h
    refine ⟨(List.sublist_append_right front back).trans h, fun f hf b hb => ?_⟩
    exact ((List.singleton_sublist.2 hf).append (List.singleton_sublist.2 hb)).trans h
  · intro h
    -- what stands behind a child stands behind the first one
    have hdrop : ∀ {f c : ComponentId} {rest : List ComponentId}, c ∉ rest →
        back.Sublist (c :: rest) → (∀ b ∈ back, [f, b].Sublist (c :: rest)) →
        back.Sublist rest := by
      intro f c rest hc hsub hpairs
      cases hsub with
      | cons _ hsub => exact hsub
      | cons_cons _ _ => exact absurd ((hpairs c (by simp)).tail.subset (by simp)) hc
    induction hfront with
    | slnil => exact h.1
    | @cons front rest c hfront ih =>
      obtain ⟨hc, hrest⟩ := List.nodup_cons.1 hnodup
      obtain ⟨hback, hpairs⟩ := h
      cases front with
      | nil => exact hback
      | cons f others =>
        have hmem : ∀ f' ∈ f :: others, f' ≠ c := fun f' hf' heq => hc (heq ▸ hfront.subset hf')
        refine (ih hrest ⟨hdrop hc hback (hpairs f (by simp)), fun f' hf' b hb => ?_⟩).cons c
        exact (hpairs f' hf' b hb).of_cons_of_ne (hmem f' hf')
    | @cons_cons front rest c hfront ih =>
      obtain ⟨hc, hrest⟩ := List.nodup_cons.1 hnodup
      obtain ⟨hback, hpairs⟩ := h
      have hmem : ∀ f ∈ front, f ≠ c := fun f hf heq => hc (heq ▸ hfront.subset hf)
      refine (ih hrest ⟨hdrop hc hback (hpairs c (by simp)), fun f hf b hb => ?_⟩).cons_cons c
      exact (hpairs f (by simp [hf]) b hb).of_cons_of_ne (hmem f hf)

/-- What follows the last child among the children is nothing. -/
theorem sublist_append_singleton_iff (hrest : x ∉ rest) (hback : x ∉ back) :
    (front ++ x :: back).Sublist (rest ++ [x]) ↔ back = [] ∧ front.Sublist rest := by
  constructor
  · intro h
    obtain rfl | ⟨init, last, rfl⟩ := List.eq_nil_or_concat back
    · exact ⟨rfl, (List.append_sublist_append_right [x]).1 h⟩
    · rw [List.concat_eq_append] at hback h
      have hlast : last ≠ x := by
        rintro rfl
        exact hback (by simp)
      have hreverse := h.reverse
      simp only [List.reverse_append, List.reverse_cons, List.reverse_nil, List.nil_append,
        List.cons_append, List.append_assoc] at hreverse
      -- the last one is not `x`, so that `x` would stand further in front
      have hin := (hreverse.of_cons_of_ne hlast).subset (show x ∈ _ by simp)
      exact absurd (List.mem_reverse.1 hin) hrest
  · rintro ⟨rfl, hfront⟩
    exact hfront.append_right [x]

theorem filter_contains_congr (h : ∀ y, y ≠ x → (y ∈ cs ↔ y ∈ ds)) (hx : x ∉ bs) :
    bs.filter cs.contains = bs.filter ds.contains := by
  refine List.filter_congr fun y hy => ?_
  have hne : y ≠ x := by
    rintro rfl
    exact hx hy
  rw [Bool.eq_iff_iff, List.contains_iff_mem, List.contains_iff_mem, h y hne]

theorem pairwise_of_not_mem {P : ComponentId → Prop} (hx : x ∉ bs) :
    bs.Pairwise fun y z => y = x → P z :=
  List.pairwise_of_forall_mem_list fun _ hy _ _ heq => absurd (heq ▸ hy) hx

/-- What is asked of everything behind `x` is asked of nothing else. -/
theorem pairwise_after_iff {before after : List ComponentId} {P : ComponentId → Prop}
    (hbefore : x ∉ before) (hafter : x ∉ after) :
    (before ++ x :: after).Pairwise (fun y z => y = x → P z) ↔ ∀ z ∈ after, P z := by
  constructor
  · intro h z hz
    exact (List.pairwise_cons.1 (List.pairwise_append.1 h).2.1).1 z hz rfl
  · intro h
    refine List.pairwise_append.2 ⟨pairwise_of_not_mem hbefore, List.pairwise_cons.2 ⟨?_, ?_⟩, ?_⟩
    · exact fun z hz _ => h z hz
    · exact pairwise_of_not_mem hafter
    · exact fun y hy _ _ heq => absurd (heq ▸ hy) hbefore

/-- One child fewer is in the row. -/
theorem row_erase (hnodup : cs.Nodup)
    (hrow : (cs.filter vis ++ bs.filter cs.contains).Sublist cs) (x : ComponentId) :
    ((cs.erase x).filter vis ++ bs.filter (cs.erase x).contains).Sublist (cs.erase x) := by
  have hless := hrow.filter (· != x)
  rw [List.filter_append, ← hnodup.erase_eq_filter] at hless
  have hshown : (cs.filter vis).filter (· != x) = (cs.erase x).filter vis := by
    rw [hnodup.erase_eq_filter, List.filter_filter, List.filter_filter]
    exact List.filter_congr fun y _ => Bool.and_comm ..
  have hlisted : (bs.filter cs.contains).filter (· != x) = bs.filter (cs.erase x).contains := by
    rw [List.filter_filter]
    refine List.filter_congr fun y _ => ?_
    rw [Bool.eq_iff_iff]
    simp [hnodup.mem_erase_iff]
  rwa [hshown, hlisted] at hless

/-- A child that comes to the end, from another place or anew, leaves the row in order exactly if
nothing follows it in the row. -/
theorem row_append_iff (hnodup : cs.Nodup) (hbs : bs.Nodup) (hhidden : ∀ y ∈ bs, vis y = false)
    (hrow : (cs.filter vis ++ bs.filter cs.contains).Sublist cs) (x : ComponentId) :
    ((cs.erase x ++ [x]).filter vis ++ bs.filter (cs.erase x ++ [x]).contains).Sublist
        (cs.erase x ++ [x]) ↔
      (vis x = true → bs.filter cs.contains = []) ∧
        bs.Pairwise fun y z => y = x → z ∉ cs := by
  have hless := row_erase hnodup hrow x
  have hx : x ∉ cs.erase x := fun hmem => absurd rfl (hnodup.mem_erase_iff.1 hmem).1
  have hends : ∀ {ys : List ComponentId}, x ∉ ys →
      ys.filter (cs.erase x ++ [x]).contains = ys.filter (cs.erase x).contains := by
    refine filter_contains_congr fun y hne => ?_
    simp [hne]
  have hkeeps : ∀ {ys : List ComponentId}, x ∉ ys →
      ys.filter (cs.erase x).contains = ys.filter cs.contains :=
    filter_contains_congr fun y hne => List.mem_erase_of_ne hne
  rw [List.filter_append]
  by_cases hvis : vis x = true
  · have hout : x ∉ bs := by
      intro hmem
      rw [hhidden x hmem] at hvis
      cases hvis
    have hfollows : bs.Pairwise fun y z => y = x → z ∉ cs := pairwise_of_not_mem hout
    have hstays : x ∉ bs.filter cs.contains := fun hmem => hout (List.mem_filter.1 hmem).1
    rw [List.filter_cons_of_pos hvis, List.filter_nil, hends hout, hkeeps hout, List.append_assoc,
      List.singleton_append, sublist_append_singleton_iff hx hstays]
    simp [hvis, hfollows, List.filter_sublist]
  · rw [List.filter_cons_of_neg hvis, List.filter_nil, List.append_nil]
    by_cases hmem : x ∈ bs
    · obtain ⟨before, after, rfl⟩ := List.append_of_mem hmem
      obtain ⟨-, hafter, hapart⟩ := List.nodup_append.1 hbs
      have hbefore : x ∉ before := fun hin => hapart x hin x (by simp) rfl
      have hafter : x ∉ after := (List.nodup_cons.1 hafter).1
      have hfront : ((cs.erase x).filter vis ++ before.filter (cs.erase x).contains).Sublist
          (cs.erase x) :=
        (((List.sublist_append_left before (x :: after)).filter _).append_left _).trans hless
      rw [List.filter_append, List.filter_cons_of_pos (by simp), hends hbefore, hends hafter,
        ← List.append_assoc, sublist_append_singleton_iff hx fun hin =>
          hafter (List.mem_filter.1 hin).1, hkeeps hafter, pairwise_after_iff hbefore hafter]
      simp [hvis, hfront, List.filter_eq_nil_iff]
    · rw [hends hmem]
      exact iff_of_true (hless.trans (List.sublist_append_left ..))
        ⟨fun h => absurd h hvis, pairwise_of_not_mem hmem⟩

end

namespace Scene

variable {s₀ s s' t : Scene} {container : ComponentId} {layout : LayoutConfig} {axis : Axis}
  {inner : Int} {n : Menu} {o : Box.Outcome} {r : Except LayoutError Unit} {x : ComponentId}

/-- The components that the menu of a container lists. -/
def behind (s : Scene) (container : ComponentId) : List ComponentId :=
  (s.listed container).map HiddenItem.id

/-- Those of them that a pass does not drop, since they are children of the container still. -/
def staying (s : Scene) (container : ComponentId) : List ComponentId :=
  (s.behind container).filter (s.tree.children container).contains

/-- The children of a line in the order in which a menu hides and shows them. -/
def row (s : Scene) (container : ComponentId) : List ComponentId :=
  s.tree.visibleChildren container ++ s.staying container

/-- Visible children stand in front of listed ones, and these in the order of the list. -/
def Ordered (s : Scene) (container : ComponentId) : Prop :=
  (s.row container).Sublist (s.tree.children container)

/-- The menu lists nothing but children, in the order in which they stand in the container. -/
def ListsInOrder (s : Scene) (container : ComponentId) : Prop :=
  (s.behind container).Sublist (s.tree.children container)

/-- The component would be in order as the last child: nothing is listed if it is going to be
visible, and if it is listed itself, no child follows it in the list. -/
def MayFollow (s : Scene) (container x : ComponentId) : Prop :=
  (s.tree.isVisible x = true → s.staying container = []) ∧
    (s.behind container).Pairwise fun y z => y = x → z ∉ s.tree.children container

instance (s : Scene) (container x : ComponentId) : Decidable (s.MayFollow container x) :=
  inferInstanceAs (Decidable (_ ∧ _))

theorem Tended.behind (h : Tended s₀ container layout axis s) :
    (s.behind container).Nodup ∧ ∀ i ∈ s.behind container, s.tree.isVisible i = false := by
  unfold Scene.behind
  cases hkept : s.kept.get? container with
  | none =>
    rw [listed, hkept]
    exact ⟨List.nodup_nil, by simp⟩
  | some a =>
    obtain ⟨m, rfl, -, hstows⟩ := h.keeps a hkept
    rw [listed_eq hkept]
    refine ⟨hstows.nodup, fun i hi => ?_⟩
    obtain ⟨item, hitem, rfl⟩ := List.mem_map.1 hi
    have hhidden := hstows.hidden item hitem
    rw [Tree.isHidden_eq, Bool.and_eq_true, Bool.not_eq_true'] at hhidden
    exact hhidden.2

theorem SameLine.behind_eq (h : SameLine container s t) :
    t.behind container = s.behind container := congrArg (List.map HiddenItem.id) h.listed

theorem SameLine.ordered (h : SameLine container s t) (hordered : s.Ordered container) :
    t.Ordered container := by
  unfold Ordered row staying
  rw [h.visibleChildren_eq, h.behind_eq, h.children]
  exact hordered

/-! ## Passes -/

theorem ids_retain (s : Scene) (container : ComponentId) (size : Int) :
    (Menu.retain ⟨size, s.listed container⟩ (s.tree.children container)).hidden.map HiddenItem.id =
      s.staying container := by
  rw [staying, behind, List.filter_map]
  rfl

/-- What the menu lists after a pass: the end of what was visible and all that stays, or the end of
what stays. -/
theorem Passed.behind_eq (hpassed : Passed s s' container layout axis inner n o)
    (hlinked : s.tree.Linked) :
    ∃ gone kept, s'.behind container = gone ++ kept ∧
      gone <:+ s.tree.visibleChildren container ∧ kept <:+ s.staying container ∧
      (gone = [] ∨ kept = s.staying container) := by
  rw [← s.ids_retain container layout.triggerSize]
  rcases hpassed.moves hlinked rfl with
    ⟨shown, gone, hline, -, hlisted⟩ | ⟨back, kept, hold, hlisted, -⟩
  · refine ⟨gone, _, ?_, ⟨shown, hline.symm⟩, List.suffix_refl _, .inr rfl⟩
    rw [behind, hlisted, List.map_append, List.map_map]
    exact congrArg (· ++ _) (List.map_id gone)
  · refine ⟨[], kept.map HiddenItem.id, congrArg _ hlisted, List.nil_suffix, ?_, .inl rfl⟩
    rw [hold, List.map_append]
    exact List.suffix_append ..

/-- A pass only shifts the limit in a row that is in order. -/
theorem Passed.row_eq (hpassed : Passed s s' container layout axis inner n o)
    (hlinked : s.tree.Linked) (hordered : s.Ordered container) :
    s'.tree.visibleChildren container ++ s'.behind container = s.row container := by
  have hids := s.ids_retain container layout.triggerSize
  unfold row
  rcases hpassed.moves hlinked rfl with
    ⟨shown, gone, hline, hshown, hlisted⟩ | ⟨back, kept, hold, hlisted, hshown⟩
  · have hgone : (gone.map (s.item layout axis)).map HiddenItem.id = gone := by
      rw [List.map_map]
      exact List.map_id _
    rw [behind, hlisted, List.map_append, hgone, hids, hshown, hline, List.append_assoc]
  · rw [hold, List.map_append] at hids
    unfold Ordered row at hordered
    rw [← hids, ← List.append_assoc] at hordered ⊢
    rw [hshown ((List.sublist_append_left ..).trans hordered), behind, hlisted]

/-- What the menu lists after a pass is in order exactly if what it lists newly stands in front of
what it has listed before. -/
theorem Passed.listsInOrder_iff (hpassed : Passed s s' container layout axis inner n o)
    (hlinked : s.tree.Linked) {gone kept : List ComponentId}
    (hbehind : s'.behind container = gone ++ kept)
    (hgone : gone <:+ s.tree.visibleChildren container) :
    s'.ListsInOrder container ↔ kept.Sublist (s.tree.children container) ∧
      ∀ g ∈ gone, ∀ k ∈ kept, [g, k].Sublist (s.tree.children container) := by
  rw [ListsInOrder, hbehind, hpassed.children]
  exact append_sublist_iff (hlinked.nodup container) (hgone.sublist.trans List.filter_sublist)

theorem Passed.listsInOrder (hpassed : Passed s s' container layout axis inner n o)
    (hlinked : s.tree.Linked) (hordered : s.Ordered container) : s'.ListsInOrder container := by
  rw [ListsInOrder, hpassed.children]
  refine List.Sublist.trans ?_ hordered
  rw [← hpassed.row_eq hlinked hordered]
  exact List.sublist_append_right ..

/-- A line that is looked after and in order. -/
structure InOrder (s₀ : Scene) (container : ComponentId) (layout : LayoutConfig) (axis : Axis)
    (s : Scene) : Prop extends Tended s₀ container layout axis s where
  ordered : s.Ordered container

theorem ofLine_inOrder : OfLine s₀ container layout axis (InOrder s₀ container layout axis) := by
  refine ⟨InOrder.toTended, fun h ht hsame => ⟨ht, hsame.ordered h.ordered⟩, ?_⟩
  intro s s' inner n o h ht hpassed
  refine ⟨ht, ?_⟩
  have hrow := hpassed.row_eq h.forest.toLinked h.ordered
  rw [Ordered, hpassed.children]
  refine List.Sublist.trans ?_ h.ordered
  rw [← hrow]
  exact List.filter_sublist.append_left _

/-! ## Turns -/

/-- A line that has not been laid out yet. -/
theorem inOrder_fresh (hforest : s₀.tree.Forest) (hfresh : s₀.kept.get? container = none)
    (hlengths : ∀ i ∈ s₀.tree.children container, 0 ≤ s₀.leastOuter layout axis i) :
    InOrder s₀ container layout axis s₀ := by
  have hnone : s₀.staying container = [] := by
    unfold staying behind listed
    rw [hfresh]
    rfl
  refine ⟨tended_fresh hforest hfresh hlengths, ?_⟩
  rw [Ordered, row, hnone, List.append_nil]
  exact List.filter_sublist

/-- Children that leave take nothing away from the order. -/
theorem InOrder.ordered_remove (h : InOrder s₀ container layout axis s)
    (hrun : s.run ((Turn.remove x).step container) = .ok (r, s')) : s'.Ordered container := by
  obtain ⟨t, ht, rfl⟩ := run_edit_eq_ok hrun
  obtain rfl := Tree.removeChild_eq_ok ht
  have hvisible := (s.tree.rearranged_detach container x).isVisible_eq
  have hchildren : (s.tree.detach container x).children container =
      (s.tree.children container).erase x := by
    rw [Tree.children_detach, if_pos rfl]
  unfold Ordered row staying Tree.visibleChildren
  dsimp only
  rw [hchildren, ← hvisible]
  exact row_erase (h.forest.nodup container) h.ordered x

/-- A component that is appended leaves the line in order exactly if it may follow. -/
theorem InOrder.ordered_append_iff (h : InOrder s₀ container layout axis s)
    (hrun : s.run ((Turn.append x).step container) = .ok (r, s')) :
    s'.Ordered container ↔ s.MayFollow container x := by
  obtain ⟨t, ht, rfl⟩ := run_edit_eq_ok hrun
  obtain ⟨hc, -, rfl⟩ := Tree.appendChild_eq_ok ht
  have hlinked := h.forest.toLinked
  have hvisible := (s.tree.rearranged_attach container x).isVisible_eq
  have hchildren : (s.tree.attach container x).children container =
      (s.tree.children container).erase x ++ [x] := by
    rw [hlinked.children_attach hc, if_pos rfl]
  unfold Ordered row staying Tree.visibleChildren
  dsimp only
  rw [hchildren, ← hvisible]
  exact row_append_iff (hlinked.nodup container) h.behind.1 h.behind.2 h.ordered x

/-- Whether the turn leaves a line in order if it finds it so. -/
def KeepsOrder (s : Scene) (container : ComponentId) : Turn → Prop
  | .append x => s.MayFollow container x
  | _ => True

instance (s : Scene) (container : ComponentId) :
    (turn : Turn) → Decidable (s.KeepsOrder container turn)
  | .append x => inferInstanceAs (Decidable (s.MayFollow container x))
  | .layout _ | .resize _ _ | .host _ | .remove _ => .isTrue trivial

/-- Whether all turns of a history do so, each in the scene that it finds. -/
def AppendsInOrder (container : ComponentId) : Scene → List Turn → Prop
  | _, [] => True
  | s, turn :: rest => s.KeepsOrder container turn ∧
    match s.run (turn.step container) with
    | .ok (_, t) => AppendsInOrder container t rest
    | .error _ => True

instance (container : ComponentId) :
    (turns : List Turn) → (s : Scene) → Decidable (AppendsInOrder container s turns)
  | [], _ => .isTrue trivial
  | turn :: rest, s =>
    have : Decidable (match s.run (turn.step container) with
        | .ok (_, t) => AppendsInOrder container t rest
        | .error _ => True) :=
      match s.run (turn.step container) with
      | .ok (_, t) => instDecidableAppendsInOrder container rest t
      | .error _ => .isTrue trivial
    inferInstanceAs (Decidable (_ ∧ _))

section

variable (hlayout : s₀.tree.layout? container = some layout)
  (hkind : layout.kind = axis.lineKind) (hhandler : layout.overflowHandler = some .menu)
  (htrigger : 0 ≤ layout.triggerSize)

include hlayout hkind hhandler htrigger

theorem InOrder.step_iff (h : InOrder s₀ container layout axis s) {turn : Turn}
    (hlengths : ∀ x, turn = .append x → 0 ≤ s₀.leastOuter layout axis x)
    (happend : ∀ x, turn = .append x → ¬ s₀.tree.Inside x container)
    (hrun : s.run (turn.step container) = .ok (r, s')) :
    InOrder s₀ container layout axis s' ↔ s.KeepsOrder container turn := by
  have ht := tended_step hlayout hkind hhandler htrigger hlengths happend h.toTended hrun
  have hline : (∀ x, turn ≠ .append x ∧ turn ≠ .remove x) → InOrder s₀ container layout axis s' :=
    fun hkeeps => ofLine_inOrder.step hlayout hkind hhandler htrigger hkeeps h hrun
  cases turn with
  | append x =>
    have happended := h.ordered_append_iff hrun
    exact ⟨fun h' => happended.1 h'.ordered, fun hfollows => ⟨ht, happended.2 hfollows⟩⟩
  | remove x => exact iff_of_true ⟨ht, h.ordered_remove hrun⟩ trivial
  | layout d => exact iff_of_true (hline (by simp)) trivial
  | resize d rect => exact iff_of_true (hline (by simp)) trivial
  | host g => exact iff_of_true (hline (by simp)) trivial

/-- A line stays in order as long as all that is appended may follow. -/
theorem InOrder.after {turns : List Turn} (h : InOrder s₀ container layout axis s)
    (hlengths : ∀ i, .append i ∈ turns → 0 ≤ s₀.leastOuter layout axis i)
    (happend : ∀ i, .append i ∈ turns → ¬ s₀.tree.Inside i container)
    (hkeeps : AppendsInOrder container s turns)
    (hturns : s.after (turns.map (Turn.step container)) = .ok s') :
    InOrder s₀ container layout axis s' := by
  induction turns generalizing s with
  | nil =>
    cases hturns
    exact h
  | cons turn rest ih =>
    rw [List.map_cons, Scene.after] at hturns
    obtain ⟨⟨r, mid⟩, hrun, hrest⟩ := Length.bind_eq_ok.1 hturns
    obtain ⟨hturn, hlater⟩ := hkeeps
    rw [hrun] at hlater
    have hmid : InOrder s₀ container layout axis mid := by
      refine (h.step_iff hlayout hkind hhandler htrigger ?_ ?_ hrun).2 hturn
      · rintro x rfl
        exact hlengths x (by simp)
      · rintro x rfl
        exact happend x (by simp)
    exact ih hmid (fun i hi => hlengths i (List.mem_cons_of_mem turn hi))
      (fun i hi => happend i (List.mem_cons_of_mem turn hi)) hlater hrest

end

end Scene

/-- The order of a menu's list. A row or column that hides children behind a menu has not been laid
out yet; then it goes through any turns that move children in and out of it, none of negative length
and none that the container is in. A pass that the host does not veto follows. It puts the end of
the visible children in front of all listed ones, or takes some off the front of the list; so its
list is in the order of the children exactly if what stays listed is, and what is listed newly
stands in front of it. If everything that was appended could follow when it was, this is so in any
case: the row of visible and listed children is in the order of the children, and the pass only
shifts the limit in it. -/
theorem menu_list_order {s₀ s s' : Scene} {container : ComponentId} {layout : LayoutConfig}
    {axis : Axis} {turns : List Turn} {r : Except LayoutError Unit}
    (hforest : s₀.tree.Forest) (hfresh : s₀.kept.get? container = none)
    (hlayout : s₀.tree.layout? container = some layout) (hkind : layout.kind = axis.lineKind)
    (hhandler : layout.overflowHandler = some .menu) (htrigger : 0 ≤ layout.triggerSize)
    (hlengths : ∀ i, i ∈ s₀.tree.children container ∨ .append i ∈ turns →
      0 ≤ s₀.leastOuter layout axis i)
    (happend : ∀ i, .append i ∈ turns → ¬ s₀.tree.Inside i container)
    (hturns : s₀.after (turns.map (Turn.step container)) = .ok s)
    (hheard : s.host.vetoed container .beforeLayout = false)
    (hpass : s.run (Step.layout container) = .ok (r, s')) :
    (∃ gone kept, s'.behind container = gone ++ kept ∧
      gone <:+ s.tree.visibleChildren container ∧ kept <:+ s.staying container ∧
      (gone = [] ∨ kept = s.staying container) ∧
      (s'.ListsInOrder container ↔ kept.Sublist (s.tree.children container) ∧
        ∀ g ∈ gone, ∀ k ∈ kept, [g, k].Sublist (s.tree.children container))) ∧
    (Scene.AppendsInOrder container s₀ turns →
      s.Ordered container ∧
      s'.tree.visibleChildren container ++ s'.behind container = s.row container ∧
      s'.ListsInOrder container) := by
  have htended := Scene.tended_after hlayout hkind hhandler htrigger hforest hfresh hlengths happend
    hturns
  have hlinked := htended.forest.toLinked
  obtain ⟨m, o, target, -, hpassed, -⟩ :=
    htended.passed hlayout hkind hhandler htrigger hheard hpass
  refine ⟨?_, fun hkeeps => ?_⟩
  · obtain ⟨gone, kept, hbehind, hgone, hkept, hpart⟩ := hpassed.behind_eq hlinked
    exact ⟨gone, kept, hbehind, hgone, hkept, hpart,
      hpassed.listsInOrder_iff hlinked hbehind hgone⟩
  · have hstart : Scene.InOrder s₀ container layout axis s₀ :=
      Scene.inOrder_fresh hforest hfresh fun i hi => hlengths i (.inl hi)
    have hordered := (hstart.after hlayout hkind hhandler htrigger
      (fun i hi => hlengths i (.inr hi)) happend hkeeps hturns).ordered
    exact ⟨hordered, hpassed.row_eq hlinked hordered, hpassed.listsInOrder hlinked hordered⟩

section

private def menuBarLayout : LayoutConfig :=
  { kind := .hbox, overflowHandler := some .menu, triggerSize := 20 }

private def menuBarButton : Description := .node { width := some 40, height := some 20 } []

private def fiveButtons : Tree :=
  .ofDescription (.node { layout := some menuBarLayout }
    [menuBarButton, menuBarButton, menuBarButton, menuBarButton, menuBarButton])

/-- Four buttons in a row with a menu, and a fifth one that has no parent yet. -/
private def menuBar : Scene := .ofTree (fiveButtons.detach 0 5) .standard

/-- The fifth button comes while two others are behind the menu. -/
private def lateTurns : List Turn := [.resize 0 ⟨0, 0, 100, 20⟩, .layout 0, .append 5]

/-- It comes after they are shown again. -/
private def timelyTurns : List Turn :=
  [.resize 0 ⟨0, 0, 100, 20⟩, .layout 0, .resize 0 ⟨0, 0, 160, 20⟩, .layout 0, .append 5,
    .resize 0 ⟨0, 0, 100, 20⟩]

theorem late_button_is_listed_first :
    (∃ s s', menuBar.after (lateTurns.map (Turn.step 0)) = .ok s ∧
      s.run (Step.layout 0) = .ok (.ok (), s') ∧ s'.tree.children 0 = [1, 2, 3, 4, 5] ∧
      s'.behind 0 = [5, 3, 4] ∧ ¬ s'.ListsInOrder 0) ∧
    Scene.AppendsInOrder 0 menuBar timelyTurns ∧
    ∃ s s', menuBar.after (timelyTurns.map (Turn.step 0)) = .ok s ∧
      s.run (Step.layout 0) = .ok (.ok (), s') ∧
      s'.behind 0 = [3, 4, 5] ∧ s'.ListsInOrder 0 := by
  have hfive : fiveButtons.Forest := (Tree.nested_ofDescription _).forest
  have hforest : menuBar.tree.Forest := hfive.detach 0 5
  have hnonneg : ∀ i ∈ [1, 2, 3, 4, 5], 0 ≤ menuBar.leastOuter menuBarLayout .horizontal i := by
    decide +kernel
  have hlengths : ∀ {turns : List Turn}, (∀ i, .append i ∈ turns → i = 5) →
      ∀ i, i ∈ menuBar.tree.children 0 ∨ .append i ∈ turns →
        0 ≤ menuBar.leastOuter menuBarLayout .horizontal i := by
    rintro turns hfifth i (hi | hi)
    · exact hnonneg i (show i ∈ [1, 2, 3, 4] ++ [5] from List.mem_append_left [5] hi)
    · exact hnonneg i (by simp [hfifth i hi])
  have hapart : ∀ i, i = 5 → ¬ menuBar.tree.Inside i 0 := by
    rintro i rfl hinside
    obtain heq | ⟨p, hp, -⟩ := Relation.ReflTransGen.cases_head hinside
    · cases heq
    · have hroot : menuBar.tree.parent? 0 = none := by decide +kernel
      rw [hroot] at hp
      cases hp
  have hlate : ∀ i, .append i ∈ lateTurns → i = 5 := by simp [lateTurns]
  have htimely : ∀ i, .append i ∈ timelyTurns → i = 5 := by simp [timelyTurns]
  refine ⟨?_, by decide +kernel, ?_⟩
  · obtain ⟨s, r, s', hturns, hpass, hview⟩ := Scene.runs_of_viewLast
      (show menuBar.viewLast (lateTurns.map (Turn.step 0)) (Step.layout 0) (fun mid r s' =>
          ((mid.host.vetoed 0 .beforeLayout, mid.tree.children 0, mid.staying 0), r,
            s'.tree.children 0, s'.behind 0)) =
        some ((false, [1, 2, 3, 4, 5], [3, 4]), .ok (), [1, 2, 3, 4, 5], [5, 3, 4])
        by decide +kernel)
    simp only [Prod.mk.injEq] at hview
    obtain ⟨⟨hheard, hchildren, hstaying⟩, rfl, hafter, hlisted⟩ := hview
    refine ⟨s, s', hturns, hpass, hafter, hlisted, ?_⟩
    obtain ⟨gone, kept, hbehind, -, hkept, hpart, hiff⟩ :=
      (menu_list_order hforest rfl rfl rfl rfl (by decide) (hlengths hlate)
        (fun i hi => hapart i (hlate i hi)) hturns hheard hpass).1
    rw [hstaying] at hkept hpart
    rw [hlisted] at hbehind
    rcases hpart with rfl | rfl
    · have hshort := hkept.length_le
      rw [← List.nil_append kept, ← hbehind] at hshort
      exact absurd hshort (by decide)
    · -- the fifth button stands behind the third one, but is listed in front of it
      have hnew : [5] ++ [3, 4] = gone ++ [3, 4] := hbehind
      obtain rfl := List.append_cancel_right hnew
      rw [hiff, hchildren]
      decide
  · obtain ⟨s, r, s', hturns, hpass, hview⟩ := Scene.runs_of_viewLast
      (show menuBar.viewLast (timelyTurns.map (Turn.step 0)) (Step.layout 0) (fun mid r s' =>
          (mid.host.vetoed 0 .beforeLayout, r, s'.behind 0)) =
        some (false, .ok (), [3, 4, 5]) by decide +kernel)
    simp only [Prod.mk.injEq] at hview
    obtain ⟨hheard, rfl, hlisted⟩ := hview
    refine ⟨s, s', hturns, hpass, hlisted, ?_⟩
    exact ((menu_list_order hforest rfl rfl rfl rfl (by decide) (hlengths htimely)
      (fun i hi => hapart i (htimely i hi)) hturns hheard hpass).2 (by decide +kernel)).2.2

end

end Trellis
