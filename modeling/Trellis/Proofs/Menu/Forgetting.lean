import Trellis.Proofs.Menu.Turns

/-!
# What a menu does not forget

As long as a line keeps its children, what is visible is a beginning of the children that were
visible at first, and the menu lists the rest, as long as they were (`Dwindled`). A line that has
become long enough for all of them may still be too short for all but the last one beside the
trigger. Then a menu that has hidden children goes on hiding some, while one that has hidden none
shows them all.

* `Passed.dwindled`: one pass keeps the children in order.
* `Dwindled.forgets_iff`: when it forgets the list.
* `menu_forgets_iff`: when the menu has no effect on a line that is long enough.
-/
namespace Trellis

open Box (HiddenItem Menu)
open Box.HiddenItem (total)

namespace Scene

variable {s₀ s s' t : Scene} {container d : ComponentId} {layout : LayoutConfig} {axis : Axis}
  {inner : Int} {n : Menu} {o : Box.Outcome} {r : Except LayoutError Unit}

/-- Of the children visible in `s₀`, the first ones are visible, and the menu lists the rest. -/
structure Dwindled (s₀ : Scene) (container : ComponentId) (layout : LayoutConfig) (axis : Axis)
    (s : Scene) : Prop extends Tended s₀ container layout axis s where
  children : s.tree.children container = s₀.tree.children container
  split : ∃ shown gone, s₀.tree.visibleChildren container = shown ++ gone ∧
    s.tree.visibleChildren container = shown ∧
    s.listed container = gone.map (s₀.item layout axis)

namespace Dwindled

theorem item_eq (h : Dwindled s₀ container layout axis s) : s.item = s₀.item := by
  unfold item
  rw [h.leastOuter_eq]

/-- What the menu lists are children. -/
theorem retain_eq (h : Dwindled s₀ container layout axis s) :
    Menu.retain ⟨layout.triggerSize, s.listed container⟩ (s.tree.children container) =
      ⟨layout.triggerSize, s.listed container⟩ := by
  obtain ⟨shown, gone, hsplit, -, hgone⟩ := h.split
  have hall : (Box.Handler.menu ⟨layout.triggerSize, s.listed container⟩).retain
      (s.tree.children container) = .menu ⟨layout.triggerSize, s.listed container⟩ := by
    refine Box.Handler.retain_eq_self fun id hid => ?_
    have hid : id ∈ gone := by
      simpa [Box.Handler.hiddenItems, hgone, item] using hid
    rw [h.children]
    refine mem_children_of_visible ?_
    rw [hsplit]
    exact List.mem_append_right shown hid
  exact Box.Handler.menu.inj hall

/-- The menu forgets none of its children. -/
theorem reacts (h : Dwindled s₀ container layout axis s)
    (hpassed : Passed s s' container layout axis inner n o) :
    Menu.Reacts inner ⟨layout.triggerSize, s.listed container⟩
      (s.shownItems layout axis container) n o := by
  have hreacts := hpassed.reacts
  rwa [h.retain_eq] at hreacts

end Dwindled

/-- A pass over the line. -/
theorem Passed.dwindled (hpassed : Passed s s' container layout axis inner n o)
    (h : Dwindled s₀ container layout axis s) (ht : Tended s₀ container layout axis s') :
    Dwindled s₀ container layout axis s' := by
  obtain ⟨shown, gone, hsplit, hvisible, hgone⟩ := h.split
  refine ⟨ht, hpassed.children.trans h.children, ?_⟩
  rcases hpassed.moves h.forest.toLinked ((congrArg Menu.hidden h.retain_eq).trans hgone) with
    ⟨front, back, hline, hshown, hlisted⟩ | ⟨back, kept, hline, hlisted, hshown⟩
  · rw [h.item_eq, ← List.map_append] at hlisted
    refine ⟨front, back ++ gone, ?_, hshown, hlisted⟩
    rw [hsplit, ← hvisible, hline, List.append_assoc]
  · obtain ⟨back, kept, rfl, rfl, rfl⟩ := List.map_eq_append_iff.1 hline
    have hids : (back.map (s₀.item layout axis)).map HiddenItem.id = back := by
      rw [List.map_map]
      exact List.map_id _
    rw [hvisible, hids] at hshown
    refine ⟨shown ++ back, kept, by rw [hsplit, List.append_assoc], hshown ?_, hlisted⟩
    have hall : (shown ++ (back ++ kept)).Sublist (s.tree.children container) := by
      rw [← hsplit, h.children]
      exact List.filter_sublist
    exact ((List.sublist_append_left back kept).append_left shown).trans hall

theorem ofLine_dwindled : OfLine s₀ container layout axis (Dwindled s₀ container layout axis) := by
  refine ⟨Dwindled.toTended, fun h ht hsame => ?_, fun h ht hpassed => hpassed.dwindled h ht⟩
  obtain ⟨shown, gone, hsplit, hvisible, hgone⟩ := h.split
  exact ⟨ht, hsame.children.trans h.children, shown, gone, hsplit,
    hsame.visibleChildren_eq.trans hvisible, hsame.listed.trans hgone⟩

/-- A menu that lists nothing shows everything. -/
theorem Dwindled.all_shown_iff (h : Dwindled s₀ container layout axis s) :
    s.tree.visibleChildren container = s₀.tree.visibleChildren container ∧
      s.listed container = [] ↔ s.listed container = [] := by
  refine ⟨And.right, fun hnone => ⟨?_, hnone⟩⟩
  obtain ⟨shown, gone, hsplit, hvisible, hgone⟩ := h.split
  rw [hgone, List.map_eq_nil_iff] at hnone
  rw [hvisible, hsplit, hnone, List.append_nil]

/-- The children that are visible at first all fit. A pass forgets the menu's list exactly if there
is none, or if all of them but the last one fit beside the trigger. -/
theorem Dwindled.forgets_iff (h : Dwindled s₀ container layout axis s)
    (hpassed : Passed s s' container layout axis inner n o)
    (hnonneg : ∀ i ∈ s₀.tree.visibleChildren container, 0 ≤ s₀.leastOuter layout axis i)
    (hfits : s₀.shownLength layout axis container ≤ inner) :
    n.hidden = [] ↔ s.listed container = [] ∨
      ∀ init last, s₀.tree.visibleChildren container = init ++ [last] →
        (init.map (s₀.leastOuter layout axis)).sum + layout.triggerSize ≤ inner := by
  obtain ⟨shown, gone, hsplit, hvisible, hgone⟩ := h.split
  have hline : total (s.shownItems layout axis container) =
      (shown.map (s₀.leastOuter layout axis)).sum := by
    rw [shownItems, hvisible, h.item_eq, total_map_item]
  have hgoneNonneg : ∀ item ∈ s.listed container, 0 ≤ item.outer := by
    intro item hitem
    rw [hgone] at hitem
    obtain ⟨i, hi, rfl⟩ := List.mem_map.1 hitem
    exact hnonneg i (by rw [hsplit]; exact List.mem_append_right shown hi)
  have hall : total (s.shownItems layout axis container) + total (s.listed container) ≤ inner := by
    rw [hline, hgone, total_map_item, ← List.sum_append, ← List.map_append, ← hsplit]
    exact hfits
  rw [(h.reacts hpassed).hidden_eq_nil_iff hgoneNonneg hall, hline, hgone]
  obtain rfl | ⟨init, last, rfl⟩ := List.eq_nil_or_concat gone
  · simp
  rw [List.concat_eq_append] at hsplit ⊢
  rw [← List.append_assoc] at hsplit
  rw [List.map_append, hsplit]
  have hsum : (shown.map (s₀.leastOuter layout axis)).sum + total (init.map (s₀.item layout axis)) =
      ((shown ++ init).map (s₀.leastOuter layout axis)).sum := by
    rw [total_map_item, List.map_append, List.sum_append]
  constructor
  · intro hfitting
    refine .inr fun init' last' heq => ?_
    obtain ⟨rfl, -⟩ := List.append_inj' heq rfl
    rw [← hsum]
    exact hfitting _ _ rfl
  · rintro (hnone | hfitting) init' last' heq
    · simp at hnone
    · obtain ⟨rfl, -⟩ := List.append_inj' heq rfl
      rw [hsum]
      exact hfitting _ _ rfl

section

variable (hlayout : s₀.tree.layout? container = some layout)
  (hkind : layout.kind = axis.lineKind) (hhandler : layout.overflowHandler = some .menu)
  (htrigger : 0 ≤ layout.triggerSize)

include hlayout hkind hhandler htrigger

/-- A line that has not been laid out yet, after turns that leave it its children. -/
theorem dwindled_after {turns : List Turn} (hforest : s₀.tree.Forest)
    (hfresh : s₀.kept.get? container = none)
    (hlengths : ∀ i ∈ s₀.tree.children container, 0 ≤ s₀.leastOuter layout axis i)
    (hsame : ∀ x, .append x ∉ turns ∧ .remove x ∉ turns)
    (hturns : s₀.after (turns.map (Turn.step container)) = .ok s) :
    Dwindled s₀ container layout axis s := by
  have hstart : Dwindled s₀ container layout axis s₀ := by
    refine ⟨tended_fresh hforest hfresh hlengths, rfl, s₀.tree.visibleChildren container, [],
      (List.append_nil _).symm, rfl, ?_⟩
    rw [listed, hfresh]
    rfl
  refine after_preserves (fun x hx s s' r h hrun => ?_) hstart hturns
  obtain ⟨turn, hturn, rfl⟩ := List.mem_map.1 hx
  refine ofLine_dwindled.step hlayout hkind hhandler htrigger (fun x => ⟨?_, ?_⟩) h hrun
  · rintro rfl
    exact (hsame x).1 hturn
  · rintro rfl
    exact (hsame x).2 hturn

end

end Scene

/-- What a line that is long enough shows depends on its past. A row or column that hides children
behind a menu has not been laid out yet; then it goes through any turns that leave it its children,
of which none has a negative length. At last it is laid out in a length in which all children that
were visible at first fit. They are all visible afterwards, and the menu is out of use, exactly if
the menu was out of use before, or if all of them but the last one fit beside the trigger. -/
theorem menu_forgets_iff {s₀ s s' : Scene} {container : ComponentId} {layout : LayoutConfig}
    {axis : Axis} {turns : List Turn} {target : Size} {r : Except LayoutError Unit}
    (hforest : s₀.tree.Forest) (hfresh : s₀.kept.get? container = none)
    (hlayout : s₀.tree.layout? container = some layout) (hkind : layout.kind = axis.lineKind)
    (hhandler : layout.overflowHandler = some .menu) (htrigger : 0 ≤ layout.triggerSize)
    (hlengths : ∀ i ∈ s₀.tree.children container, 0 ≤ s₀.leastOuter layout axis i)
    (hsame : ∀ x, .append x ∉ turns ∧ .remove x ∉ turns)
    (hturns : s₀.after (turns.map (Turn.step container)) = .ok s)
    (hheard : s.host.vetoed container .beforeLayout = false)
    (htarget : s.host.targetSize (s.tree.renderChildren container) container = .ok target)
    (hfits : s₀.shownLength layout axis container ≤ (layout.space axis target).innerLength)
    (hpass : s.run (Step.layout container) = .ok (r, s')) :
    s'.tree.visibleChildren container = s₀.tree.visibleChildren container ∧
        s'.listed container = [] ↔
      s.listed container = [] ∨
        ∀ init last, s₀.tree.visibleChildren container = init ++ [last] →
          (init.map (s₀.leastOuter layout axis)).sum + layout.triggerSize ≤
            (layout.space axis target).innerLength := by
  have h := Scene.dwindled_after hlayout hkind hhandler htrigger hforest hfresh hlengths hsame
    hturns
  have h' : Scene.Dwindled s₀ container layout axis s' :=
    (Scene.ofLine_dwindled.preserved hlayout hkind hhandler htrigger).of_layout trivial h hpass
  obtain ⟨n, o, target', htarget', hpassed, -⟩ :=
    h.passed hlayout hkind hhandler htrigger hheard hpass
  rw [htarget, Except.ok.injEq] at htarget'
  subst htarget'
  rw [h'.all_shown_iff, Scene.listed_eq hpassed.kept]
  exact h.forgets_iff hpassed (fun i hi => hlengths i (Scene.mem_children_of_visible hi)) hfits

section

private def wideMenuLayout : LayoutConfig :=
  { kind := .hbox, overflowHandler := some .menu, triggerSize := 60 }

/-- Four labels in a row, with a menu whose trigger is longer than a label. -/
private def labelRow : Scene :=
  let label : Description := .node { width := some 40, height := some 20 } []
  .ofTree (.ofDescription (.node { layout := some wideMenuLayout } [label, label, label, label]))
    .standard

/-- The row is laid out in a width that is a little too short, and gets one that is not. -/
private def labelTurns : List Turn :=
  [.resize 0 ⟨0, 0, 159, 20⟩, .layout 0, .resize 0 ⟨0, 0, 160, 20⟩]

theorem menu_keeps_labels_that_fit :
    ∃ s s', labelRow.after (labelTurns.map (Turn.step 0)) = .ok s ∧
      s.run (Step.layout 0) = .ok (.ok (), s') ∧
      labelRow.shownLength wideMenuLayout .horizontal 0 ≤
        (wideMenuLayout.space .horizontal ⟨160, 20⟩).innerLength ∧
      ¬ (s'.tree.visibleChildren 0 = labelRow.tree.visibleChildren 0 ∧ s'.listed 0 = []) ∧
      s'.tree.visibleChildren 0 = [1, 2] := by
  obtain ⟨s, r, s', hturns, hpass, hview⟩ := Scene.runs_of_viewLast
    (show labelRow.viewLast (labelTurns.map (Turn.step 0)) (Step.layout 0) (fun mid r s' =>
        ((mid.host.targetSize (mid.tree.renderChildren 0) 0, mid.host.vetoed 0 .beforeLayout), r,
          mid.listed 0, s'.tree.visibleChildren 0)) =
      some ((.ok ⟨160, 20⟩, false), .ok (), [⟨3, 40⟩, ⟨4, 40⟩], [1, 2]) by decide +kernel)
  simp only [Prod.mk.injEq] at hview
  obtain ⟨⟨htarget, hheard⟩, rfl, hlisted, hvisible⟩ := hview
  have hlengths : ∀ i ∈ labelRow.tree.children 0,
      0 ≤ labelRow.leastOuter wideMenuLayout .horizontal i := by decide +kernel
  have hfits : labelRow.shownLength wideMenuLayout .horizontal 0 ≤
      (wideMenuLayout.space .horizontal ⟨160, 20⟩).innerLength := by decide +kernel
  have hforgets := menu_forgets_iff (Tree.nested_ofDescription _).forest rfl rfl rfl rfl (by decide)
    hlengths (by simp [labelTurns]) hturns hheard htarget hfits hpass
  refine ⟨s, s', hturns, hpass, hfits, ?_, hvisible⟩
  rw [hforgets, hlisted]
  rintro (hnone | hall)
  · cases hnone
  · -- three labels and the trigger are too long
    have hshort := hall [1, 2, 3] 4 (by decide +kernel)
    revert hshort
    decide +kernel

end

end Trellis
