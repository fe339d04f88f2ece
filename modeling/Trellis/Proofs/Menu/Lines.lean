import Trellis.Proofs.Histories.Shown
import Trellis.Proofs.Menu.Reactions
import Trellis.Proofs.Relayout.Lines

/-!
# A line and its menu

What a menu knows of a child that it has hidden stays true until the child is shown again: the child
is hidden, in no other container, and as long as it was. One pass over the line keeps this up, and
leaves a line that fits beside the trigger, or no child visible at all.

* `Stows`: what a menu keeps is true; `Balanced`: the line fits, and would not with one more child.
* `Handles.reacts`: a pass over a line with a menu is one of the menu's reactions.
* `Stows.of_reacts`, `Balanced.of_reacts`: what that pass leaves.
* `Handles.final_fits`: the line that is laid out at last is not too narrow.
-/
namespace Trellis

open Box (HiddenItem Menu)
open Box.HiddenItem (total)

/-- The least length that the child takes on the axis, margins included. -/
def Member.leastOuter (layout : LayoutConfig) (axis : Axis) (m : Member) : Int :=
  (m.request layout).value.floorMain axis + (m.request layout).value.mainMargin axis

theorem filter_mem_of_sublist {xs ys : List ComponentId} (h : ys.Sublist xs)
    (hnodup : xs.Nodup) : xs.filter (fun x => decide (x ∈ ys)) = ys := by
  induction h with
  | slnil => rfl
  | @cons ys xs x hsub ih =>
    obtain ⟨hx, hnodup⟩ := List.nodup_cons.1 hnodup
    rw [List.filter_cons_of_neg (by simpa using fun hmem => hx (hsub.subset hmem)), ih hnodup]
  | @cons_cons ys xs x hsub ih =>
    obtain ⟨hx, hnodup⟩ := List.nodup_cons.1 hnodup
    rw [List.filter_cons_of_pos (by simp)]
    refine congrArg (x :: ·) (Eq.trans (List.filter_congr fun y hy => ?_) (ih hnodup))
    have hne : y ≠ x := by
      rintro rfl
      exact hx hy
    simp [hne]

namespace Scene

variable {s s' t : Scene} {layout : LayoutConfig} {container : ComponentId} {axis : Axis}
  {l : Linear} {m n : Menu}

/-- The least length that a component takes as a child, margins included. -/
def leastOuter (s : Scene) (layout : LayoutConfig) (axis : Axis) (id : ComponentId) : Int :=
  ((s.tree.config? id).map fun c =>
    Member.leastOuter layout axis ⟨id, c, s.host.measure id c⟩).getD 0

/-- The child as a menu keeps it. -/
def item (s : Scene) (layout : LayoutConfig) (axis : Axis) (id : ComponentId) : HiddenItem :=
  ⟨id, s.leastOuter layout axis id⟩

/-- The visible children as a menu would keep them. -/
def shownItems (s : Scene) (layout : LayoutConfig) (axis : Axis) (container : ComponentId) :
    List HiddenItem :=
  (s.tree.visibleChildren container).map (s.item layout axis)

/-- The least length of all visible children together. -/
def shownLength (s : Scene) (layout : LayoutConfig) (axis : Axis) (container : ComponentId) :
    Int :=
  ((s.tree.visibleChildren container).map (s.leastOuter layout axis)).sum

/-- What a menu keeps of the children behind it is true. -/
structure Stows (s : Scene) (container : ComponentId) (layout : LayoutConfig) (axis : Axis)
    (m : Menu) : Prop where
  nodup : (m.hidden.map HiddenItem.id).Nodup
  hidden : ∀ item ∈ m.hidden, s.tree.isHidden item.id = true
  outer : ∀ item ∈ m.hidden, item.outer = s.leastOuter layout axis item.id
  nonneg : ∀ item ∈ m.hidden, 0 ≤ item.outer
  parent : ∀ item ∈ m.hidden, ∀ d, s.tree.parent? item.id = some d → d = container

/-- The visible children fit beside the trigger, and with the first hidden one they would not. -/
structure Balanced (s : Scene) (container : ComponentId) (layout : LayoutConfig) (axis : Axis)
    (inner : Int) (m : Menu) : Prop where
  fits : s.tree.visibleChildren container = [] ∨
    s.shownLength layout axis container + (if m.hidden.isEmpty then 0 else m.triggerSize) ≤ inner
  needed : ∀ first rest, m.hidden = first :: rest →
    inner < s.shownLength layout axis container + first.outer + m.triggerSize

theorem total_map_item (s : Scene) (layout : LayoutConfig) (axis : Axis)
    (ids : List ComponentId) :
    total (ids.map (s.item layout axis)) = (ids.map (s.leastOuter layout axis)).sum := by
  rw [total, List.map_map]
  rfl

theorem total_shownItems (s : Scene) (layout : LayoutConfig) (axis : Axis)
    (container : ComponentId) :
    total (s.shownItems layout axis container) = s.shownLength layout axis container :=
  s.total_map_item layout axis _

theorem leastOuter_congr (hconfig : t.tree.config? = s.tree.config?)
    (hmeasure : t.host.measure = s.host.measure) : t.leastOuter = s.leastOuter := by
  funext layout axis id
  unfold leastOuter
  rw [hconfig, hmeasure]

/-- The line of a container is the line of its visible children. -/
theorem items_of_members {members : List Member} (h : s.members container = .ok members)
    (layout : LayoutConfig) (axis : Axis) :
    ((s.tree.visibleChildren container).zip
        (members.map fun m => (m.request layout).value)).map (Menu.hide axis) =
      s.shownItems layout axis container := by
  rw [← ids_members h, List.zip_map', List.map_map, shownItems]
  refine Length.map_of_mapM (fun id m hm => ?_) h
  obtain ⟨c, hc, hm⟩ := Length.bind_eq_ok.1 hm
  cases hm
  have hconfig : s.tree.config? id = some c.config := by
    rw [Tree.config?, Tree.get_eq_ok.1 hc]
    rfl
  simp only [Function.comp, item, leastOuter, hconfig, Option.map_some, Option.getD_some]
  rfl

section

variable {target : Size} {first final : Box.Line Float} {next : Box.Handler}
  {outcome : Box.Outcome} {offset : Int} {placements : List Placement}

theorem Handles.reacts (htrigger : 0 ≤ m.triggerSize)
    (h : Handles layout container l (.menu m) s s' target first next outcome offset final
      placements) :
    ∃ n, next = .menu n ∧ (m.retain (s.tree.children container)).Reacts
      (layout.space l.axis target).innerLength (s.shownItems layout l.axis container) n
        outcome := by
  obtain ⟨members, hmembers, hsolve, -⟩ := line_eq_ok h.first_eq
  have hlength : (s.tree.visibleChildren container).length =
      (members.map fun m => (m.request layout).value).length := by
    rw [← ids_members hmembers, List.length_map, List.length_map]
  rw [← items_of_members hmembers]
  exact Menu.react_eq_ok (m := m.retain (s.tree.children container)) hsolve hlength htrigger
    h.react_eq

end

/-! ## What is visible after a reaction -/

theorem isVisible_reveal (o : Box.Outcome) (t : Tree) (i : ComponentId) :
    (Lines.reveal o t).isVisible i =
      if i ∈ o.reveal then (t.get? i).isSome
      else if i ∈ o.hide then false else t.isVisible i := by
  unfold Lines.reveal
  rw [isVisible_setHiddens, isVisible_setHiddens, ← (t.sameShape_setHiddens o.hide true).isSome_eq]
  simp

theorem sameShape_reveal (o : Box.Outcome) (t : Tree) : t.SameShape (Lines.reveal o t) :=
  (t.sameShape_setHiddens o.hide true).trans (Tree.sameShape_setHiddens ..)

theorem visibleChildren_reveal_congr {o : Box.Outcome} {t u : Tree} (hshape : t.SameShape u)
    (hvisible : u.isVisible = t.isVisible) :
    (Lines.reveal o u).visibleChildren container =
      (Lines.reveal o t).visibleChildren container := by
  unfold Tree.visibleChildren
  rw [← (sameShape_reveal o u).children_eq, ← (sameShape_reveal o t).children_eq,
    hshape.children_eq]
  refine List.filter_congr fun i _ => ?_
  rw [isVisible_reveal, isVisible_reveal, hvisible, hshape.isSome_eq]

theorem map_id_shownItems (s : Scene) (layout : LayoutConfig) (axis : Axis)
    (container : ComponentId) :
    (s.shownItems layout axis container).map HiddenItem.id = s.tree.visibleChildren container := by
  rw [shownItems, List.map_map]
  exact List.map_id _

/-- The end of the line is hidden. -/
theorem visibleChildren_hide {t : Tree} (hlinked : t.Linked) {o : Box.Outcome}
    {shown gone : List ComponentId} (hsplit : t.visibleChildren container = shown ++ gone)
    (hhide : o.hide = gone) (hreveal : o.reveal = []) :
    (Lines.reveal o t).visibleChildren container = shown := by
  have hnodup : (shown ++ gone).Nodup := by
    rw [← hsplit]
    exact hlinked.nodup_visibleChildren container
  obtain ⟨-, -, hapart⟩ := List.nodup_append.1 hnodup
  have hfilter : (Lines.reveal o t).visibleChildren container =
      (t.visibleChildren container).filter fun i => !gone.contains i := by
    unfold Tree.visibleChildren
    rw [← (sameShape_reveal o t).children_eq, List.filter_filter]
    refine List.filter_congr fun i _ => ?_
    rw [isVisible_reveal, hhide, hreveal]
    by_cases hmem : i ∈ gone <;> simp [hmem]
  rw [hfilter, hsplit, List.filter_append]
  have hkept : shown.filter (fun i => !gone.contains i) = shown := by
    rw [List.filter_eq_self]
    intro i hi
    have hout : i ∉ gone := fun hmem => hapart i hi i hmem rfl
    simpa using hout
  have hgone : gone.filter (fun i => !gone.contains i) = [] := by
    rw [List.filter_eq_nil_iff]
    intro i hi
    simp [hi]
  rw [hkept, hgone, List.append_nil]

/-- Children behind the menu are shown again. -/
theorem visibleChildren_show {t : Tree} (hlinked : t.Linked) {o : Box.Outcome}
    (hhide : o.hide = []) (hreveal : ∀ i ∈ o.reveal, i ∈ t.children container) :
    (Lines.reveal o t).visibleChildren container =
      (t.children container).filter fun i => o.reveal.contains i || t.isVisible i := by
  unfold Tree.visibleChildren
  rw [← (sameShape_reveal o t).children_eq]
  refine List.filter_congr fun i _ => ?_
  rw [isVisible_reveal, hhide]
  by_cases hmem : i ∈ o.reveal
  · obtain ⟨c, hc⟩ := hlinked.exists_child (hreveal i hmem)
    simp [hmem, hc]
  · simp [hmem]

/-- Children that stand behind all visible ones are shown again. -/
theorem visibleChildren_show_eq {t : Tree} (hlinked : t.Linked) {o : Box.Outcome}
    (hhide : o.hide = [])
    (hbehind : (t.visibleChildren container ++ o.reveal).Sublist (t.children container)) :
    (Lines.reveal o t).visibleChildren container = t.visibleChildren container ++ o.reveal := by
  rw [visibleChildren_show hlinked hhide fun i hi =>
    hbehind.subset (List.mem_append_right _ hi)]
  refine Eq.trans (List.filter_congr fun i hi => ?_)
    (filter_mem_of_sublist hbehind (hlinked.nodup container))
  rw [Bool.eq_iff_iff]
  simp [Tree.visibleChildren, hi, or_comm]

/-- The children that are shown again come on top of those that were visible. -/
theorem perm_show {t : Tree} (hlinked : t.Linked) {o : Box.Outcome} (hhide : o.hide = [])
    (hreveal : ∀ i ∈ o.reveal, i ∈ t.children container)
    (hhidden : ∀ i ∈ o.reveal, t.isVisible i = false) (hnodup : o.reveal.Nodup) :
    ((Lines.reveal o t).visibleChildren container).Perm
      (t.visibleChildren container ++ o.reveal) := by
  rw [visibleChildren_show hlinked hhide hreveal]
  have hvisible : (t.visibleChildren container).Nodup :=
    hlinked.nodup_visibleChildren container
  have happend : (t.visibleChildren container ++ o.reveal).Nodup := by
    refine List.nodup_append.2 ⟨hvisible, hnodup, fun i hi j hj heq => ?_⟩
    have hshown := (List.mem_filter.1 hi).2
    rw [heq, hhidden j hj] at hshown
    cases hshown
  refine (List.perm_ext_iff_of_nodup ((hlinked.nodup container).filter _) happend).2 fun i => ?_
  simp only [Tree.visibleChildren, List.mem_filter, List.mem_append, Bool.or_eq_true,
    List.contains_iff_mem]
  constructor
  · rintro ⟨hi, hmem | hshown⟩
    · exact .inr hmem
    · exact .inl ⟨hi, hshown⟩
  · rintro (⟨hi, hshown⟩ | hmem)
    · exact ⟨hi, .inr hshown⟩
    · exact ⟨hreveal i hmem, .inl hmem⟩

/-! ## What a reaction leaves -/

/-- A scene in which a menu has reacted. -/
structure Follows (s : Scene) (o : Box.Outcome) (t : Scene) : Prop where
  tree : t.tree = Lines.reveal o s.tree
  host : t.host = s.host

variable {inner : Int} {o : Box.Outcome}

theorem Follows.shape (h : Follows s o t) : s.tree.SameShape t.tree := by
  rw [h.tree]
  exact sameShape_reveal o s.tree

theorem Follows.leastOuter_eq (h : Follows s o t) : t.leastOuter = s.leastOuter :=
  leastOuter_congr h.shape.config?_eq.symm (by rw [h.host])

theorem of_mem_shownItems {item : HiddenItem}
    (h : item ∈ s.shownItems layout axis container) : item.id ∈ s.tree.visibleChildren container ∧
      item.outer = s.leastOuter layout axis item.id := by
  obtain ⟨i, hi, rfl⟩ := List.mem_map.1 h
  exact ⟨hi, rfl⟩

/-- Children that a menu keeps after its reaction, as long as they were and not visible. -/
theorem Follows.stows (hfollows : Follows s o t) (hlinked : s.tree.Linked)
    (hlengths : ∀ i ∈ s.tree.children container, 0 ≤ s.leastOuter layout axis i)
    (hchildren : ∀ item ∈ n.hidden, item.id ∈ s.tree.children container)
    (hnodup : (n.hidden.map HiddenItem.id).Nodup)
    (hinvisible : ∀ item ∈ n.hidden, t.tree.isVisible item.id = false)
    (houter : ∀ item ∈ n.hidden, item.outer = s.leastOuter layout axis item.id) :
    t.Stows container layout axis n := by
  refine ⟨hnodup, fun item hitem => ?_, fun item hitem => ?_, fun item hitem => ?_,
    fun item hitem d hd => ?_⟩
  · have hchild := hchildren item hitem
    rw [hfollows.shape.children_eq] at hchild
    rw [(hfollows.shape.linked hlinked).isHidden_child hchild, hinvisible item hitem]
    rfl
  · rw [hfollows.leastOuter_eq]
    exact houter item hitem
  · rw [houter item hitem]
    exact hlengths _ (hchildren item hitem)
  · have hparent := (hlinked.mem_children container item.id).1 (hchildren item hitem)
    rw [← hfollows.shape.parent?_eq, hparent] at hd
    exact (Option.some.inj hd).symm

namespace Stows

/-- Children that the menu keeps are not visible. -/
theorem invisible (h : s.Stows container layout axis m) (hlinked : s.tree.Linked)
    (hmem : ∀ item ∈ m.hidden, item.id ∈ s.tree.children container) {item : HiddenItem}
    (hitem : item ∈ m.hidden) : s.tree.isVisible item.id = false := by
  have hflag := h.hidden item hitem
  rw [hlinked.isHidden_child (hmem item hitem)] at hflag
  simpa using hflag

/-- The end of the line comes before the children that the menu kept already. -/
theorem nodup_append (h : s.Stows container layout axis m) (hlinked : s.tree.Linked)
    (hmem : ∀ item ∈ m.hidden, item.id ∈ s.tree.children container) {shown gone : List HiddenItem}
    (hsplit : s.shownItems layout axis container = shown ++ gone) :
    ((gone ++ m.hidden).map HiddenItem.id).Nodup := by
  rw [List.map_append]
  refine List.nodup_append.2 ⟨?_, h.nodup, ?_⟩
  · have hvisible : (s.tree.visibleChildren container).Nodup :=
      hlinked.nodup_visibleChildren container
    rw [← map_id_shownItems s layout axis container, hsplit, List.map_append] at hvisible
    exact (List.nodup_append.1 hvisible).2.1
  · -- what was visible is not what was hidden
    intro i hi j hj heq
    obtain ⟨new, hnew, rfl⟩ := List.mem_map.1 hi
    obtain ⟨old, hold, rfl⟩ := List.mem_map.1 hj
    have hline : new ∈ s.shownItems layout axis container := by
      rw [hsplit]
      exact List.mem_append_right shown hnew
    have hshown := (List.mem_filter.1 (of_mem_shownItems hline).1).2
    rw [heq, h.invisible hlinked hmem hold] at hshown
    cases hshown

/-- What the menu keeps afterwards is true. -/
theorem of_reacts (h : s.Stows container layout axis m) (hlinked : s.tree.Linked)
    (hmem : ∀ item ∈ m.hidden, item.id ∈ s.tree.children container)
    (hlengths : ∀ i ∈ s.tree.children container, 0 ≤ s.leastOuter layout axis i)
    (hreacts : m.Reacts inner (s.shownItems layout axis container) n o)
    (hfollows : Follows s o t) :
    t.Stows container layout axis n ∧
      ∀ item ∈ n.hidden, item.id ∈ s.tree.children container := by
  cases hreacts with
  | rests none fits =>
    refine ⟨⟨?_, ?_, ?_, ?_, ?_⟩, ?_⟩ <;> simp [none]
  | hides shown gone split cause fits needed =>
    have hline : ∀ item ∈ gone, item ∈ s.shownItems layout axis container := by
      intro item hitem
      rw [split]
      exact List.mem_append_right shown hitem
    have hchildren : ∀ item ∈ gone ++ m.hidden, item.id ∈ s.tree.children container := by
      intro item hitem
      rcases List.mem_append.1 hitem with hnew | hold
      · exact mem_children_of_visible (of_mem_shownItems (hline item hnew)).1
      · exact hmem item hold
    refine ⟨hfollows.stows hlinked hlengths hchildren (h.nodup_append hlinked hmem split) ?_ ?_,
      hchildren⟩
    · intro item hitem
      rw [hfollows.tree, isVisible_reveal, if_neg (by simp)]
      rcases List.mem_append.1 hitem with hnew | hold
      · rw [if_pos (List.mem_map_of_mem hnew)]
      · rw [h.invisible hlinked hmem hold]
        exact ite_self _
    · intro item hitem
      rcases List.mem_append.1 hitem with hnew | hold
      · exact (of_mem_shownItems (hline item hnew)).2
      · exact h.outer item hold
  | shows k some le beside whole needed =>
    have hsub : ∀ item ∈ m.hidden.drop k, item ∈ m.hidden := fun _ => List.mem_of_mem_drop
    have hchildren : ∀ item ∈ m.hidden.drop k, item.id ∈ s.tree.children container :=
      fun item hitem => hmem item (hsub item hitem)
    refine ⟨hfollows.stows hlinked hlengths hchildren ?_ ?_ ?_, hchildren⟩
    · dsimp only
      rw [List.map_drop]
      exact h.nodup.sublist (List.drop_sublist ..)
    · intro item hitem
      have hout : item.id ∉ (m.hidden.take k).map HiddenItem.id := by
        have hnodup := h.nodup
        rw [← List.take_append_drop k m.hidden, List.map_append] at hnodup
        intro hshown
        exact (List.nodup_append.1 hnodup).2.2 _ hshown _ (List.mem_map_of_mem hitem) rfl
      rw [hfollows.tree, isVisible_reveal, if_neg hout, if_neg (by simp)]
      exact h.invisible hlinked hmem (hsub item hitem)
    · exact fun item hitem => h.outer item (hsub item hitem)

end Stows

theorem Follows.shownLength_eq (hfollows : Follows s o t) : t.shownLength layout axis container =
    ((t.tree.visibleChildren container).map (s.leastOuter layout axis)).sum := by
  rw [shownLength, hfollows.leastOuter_eq]

/-- What is left of the line when its end is hidden. -/
theorem Follows.length_hide {shown gone : List HiddenItem} (hfollows : Follows s o t)
    (hlinked : s.tree.Linked) (hsplit : s.shownItems layout axis container = shown ++ gone)
    (hhide : o.hide = gone.map HiddenItem.id) (hreveal : o.reveal = []) :
    t.tree.visibleChildren container = shown.map HiddenItem.id ∧
      t.shownLength layout axis container = total shown := by
  have hids := map_id_shownItems s layout axis container
  rw [hsplit, List.map_append] at hids
  have hvisible : t.tree.visibleChildren container = shown.map HiddenItem.id := by
    rw [hfollows.tree]
    exact visibleChildren_hide hlinked hids.symm hhide hreveal
  refine ⟨hvisible, ?_⟩
  rw [hfollows.shownLength_eq, hvisible, List.map_map, total]
  refine congrArg List.sum (List.map_congr_left fun item hitem => Eq.symm ?_)
  have hline : item ∈ s.shownItems layout axis container := by
    rw [hsplit]
    exact List.mem_append_left gone hitem
  exact (of_mem_shownItems hline).2

/-- The length of the line when some children behind the menu are shown again. -/
theorem Follows.length_show {back : List HiddenItem} (hfollows : Follows s o t)
    (h : s.Stows container layout axis m) (hlinked : s.tree.Linked)
    (hmem : ∀ item ∈ m.hidden, item.id ∈ s.tree.children container)
    (hback : back.Sublist m.hidden) (hhide : o.hide = [])
    (hreveal : o.reveal = back.map HiddenItem.id) :
    t.shownLength layout axis container = s.shownLength layout axis container + total back := by
  have hshow : ∀ i ∈ o.reveal, i ∈ s.tree.children container ∧ s.tree.isVisible i = false := by
    intro i hi
    rw [hreveal] at hi
    obtain ⟨item, hitem, rfl⟩ := List.mem_map.1 hi
    exact ⟨hmem item (hback.subset hitem), h.invisible hlinked hmem (hback.subset hitem)⟩
  have hnodup : o.reveal.Nodup := by
    rw [hreveal]
    exact h.nodup.sublist (hback.map _)
  have hperm := perm_show hlinked hhide (fun i hi => (hshow i hi).1) (fun i hi => (hshow i hi).2)
    hnodup
  rw [← hfollows.tree] at hperm
  rw [hfollows.shownLength_eq, (hperm.map _).sum_eq, List.map_append, List.sum_append, hreveal,
    List.map_map, total, shownLength]
  refine congrArg (_ + ·) (congrArg List.sum (List.map_congr_left fun item hitem => ?_))
  exact (h.outer item (hback.subset hitem)).symm

/-- The visible children fit afterwards, and no more of them are hidden than is needed. -/
theorem Balanced.of_reacts (h : s.Stows container layout axis m) (hlinked : s.tree.Linked)
    (hmem : ∀ item ∈ m.hidden, item.id ∈ s.tree.children container)
    (hinner : 0 ≤ inner) (htrigger : 0 ≤ m.triggerSize)
    (hreacts : m.Reacts inner (s.shownItems layout axis container) n o)
    (hfollows : Follows s o t) : t.Balanced container layout axis inner n := by
  cases hreacts with
  | rests none fits =>
    have hsame : t.shownLength layout axis container = s.shownLength layout axis container := by
      rw [hfollows.shownLength_eq, hfollows.tree]
      rfl
    rw [total_shownItems] at fits
    refine ⟨.inr ?_, fun first rest hhidden => ?_⟩
    · rw [hsame, none]
      simpa using fits
    · rw [none] at hhidden
      cases hhidden
  | hides shown gone split cause fits needed =>
    obtain ⟨hvisible, hshown⟩ := hfollows.length_hide hlinked split rfl rfl
    rw [split, HiddenItem.total_append] at cause
    refine ⟨?_, fun first rest hhidden => ?_⟩
    · rcases fits with hnone | hle
      · left
        rw [hvisible, hnone]
        rfl
      · right
        rw [hshown]
        split <;> dsimp only at * <;> omega
    · rw [hshown]
      dsimp only at hhidden ⊢
      cases gone with
      | cons item others =>
        rw [List.cons_append, List.cons.injEq] at hhidden
        obtain ⟨rfl, -⟩ := hhidden
        exact needed item others rfl
      | nil =>
        -- nothing could be hidden, so that the trigger alone is too long
        have hfirst := h.nonneg first (by rw [← List.nil_append m.hidden, hhidden]; simp)
        rw [HiddenItem.total_nil] at cause
        rcases fits with hnone | hle
        · rw [hnone, HiddenItem.total_nil] at cause ⊢
          omega
        · omega
  | shows k some le beside whole needed =>
    have hshown : t.shownLength layout axis container =
        s.shownLength layout axis container + total (m.hidden.take k) :=
      hfollows.length_show h hlinked hmem (List.take_sublist k _) rfl rfl
    rw [total_shownItems] at beside whole needed
    refine ⟨.inr ?_, fun first rest hhidden => ?_⟩
    · rw [hshown]
      by_cases hall : k = m.hidden.length
      · have hfits := whole hall
        rw [hall, List.take_length, List.drop_length]
        simpa [Int.add_assoc] using hfits
      · have hfits := beside k (Nat.le_refl k) (Nat.lt_of_le_of_ne le hall)
        split
        · omega
        · exact hfits
    · have hfirst := needed first rest hhidden
      rw [hshown]
      split at hfirst <;> dsimp only <;> omega

/-! ## The line that is laid out at last -/

theorem Balanced.shownLength_le (h : s.Balanced container layout axis inner m) :
    s.shownLength layout axis container + (if m.hidden.isEmpty then 0 else m.triggerSize) ≤ inner ∨
      s.shownLength layout axis container = 0 := by
  rcases h.fits with hnone | hle
  · right
    rw [shownLength, hnone]
    rfl
  · exact .inl hle

theorem Balanced.congr (h : s.Balanced container layout axis inner m)
    (houter : t.leastOuter = s.leastOuter)
    (hshown : t.tree.visibleChildren container = s.tree.visibleChildren container) :
    t.Balanced container layout axis inner m := by
  have hlength : t.shownLength layout axis container = s.shownLength layout axis container := by
    unfold shownLength
    rw [hshown, houter]
  refine ⟨?_, ?_⟩
  · rw [hshown, hlength]
    exact h.fits
  · rw [hlength]
    exact h.needed

/-- A line of children that fit is not too narrow. -/
theorem isTooNarrow_line {available : Size} {final : Box.Line Float}
    (h : s.line layout axis container available = .ok final)
    (hfits : s.shownLength layout axis container ≤ (layout.space axis available).innerLength) :
    final.isTooNarrow = false := by
  obtain ⟨members, hmembers, hsolve, -⟩ := line_eq_ok h
  have hlength : (s.tree.visibleChildren container).length =
      (members.map fun m => (m.request layout).value).length := by
    rw [← ids_members hmembers, List.length_map, List.length_map]
  have hfloors : Box.floors axis (members.map fun m => (m.request layout).value) =
      s.shownLength layout axis container := by
    rw [← total_shownItems, ← items_of_members hmembers, Box.Menu.total_line axis hlength]
  rw [(Box.Line.measures hsolve).2, show (layout.space axis available).axis = axis from rfl,
    hfloors]
  exact decide_eq_false (Int.not_lt.2 hfits)

/-- What is kept free is taken from the inner length, as far as that goes. -/
theorem innerLength_remaining {reserved : Box.Reserved} {target rest : Size}
    (h : Lines.remaining axis target reserved = .ok rest)
    (hreserved : 0 ≤ reserved.leading + reserved.trailing) :
    (layout.space axis rest).innerLength =
      max ((layout.space axis target).innerLength - (reserved.leading + reserved.trailing)) 0 := by
  have hmain := (lengths_remaining h).1
  have hpadding := Spacing.nonneg_sidesOrZero layout.padding
  have hstart : 0 ≤ axis.mainStart layout.paddingSides := Axis.mainStart_nonneg hpadding axis
  have hend : 0 ≤ axis.mainEnd layout.paddingSides := Axis.mainEnd_nonneg hpadding axis
  simp only [Box.Space.innerLength, LayoutConfig.space, hmain]
  omega

theorem total_reserved (m : Menu) :
    m.reserved.leading + m.reserved.trailing = if m.hidden.isEmpty then 0 else m.triggerSize := by
  unfold Menu.reserved
  split <;> simp [Box.Reserved.none]

/-- The line that is laid out at last is not too narrow. -/
theorem Handles.final_fits {target : Size} {first final : Box.Line Float} {offset : Int}
    {placements : List Placement}
    (h : Handles layout container l (.menu m) s s' target first (.menu n) o offset final
      placements)
    (hidle : o.recalculate = false → o = .nothing) (htrigger : 0 ≤ n.triggerSize)
    (hbalanced : (s.reacted container l (.menu n) o).Balanced container layout l.axis
      (layout.space l.axis target).innerLength n) :
    ∃ available, (s.reacted container l (.menu n) o).line layout l.axis container available =
        .ok final ∧ final.isTooNarrow = false ∧
      (n.reserved = .none ∧ available = target ∨
        Lines.remaining l.axis target n.reserved = .ok available) := by
  have hinner := (layout.space l.axis target).innerLength_nonneg
  have hkept := total_reserved n
  have hfinal := h.final_eq
  unfold finalLine at hfinal
  split at hfinal
  · obtain ⟨rest, hrest, hfinal⟩ := Length.bind_eq_ok.1 hfinal
    change Lines.remaining l.axis target n.reserved = .ok rest at hrest
    have hroom := @innerLength_remaining layout _ _ _ _ hrest (by split at hkept <;> omega)
    refine ⟨rest, hfinal, isTooNarrow_line hfinal ?_, .inr hrest⟩
    rcases hbalanced.shownLength_le with hle | hzero <;> omega
  · next honce =>
    cases hfinal
    simp only [Bool.or_eq_true, decide_eq_true_eq, not_or, Bool.not_eq_true, ne_eq,
      Decidable.not_not] at honce
    obtain ⟨honce, hreserved⟩ := honce
    have hnothing := hidle honce
    have hsame : s.line layout l.axis container target =
        (s.reacted container l (.menu n) o).line layout l.axis container target := by
      rw [hnothing]
      rfl
    have hfirst := h.first_eq
    rw [hsame] at hfirst
    refine ⟨target, hfirst, isTooNarrow_line hfirst ?_, .inl ⟨hreserved, rfl⟩⟩
    rcases hbalanced.shownLength_le with hle | hzero
    · split at hle <;> omega
    · omega

end Scene

end Trellis
