import Trellis.Proofs.Histories.Passes
import Trellis.Proofs.Menu.Lines

/-!
# A line with a menu through its turns

Between two passes over a line, its children may be taken out of it or put into it, components get
other sizes, other containers are laid out, and the host offers other sizes. What the menu keeps
stays true all the while (`Tended`), so that every pass leaves a line that fits and does not hide
more than it has to.

* `Turn`: what may happen; `preserved_tended`, `tended_step`: it does no harm.
* `menu_keeps_line_fitting`: what the next pass leaves.
-/
namespace Trellis

open Box (HiddenItem Menu)

/-- The kind of layout that lines children up along the axis. -/
def Axis.lineKind : Axis → LayoutKind
  | .horizontal => .hbox
  | .vertical => .vbox

/-- What may happen to the line of a container between two passes over it. -/
inductive Turn where
  /-- A container is laid out, this one or another one. -/
  | layout (d : ComponentId)
  | resize (d : ComponentId) (rect : Rect)
  /-- The host offers other sizes, or vetoes something else. -/
  | host (h : Host)
  /-- A component becomes the last child of the container. -/
  | append (x : ComponentId)
  | remove (x : ComponentId)

def Turn.step (container : ComponentId) : Turn → Step Unit
  | .layout d => Step.layout d
  | .resize d rect => Step.modifyTree fun t => t.applyRect d rect
  | .host h => modify fun s => { s with host := { h with measure := s.host.measure } }
  | .append x => Step.edit fun t => t.appendChild container x
  | .remove x => Step.edit fun t => t.removeChild container x

theorem Arrangement.fresh_menu {layout : LayoutConfig} {axis : Axis}
    (hkind : layout.kind = axis.lineKind) (hhandler : layout.overflowHandler = some .menu) :
    Arrangement.fresh layout = .linear ⟨axis, some (.menu (.fresh layout.triggerSize))⟩ := by
  unfold Arrangement.fresh
  rw [hkind, hhandler]
  cases axis <;> rfl

namespace Scene

variable {s₀ s s' t : Scene} {container d : ComponentId} {layout : LayoutConfig} {axis : Axis}
  {m : Menu} {r : Except LayoutError Unit}

/-- A child takes no negative length, margins included, if none is given for it. -/
theorem leastOuter_nonneg {i : ComponentId}
    (h : ∀ c, s.tree.config? i = some c →
      (Member.request layout ⟨i, c, s.host.measure i c⟩).value.Nonneg) :
    0 ≤ s.leastOuter layout axis i := by
  unfold leastOuter
  cases hconfig : s.tree.config? i with
  | none => exact Int.le_refl 0
  | some c =>
    have hnonneg := h c hconfig
    exact Int.add_nonneg (Box.Request.floorMain_nonneg hnonneg axis)
      (Box.Request.mainMargin_nonneg hnonneg axis)

theorem Stows.congr (h : s.Stows container layout axis m)
    (hflags : ∀ item ∈ m.hidden, t.tree.isHidden item.id = s.tree.isHidden item.id)
    (houter : t.leastOuter = s.leastOuter)
    (hparent : ∀ item ∈ m.hidden, ∀ d, t.tree.parent? item.id = some d →
      d = container ∨ s.tree.parent? item.id = some d) :
    t.Stows container layout axis m := by
  refine ⟨h.nodup, fun item hitem => ?_, fun item hitem => ?_, h.nonneg, fun item hitem d hd => ?_⟩
  · rw [hflags item hitem]
    exact h.hidden item hitem
  · rw [houter]
    exact h.outer item hitem
  · rcases hparent item hitem d hd with heq | hold
    · exact heq
    · exact h.parent item hitem d hold

theorem Stows.of_shape (h : s.Stows container layout axis m)
    (hmeasure : t.host.measure = s.host.measure) (hshape : s.tree.SameShape t.tree)
    (hflags : ∀ item ∈ m.hidden, t.tree.isHidden item.id = s.tree.isHidden item.id) :
    t.Stows container layout axis m := by
  refine h.congr hflags (leastOuter_congr hshape.config?_eq.symm hmeasure) fun item _ d hd => ?_
  rw [hshape.parent?_eq]
  exact .inr hd

theorem Stows.retain (h : s.Stows container layout axis m) (ids : List ComponentId) :
    s.Stows container layout axis (m.retain ids) := by
  have hsub : ∀ item ∈ (m.retain ids).hidden, item ∈ m.hidden := fun _ hitem =>
    (List.mem_filter.1 hitem).1
  refine ⟨h.nodup.sublist (List.filter_sublist.map _), ?_, ?_, ?_, ?_⟩
  · exact fun item hitem => h.hidden item (hsub item hitem)
  · exact fun item hitem => h.outer item (hsub item hitem)
  · exact fun item hitem => h.nonneg item (hsub item hitem)
  · exact fun item hitem => h.parent item (hsub item hitem)

/-- What the menu of a container lists. -/
def listed (s : Scene) (container : ComponentId) : List HiddenItem :=
  match s.kept.get? container with
  | some (.linear ⟨_, some (.menu m)⟩) => m.hidden
  | _ => []

theorem listed_eq (h : s.kept.get? container = some (.linear ⟨axis, some (.menu m)⟩)) :
    s.listed container = m.hidden := by
  rw [listed, h]

theorem listed_congr (h : t.kept.get? container = s.kept.get? container) :
    t.listed container = s.listed container := by
  rw [listed, h]
  rfl

/-- The line has the same children, of which the same ones are visible and listed. -/
structure SameLine (container : ComponentId) (s t : Scene) : Prop where
  children : t.tree.children container = s.tree.children container
  listed : t.listed container = s.listed container
  shown : ∀ i ∈ s.tree.children container, t.tree.isVisible i = s.tree.isVisible i

theorem SameLine.visibleChildren_eq (h : SameLine container s t) :
    t.tree.visibleChildren container = s.tree.visibleChildren container := by
  unfold Tree.visibleChildren
  rw [h.children]
  exact List.filter_congr h.shown

/-- What the menu does to the line in a pass from `s` to `s'`. -/
structure Passed (s s' : Scene) (container : ComponentId) (layout : LayoutConfig) (axis : Axis)
    (inner : Int) (n : Menu) (o : Box.Outcome) : Prop where
  reacts : (Menu.retain ⟨layout.triggerSize, s.listed container⟩
    (s.tree.children container)).Reacts inner (s.shownItems layout axis container) n o
  kept : s'.kept.get? container = some (.linear ⟨axis, some (.menu n)⟩)
  children : s'.tree.children container = s.tree.children container
  shown : s'.tree.visibleChildren container =
    (Lines.reveal o s.tree).visibleChildren container

/-- In a pass, the end of the line joins the front of the menu's list, or the front of the list is
shown again. Both concern what the menu lists of the container's children only. -/
theorem Passed.moves {inner : Int} {n : Menu} {o : Box.Outcome} {old : List HiddenItem}
    (h : Passed s s' container layout axis inner n o) (hlinked : s.tree.Linked)
    (hold : (Menu.retain ⟨layout.triggerSize, s.listed container⟩
      (s.tree.children container)).hidden = old) :
    (∃ shown gone, s.tree.visibleChildren container = shown ++ gone ∧
      s'.tree.visibleChildren container = shown ∧
      s'.listed container = gone.map (s.item layout axis) ++ old) ∨
    ∃ back kept, old = back ++ kept ∧ s'.listed container = kept ∧
      ((s.tree.visibleChildren container ++ back.map HiddenItem.id).Sublist
          (s.tree.children container) →
        s'.tree.visibleChildren container =
          s.tree.visibleChildren container ++ back.map HiddenItem.id) := by
  have hreacts := h.reacts
  rw [listed_eq h.kept, h.shown]
  cases hreacts with
  | rests none fits =>
    rw [none] at hold
    refine .inr ⟨[], [], hold.symm, none, fun _ => ?_⟩
    rw [List.map_nil, List.append_nil]
    rfl
  | hides front back hline cause fits needed =>
    obtain ⟨shown, gone, hsplit, rfl, rfl⟩ := List.map_eq_append_iff.1 hline
    have hids : (gone.map (s.item layout axis)).map HiddenItem.id = gone := by
      rw [List.map_map]
      exact List.map_id _
    refine .inl ⟨shown, gone, hsplit, visibleChildren_hide hlinked hsplit hids rfl, ?_⟩
    rw [← hold]
  | shows k some le beside whole needed =>
    rw [hold]
    refine .inr ⟨old.take k, old.drop k, (List.take_append_drop k old).symm, rfl, fun hbehind => ?_⟩
    exact visibleChildren_show_eq hlinked rfl hbehind

/-- What a pass that was offered `target` leaves of a line with a menu. -/
structure Trimmed (s : Scene) (container : ComponentId) (layout : LayoutConfig) (axis : Axis)
    (target : Size) (m : Menu) : Prop extends
    Balanced s container layout axis (layout.space axis target).innerLength m where
  nodup : (m.hidden.map HiddenItem.id).Nodup
  listed : ∀ item ∈ m.hidden,
    item.id ∈ s.tree.children container ∧ s.tree.isHidden item.id = true
  /-- The line that was laid out at last: in all of `target`, or in what the trigger leaves. -/
  final : ∃ available line, s.line layout axis container available = .ok line ∧
    line.isTooNarrow = false ∧ (m.reserved = .none ∧ available = target ∨
      Lines.remaining axis target m.reserved = .ok available)

/-- A line whose menu is as good as when the line was `s₀`. -/
structure Tended (s₀ : Scene) (container : ComponentId) (layout : LayoutConfig) (axis : Axis)
    (s : Scene) : Prop where
  forest : s.tree.Forest
  config : s.tree.config? = s₀.tree.config?
  measure : s.host.measure = s₀.host.measure
  /-- The container has not come into another component. -/
  above : ∀ x, s.tree.Inside x container → s₀.tree.Inside x container
  lengths : ∀ i ∈ s.tree.children container, 0 ≤ s₀.leastOuter layout axis i
  keeps : ∀ a, s.kept.get? container = some a → ∃ m, a = .linear ⟨axis, some (.menu m)⟩ ∧
    m.triggerSize = layout.triggerSize ∧ s.Stows container layout axis m

/-- A line that has not been laid out yet. -/
theorem tended_fresh (hforest : s₀.tree.Forest) (hfresh : s₀.kept.get? container = none)
    (hlengths : ∀ i ∈ s₀.tree.children container, 0 ≤ s₀.leastOuter layout axis i) :
    Tended s₀ container layout axis s₀ := by
  refine ⟨hforest, rfl, rfl, fun _ => id, hlengths, fun a ha => ?_⟩
  rw [hfresh] at ha
  cases ha

namespace Tended

theorem leastOuter_eq (h : Tended s₀ container layout axis s) : s.leastOuter = s₀.leastOuter :=
  leastOuter_congr h.config h.measure

/-- The tree stays in shape, and what the menu keeps is still true. -/
theorem of_keeps (h : Tended s₀ container layout axis s)
    (hmeasure : t.host.measure = s.host.measure) (hshape : s.tree.SameShape t.tree)
    (hkeeps : ∀ a, t.kept.get? container = some a → ∃ m, a = .linear ⟨axis, some (.menu m)⟩ ∧
      m.triggerSize = layout.triggerSize ∧ t.Stows container layout axis m) :
    Tended s₀ container layout axis t := by
  refine ⟨hshape.forest h.forest, hshape.config?_eq.symm.trans h.config, hmeasure.trans h.measure,
    ?_, ?_, hkeeps⟩
  · rw [← hshape.inside_eq]
    exact h.above
  · rw [← hshape.children_eq]
    exact h.lengths

/-- The flags stay as they are, at least those of the container's children and of what has no
parent. -/
theorem of_flags (h : Tended s₀ container layout axis s)
    (hmeasure : t.host.measure = s.host.measure) (hshape : s.tree.SameShape t.tree)
    (hkept : t.kept.get? container = s.kept.get? container)
    (hflags : ∀ i, (∀ d, s.tree.parent? i = some d → d = container) →
      t.tree.isHidden i = s.tree.isHidden i) : Tended s₀ container layout axis t := by
  refine h.of_keeps hmeasure hshape fun a ha => ?_
  rw [hkept] at ha
  obtain ⟨m, rfl, htrigger, hstows⟩ := h.keeps a ha
  refine ⟨m, rfl, htrigger, hstows.of_shape hmeasure hshape fun item hitem => ?_⟩
  exact hflags item.id (hstows.parent item hitem)

/-- What another layout touches are no children of the container. -/
theorem of_touches (h : Tended s₀ container layout axis s) (hne : d ≠ container)
    (htouches : Touches d s t) : Tended s₀ container layout axis t := by
  have hshape := htouches.tree.toSameShape
  refine h.of_flags (by rw [htouches.host]) hshape (htouches.kept container hne.symm).symm ?_
  intro i hparent
  refine (htouches.tree.isHidden_eq fun hmem => hne ?_).symm
  exact hparent d ((h.forest.mem_children d i).1 hmem)

end Tended

section

variable (hlayout : s₀.tree.layout? container = some layout)
  (hkind : layout.kind = axis.lineKind) (hhandler : layout.overflowHandler = some .menu)

include hlayout in
theorem Tended.layoutOf (h : Tended s₀ container layout axis s) :
    s.tree.layoutOf container = .ok layout := by
  refine Tree.layoutOf_of_layout? ?_
  rw [Tree.layout?_congr h.config, hlayout]

include hkind hhandler in
/-- The menu that a pass finds, or makes. -/
theorem Tended.arrangement (h : Tended s₀ container layout axis s) :
    ∃ m, s.arrangement layout container = .linear ⟨axis, some (.menu m)⟩ ∧
      m.triggerSize = layout.triggerSize ∧ m.hidden = s.listed container ∧
      s.Stows container layout axis m := by
  cases hkept : s.kept.get? container with
  | none =>
    rw [arrangement_of_unused hkept, Arrangement.fresh_menu hkind hhandler]
    refine ⟨_, rfl, rfl, ?_, by constructor <;> simp [Menu.fresh]⟩
    rw [listed, hkept]
    rfl
  | some a =>
    obtain ⟨m, rfl, hsize, hstows⟩ := h.keeps a hkept
    have hsame : (Arrangement.linear ⟨axis, some (.menu m)⟩).kind = layout.kind := by
      rw [hkind]
      cases axis <;> rfl
    rw [arrangement_of_kept hkept hsame]
    exact ⟨m, rfl, hsize, (listed_eq hkept).symm, hstows⟩

include hlayout hkind hhandler in
theorem tended_ready {layout' : LayoutConfig} (h : Tended s₀ container layout axis s)
    (hd : s.tree.layoutOf d = .ok layout') :
    Tended s₀ container layout axis (s.ready layout' d) := by
  have hshape := (s.tree.agree_renderChildren d).toSameShape
  have hflags : ∀ i, (s.tree.renderChildren d).isHidden i = s.tree.isHidden i := fun i =>
    (hshape.isHidden_eq (by rw [Tree.isVisible_renderChildren])).symm
  by_cases heq : d = container
  · subst heq
    rw [h.layoutOf hlayout] at hd
    cases hd
    obtain ⟨m, ha, htrigger, -, hstows⟩ := h.arrangement hkind hhandler
    refine h.of_keeps rfl hshape fun a hkept => ?_
    rw [kept_ready_self, Option.some.injEq] at hkept
    subst hkept
    exact ⟨m, ha, htrigger, hstows.of_shape rfl hshape fun item _ => hflags item.id⟩
  · refine h.of_flags rfl hshape ?_ fun i _ => hflags i
    rw [kept_ready (.refl s), if_neg (Ne.symm heq)]

end

/-- A pass over the line. -/
theorem Tended.arranged (h : Tended s₀ container layout axis s)
    (hknown : s.kept.get? container = some (.linear ⟨axis, some (.menu m)⟩))
    (htrigger : 0 ≤ layout.triggerSize)
    (hrun : s.run (Lines.arrange layout container ⟨axis, some (.menu m)⟩) = .ok (r, s')) :
    Tended s₀ container layout axis s' ∧ ∃ n o target,
      s.host.targetSize s.tree container = .ok target ∧
      Passed s s' container layout axis (layout.space axis target).innerLength n o ∧
      s'.Trimmed container layout axis target n := by
  obtain ⟨m', heq, hsize, hstows⟩ := h.keeps _ hknown
  cases heq
  obtain ⟨-, target, first, next, o, offset, final, placements, hhandles⟩ :=
    run_linear_of_handler rfl hrun
  have htrigger' : 0 ≤ m.triggerSize := by omega
  obtain ⟨n, rfl, hreacts⟩ := hhandles.reacts htrigger'
  have htriggers : n.triggerSize = m.triggerSize := hreacts.triggerSize_eq
  have hfollows : Follows s o (s.reacted container ⟨axis, some (.menu m)⟩ (.menu n) o) := ⟨rfl, rfl⟩
  have hretained := hstows.retain (s.tree.children container)
  have hmem : ∀ item ∈ (m.retain (s.tree.children container)).hidden,
      item.id ∈ s.tree.children container := by
    intro item hitem
    simpa using (List.mem_filter.1 hitem).2
  have hlengths : ∀ i ∈ s.tree.children container, 0 ≤ s.leastOuter layout axis i := by
    rw [h.leastOuter_eq]
    exact h.lengths
  obtain ⟨hreacted, hlisted⟩ :=
    hretained.of_reacts h.forest.toLinked hmem hlengths hreacts hfollows
  have hbalanced := Balanced.of_reacts hretained h.forest.toLinked hmem
    (layout.space axis target).innerLength_nonneg htrigger' hreacts hfollows
  obtain ⟨available, hline, hfits, havailable⟩ :=
    hhandles.final_fits hreacts.idle (by omega) hbalanced
  -- placing children changes nothing of that
  have hplaces := hhandles.places
  have hmeasure : s'.host.measure = s.host.measure := by rw [hplaces.host]; rfl
  have hshape : (Lines.reveal o s.tree).SameShape s'.tree := by
    rw [hplaces.tree]
    exact Tree.sameShape_applyPlacements ..
  have hvisible : s'.tree.isVisible = (Lines.reveal o s.tree).isVisible := hplaces.isVisible_eq
  have hflags : ∀ i, s'.tree.isHidden i = (Lines.reveal o s.tree).isHidden i := fun i =>
    (hshape.isHidden_eq (by rw [hvisible])).symm
  have hplaced : s'.Stows container layout axis n :=
    hreacted.of_shape (by rw [hplaces.host]) hshape fun item _ => hflags item.id
  have hkept : s'.kept.get? container = some (.linear ⟨axis, some (.menu n)⟩) := by
    rw [hplaces.kept, reacted, IdMap.get?_insert, if_pos rfl]
  have hchildren : s'.tree.children container = s.tree.children container := by
    rw [← hshape.children_eq, ← (sameShape_reveal o s.tree).children_eq]
  have hshown : s'.tree.visibleChildren container =
      (Lines.reveal o s.tree).visibleChildren container := by
    unfold Tree.visibleChildren
    rw [← hshape.children_eq, hvisible]
  refine ⟨?_, n, o, target, hhandles.target_eq, ⟨?_, hkept, hchildren, hshown⟩,
    ⟨?_, hplaced.nodup, ?_, available, final, ?_, hfits, havailable⟩⟩
  · refine h.of_keeps hmeasure (hfollows.shape.trans hshape) fun a ha => ?_
    rw [hkept, Option.some.injEq] at ha
    exact ⟨n, ha.symm, htriggers.trans hsize, hplaced⟩
  · rw [listed_eq hknown, ← hsize]
    exact hreacts
  · exact hbalanced.congr (leastOuter_congr hshape.config?_eq.symm (by rw [hplaces.host])) hshown
  · intro item hitem
    rw [hchildren]
    exact ⟨hlisted item hitem, hplaced.hidden item hitem⟩
  · rw [← hline]
    unfold line members
    rw [hshown, member_congr hplaces.host hshape.symm]
    rfl

/-- Rendering the children makes no difference to the menu. -/
theorem Passed.of_ready {inner : Int} {n : Menu} {o : Box.Outcome} {ready laid : Scene}
    (h : Passed ready laid container layout axis inner n o)
    (hsilent : Silent (s.ready layout container) ready)
    (hlisted : ready.listed container = s.listed container) :
    Passed s laid container layout axis inner n o := by
  have hshape : s.tree.SameShape ready.tree := by
    rw [hsilent.tree]
    exact (s.tree.agree_renderChildren container).toSameShape
  have hvisible : ready.tree.isVisible = s.tree.isVisible := by
    rw [hsilent.tree]
    exact s.tree.isVisible_renderChildren container
  have hitems : ready.shownItems layout axis container = s.shownItems layout axis container := by
    unfold shownItems item Tree.visibleChildren
    rw [hvisible, ← hshape.children_eq,
      leastOuter_congr hshape.config?_eq.symm (by rw [hsilent.host]; rfl)]
  have hchildren := congrFun hshape.children_eq container
  obtain ⟨hreacts, hkept, hlaid, hshown⟩ := h
  rw [hlisted, hitems, ← hchildren] at hreacts
  refine ⟨hreacts, hkept, hlaid.trans hchildren.symm, ?_⟩
  rw [hshown, visibleChildren_reveal_congr hshape hvisible]

theorem Passed.of_sees {inner : Int} {n : Menu} {o : Box.Outcome}
    (h : Passed s t container layout axis inner n o) (hsees : Sees container t s')
    (hkept : t.kept.get? container = s'.kept.get? container) :
    Passed s s' container layout axis inner n o :=
  ⟨h.reacts, by rw [← hkept, h.kept], by rw [← hsees.shape.children_eq, h.children],
    by rw [← hsees.visibleChildren_eq, h.shown]⟩

theorem Trimmed.of_sees {target : Size} (h : s.Trimmed container layout axis target m)
    (hsees : Sees container s t) :
    t.Trimmed container layout axis target m := by
  have houter : t.leastOuter = s.leastOuter :=
    leastOuter_congr hsees.shape.config?_eq.symm (by rw [hsees.host])
  obtain ⟨available, line, hline, hfinal⟩ := h.final
  refine ⟨h.toBalanced.congr houter hsees.visibleChildren_eq.symm, h.nodup, ?_, available, line, ?_,
    hfinal⟩
  · intro item hitem
    obtain ⟨hchild, hhidden⟩ := h.listed item hitem
    refine ⟨by rwa [← hsees.shape.children_eq], ?_⟩
    rwa [← hsees.shape.isHidden_eq (hsees.shown item.id hchild)]
  · rw [← hline]
    unfold Scene.line
    rw [hsees.members_eq]

section

variable (hlayout : s₀.tree.layout? container = some layout)
  (hkind : layout.kind = axis.lineKind) (hhandler : layout.overflowHandler = some .menu)
  (htrigger : 0 ≤ layout.triggerSize)

include hlayout hkind hhandler htrigger

/-- Passes do no harm, whichever container they are over. -/
theorem preserved_tended : Preserved (fun _ => True) (Tended s₀ container layout axis) := by
  refine ⟨?_, fun _ _ _ _ => trivial, fun h _ hd => tended_ready hlayout hkind hhandler h hd, ?_⟩
  · intro s t hsilent h
    refine h.of_flags (by rw [hsilent.host]) ?_ (by rw [hsilent.kept]) fun i _ => ?_
    · rw [hsilent.tree]
      exact .refl s.tree
    · rw [hsilent.tree]
  · intro s s' d layout' a r h _ hd hkept _ hrun
    by_cases heq : d = container
    · subst heq
      rw [h.layoutOf hlayout] at hd
      cases hd
      obtain ⟨m, rfl, -⟩ := h.keeps a hkept
      exact (h.arranged hkept htrigger hrun).1
    · exact h.of_touches heq (touches_arrange h.forest.toLinked hrun)

/-- Nor does anything else that may happen to the line. -/
theorem tended_step {turn : Turn}
    (hlengths : ∀ x, turn = .append x → 0 ≤ s₀.leastOuter layout axis x)
    (happend : ∀ x, turn = .append x → ¬ s₀.tree.Inside x container)
    (h : Tended s₀ container layout axis s) (hrun : s.run (turn.step container) = .ok (r, s')) :
    Tended s₀ container layout axis s' := by
  cases turn with
  | layout d => exact (preserved_tended hlayout hkind hhandler htrigger).of_layout trivial h hrun
  | resize d rect =>
    cases hrun
    have hshape := s.tree.sameShape_applyRect d rect
    refine h.of_flags rfl hshape rfl fun i _ => (hshape.isHidden_eq ?_).symm
    rw [Tree.isVisible_applyRect]
  | host g =>
    cases hrun
    exact h.of_flags rfl (.refl s.tree) rfl fun _ _ => rfl
  | append x =>
    obtain ⟨t, ht, rfl⟩ := run_edit_eq_ok hrun
    obtain ⟨hc, hx, rfl⟩ := Tree.appendChild_eq_ok ht
    have hapart : ¬ s.tree.Inside x container := fun hin => happend x rfl (h.above x hin)
    have hsame := s.tree.rearranged_attach container x
    have hconfig := hsame.config?_eq.symm
    refine ⟨h.forest.attach hc hx hapart, hconfig.trans h.config, h.measure, fun y hy => ?_,
      fun i hi => ?_, fun a ha => ?_⟩
    · exact h.above y (Tree.inside_of_attach h.forest.toLinked hx hapart hy)
    · rw [(h.forest.toLinked.attach hc hx).mem_children, h.forest.toLinked.parent?_attach hx] at hi
      split at hi
      · next heq => exact heq ▸ hlengths x rfl
      · exact h.lengths i ((h.forest.mem_children container i).2 hi)
    · obtain ⟨m, rfl, hsize, hstows⟩ := h.keeps a ha
      refine ⟨m, rfl, hsize, hstows.congr (fun item _ => ?_) (leastOuter_congr hconfig rfl) ?_⟩
      · rw [hsame.isHidden_eq]
      · intro item _ d hd
        rw [h.forest.toLinked.parent?_attach hx] at hd
        split at hd
        · exact .inl (Option.some.inj hd).symm
        · exact .inr hd
  | remove x =>
    obtain ⟨t, ht, rfl⟩ := run_edit_eq_ok hrun
    obtain rfl := Tree.removeChild_eq_ok ht
    have hsame := s.tree.rearranged_detach container x
    have hconfig := hsame.config?_eq.symm
    refine ⟨h.forest.detach container x, hconfig.trans h.config, h.measure, fun y hy => ?_,
      fun i hi => ?_, fun a ha => ?_⟩
    · exact h.above y (Tree.inside_of_detach hy)
    · rw [Tree.children_detach, if_pos rfl] at hi
      exact h.lengths i (List.mem_of_mem_erase hi)
    · obtain ⟨m, rfl, hsize, hstows⟩ := h.keeps a ha
      refine ⟨m, rfl, hsize, hstows.congr (fun item _ => ?_) (leastOuter_congr hconfig rfl) ?_⟩
      · rw [hsame.isHidden_eq]
      · intro item _ d hd
        rw [Tree.parent?_detach] at hd
        split at hd
        · cases hd
        · exact .inr hd

/-! ## What only the line itself changes -/

/-- A property of a line that is looked after, which depends on its children, on which of them are
visible and on what the menu lists. The line's own passes preserve it. -/
structure OfLine (s₀ : Scene) (container : ComponentId) (layout : LayoutConfig) (axis : Axis)
    (P : Scene → Prop) : Prop where
  tended : ∀ {s : Scene}, P s → Tended s₀ container layout axis s
  same : ∀ {s t : Scene}, P s → Tended s₀ container layout axis t → SameLine container s t → P t
  passed : ∀ {s s' : Scene} {inner : Int} {n : Menu} {o : Box.Outcome}, P s →
    Tended s₀ container layout axis s' → Passed s s' container layout axis inner n o → P s'

theorem OfLine.preserved {P : Scene → Prop} (hline : OfLine s₀ container layout axis P) :
    Preserved (fun _ => True) P := by
  have htended := preserved_tended hlayout hkind hhandler htrigger
  refine ⟨?_, fun _ _ _ _ => trivial, ?_, ?_⟩
  · intro s t hsilent h
    refine hline.same h (htended.silent hsilent (hline.tended h))
      ⟨?_, listed_congr (by rw [hsilent.kept]), fun i _ => ?_⟩
    · rw [hsilent.tree]
    · rw [hsilent.tree]
  · intro s d layout' h _ hd
    have hs := hline.tended h
    have hshape := (s.tree.agree_renderChildren d).toSameShape
    refine hline.same h (htended.ready hs trivial hd) ⟨?_, ?_, fun i _ => ?_⟩
    · exact congrFun hshape.children_eq.symm container
    · by_cases heq : d = container
      · subst heq
        rw [hs.layoutOf hlayout] at hd
        cases hd
        obtain ⟨m, ha, -, hlisted, -⟩ := hs.arrangement hkind hhandler
        rw [← hlisted]
        exact listed_eq (by rw [kept_ready_self, ha])
      · refine listed_congr ?_
        rw [kept_ready (.refl s), if_neg (Ne.symm heq)]
    · exact congrFun (s.tree.isVisible_renderChildren d) i
  · intro s s' d layout' a r h _ hd hkept hkinds hrun
    have hs := hline.tended h
    have ht := htended.arrange hs trivial hd hkept hkinds hrun
    by_cases heq : d = container
    · subst heq
      rw [hs.layoutOf hlayout] at hd
      cases hd
      obtain ⟨m, rfl, -⟩ := hs.keeps a hkept
      obtain ⟨-, n, o, target, -, hpassed, -⟩ := hs.arranged hkept htrigger hrun
      exact hline.passed h ht hpassed
    · have htouches := touches_arrange hs.forest.toLinked hrun
      refine hline.same h ht ⟨congrFun htouches.children_eq container,
        listed_congr (htouches.kept container (Ne.symm heq)).symm, fun i hi => ?_⟩
      refine (htouches.tree.isVisible_eq fun hmem => heq ?_).symm
      rw [hs.forest.mem_children] at hi hmem
      rw [hi] at hmem
      exact (Option.some.inj hmem).symm

/-- As long as the line keeps its children, every turn preserves the property. -/
theorem OfLine.step {P : Scene → Prop} (hline : OfLine s₀ container layout axis P) {turn : Turn}
    (hkeeps : ∀ x, turn ≠ .append x ∧ turn ≠ .remove x) (h : P s)
    (hrun : s.run (turn.step container) = .ok (r, s')) : P s' := by
  have ht : Tended s₀ container layout axis s' := by
    refine tended_step hlayout hkind hhandler htrigger ?_ ?_ (hline.tended h) hrun
    · exact fun x heq => absurd heq (hkeeps x).1
    · exact fun x heq => absurd heq (hkeeps x).1
  cases turn with
  | layout d => exact (hline.preserved hlayout hkind hhandler htrigger).of_layout trivial h hrun
  | append x => exact absurd rfl (hkeeps x).1
  | remove x => exact absurd rfl (hkeeps x).2
  | resize d rect =>
    cases hrun
    have hshape := s.tree.sameShape_applyRect d rect
    refine hline.same h ht ⟨congrFun hshape.children_eq.symm container, rfl, fun i _ => ?_⟩
    exact congrFun (s.tree.isVisible_applyRect d rect) i
  | host g =>
    cases hrun
    exact hline.same h ht ⟨rfl, rfl, fun _ _ => rfl⟩

/-- What a pass leaves of a line that is looked after. -/
theorem Tended.passed (h : Tended s₀ container layout axis s)
    (hheard : s.host.vetoed container .beforeLayout = false)
    (hrun : s.run (Step.layout container) = .ok (r, s')) :
    ∃ n o target, s.host.targetSize (s.tree.renderChildren container) container = .ok target ∧
      Passed s s' container layout axis (layout.space axis target).innerLength n o ∧
      s'.Trimmed container layout axis target n := by
  have hd := h.layoutOf hlayout
  obtain ⟨ready, r₁, laid, hsilent, harrange, -, hagree⟩ :=
    exists_arranged h.forest hd hheard hrun
  have hready := tended_ready hlayout hkind hhandler h hd
  have htended := (preserved_tended hlayout hkind hhandler htrigger).silent hsilent hready
  obtain ⟨m, ha, -, hlisted, -⟩ := h.arrangement hkind hhandler
  have hkept : ready.kept.get? container = some (.linear ⟨axis, some (.menu m)⟩) := by
    rw [hsilent.kept, kept_ready_self, ha]
  rw [ha] at harrange
  obtain ⟨-, n, o, target, htarget, hpassed, htrimmed⟩ :=
    htended.arranged hkept htrigger harrange
  have hsees := @Agree.sees _ _ container _ _ hagree fun _ hi => hi
  have hsame : ready.listed container = s.listed container := by
    rw [listed_eq hkept, hlisted]
  rw [hsilent.host, hsilent.tree] at htarget
  exact ⟨n, o, target, htarget,
    (hpassed.of_ready hsilent hsame).of_sees hsees (hagree.kept container rfl),
    htrimmed.of_sees hsees⟩

/-- A line that has not been laid out yet, after any turns. -/
theorem tended_after {turns : List Turn} (hforest : s₀.tree.Forest)
    (hfresh : s₀.kept.get? container = none)
    (hlengths : ∀ i, i ∈ s₀.tree.children container ∨ .append i ∈ turns →
      0 ≤ s₀.leastOuter layout axis i)
    (happend : ∀ i, .append i ∈ turns → ¬ s₀.tree.Inside i container)
    (hturns : s₀.after (turns.map (Turn.step container)) = .ok s) :
    Tended s₀ container layout axis s := by
  have hstart : Tended s₀ container layout axis s₀ :=
    tended_fresh hforest hfresh fun i hi => hlengths i (.inl hi)
  refine after_preserves (fun x hx s s' r h hrun => ?_) hstart hturns
  obtain ⟨turn, hturn, rfl⟩ := List.mem_map.1 hx
  refine tended_step hlayout hkind hhandler htrigger ?_ ?_ h hrun
  · rintro i rfl
    exact hlengths i (.inr hturn)
  · rintro i rfl
    exact happend i hturn

end

end Scene

/-- A menu keeps its line fitting. A row or column that hides children behind a menu has not been
laid out yet; then it goes through any turns that move children in and out of it, none of negative
length and none that the container is in. Whatever the sizes are at last, a pass that the host does
not veto leaves a line that is `Trimmed`: the listed children are hidden children, each listed once;
what is visible fits beside the trigger, or nothing is visible; and with the first listed child it
would not fit. -/
theorem menu_keeps_line_fitting {s₀ s s' : Scene} {container : ComponentId} {layout : LayoutConfig}
    {axis : Axis} {turns : List Turn} {r : Except LayoutError Unit}
    (hforest : s₀.tree.Forest) (hfresh : s₀.kept.get? container = none)
    (hlayout : s₀.tree.layout? container = some layout) (hkind : layout.kind = axis.lineKind)
    (hhandler : layout.overflowHandler = some .menu) (htrigger : 0 ≤ layout.triggerSize)
    (hlengths : ∀ i, i ∈ s₀.tree.children container ∨ .append i ∈ turns →
      0 ≤ s₀.leastOuter layout axis i)
    (happend : ∀ i, .append i ∈ turns → ¬ s₀.tree.Inside i container)
    (hturns : s₀.after (turns.map (Turn.step container)) = .ok s)
    (hheard : s.host.vetoed container .beforeLayout = false)
    (hpass : s.run (Step.layout container) = .ok (r, s')) :
    ∃ m target, s'.kept.get? container = some (.linear ⟨axis, some (.menu m)⟩) ∧
      s.host.targetSize (s.tree.renderChildren container) container = .ok target ∧
      s'.Trimmed container layout axis target m := by
  have htended := Scene.tended_after hlayout hkind hhandler htrigger hforest hfresh hlengths happend
    hturns
  obtain ⟨m, o, target, htarget, hpassed, htrimmed⟩ :=
    htended.passed hlayout hkind hhandler htrigger hheard hpass
  exact ⟨m, target, hpassed.kept, htarget, htrimmed⟩

section

private def toolbarLayout : LayoutConfig :=
  { kind := .hbox, overflowHandler := some .menu, triggerSize := 20 }

private def button : ItemConfig := { width := some 40, height := some 20 }

/-- Four buttons in a row with a menu. -/
private def buttonRow : Scene :=
  .ofTree (.ofDescription (.node { layout := some toolbarLayout }
    [.node button [], .node button [], .node button [], .node button []])) .standard

/-- The row is laid out in a width for two buttons, the last button is taken out, and the first one
is moved to the end. -/
private def buttonMoves : List Turn :=
  [.resize 0 ⟨0, 0, 100, 20⟩, .layout 0, .remove 4, .remove 1, .append 1]

theorem menu_keeps_moved_buttons_fitting :
    ∃ s s' m target, buttonRow.after (buttonMoves.map (Turn.step 0)) = .ok s ∧
      s.run (Step.layout 0) = .ok (.ok (), s') ∧
      s'.kept.get? 0 = some (.linear ⟨.horizontal, some (.menu m)⟩) ∧
      m.hidden = [⟨3, 40⟩] ∧ s'.tree.visibleChildren 0 = [2, 1] ∧
      s'.Trimmed 0 toolbarLayout .horizontal target m := by
  have hforest : buttonRow.tree.Forest := (Tree.nested_ofDescription _).forest
  have hlengths : ∀ i ∈ [1, 2, 3, 4], 0 ≤ buttonRow.leastOuter toolbarLayout .horizontal i := by
    intro i hi
    refine Scene.leastOuter_nonneg fun c hc => ?_
    simp only [List.mem_cons, List.not_mem_nil, or_false] at hi
    rcases hi with rfl | rfl | rfl | rfl <;>
    · obtain rfl : button = c := Option.some.inj hc
      decide +kernel
  have hmoved : ∀ {i}, .append i ∈ buttonMoves → i = 1 := by
    intro i hi
    simpa [buttonMoves] using hi
  obtain ⟨s, r, s', hturns, hpass, hview⟩ := Scene.runs_of_viewLast
    (show buttonRow.viewLast (buttonMoves.map (Turn.step 0)) (Step.layout 0) (fun mid r s' =>
        (mid.host.vetoed 0 .beforeLayout, r, s'.listed 0, s'.tree.visibleChildren 0)) =
      some (false, .ok (), [⟨3, 40⟩], [2, 1]) by decide +kernel)
  simp only [Prod.mk.injEq] at hview
  obtain ⟨hheard, rfl, hlisted, hvisible⟩ := hview
  obtain ⟨m, target, hkept, -, htrimmed⟩ := menu_keeps_line_fitting hforest rfl rfl rfl rfl
    (by decide)
    (by
      rintro i (hi | hi)
      · exact hlengths i hi
      · obtain rfl := hmoved hi
        exact hlengths 1 (by simp))
    (by
      intro i hi
      obtain rfl := hmoved hi
      exact hforest.not_inside_child rfl)
    hturns hheard hpass
  rw [Scene.listed_eq hkept] at hlisted
  exact ⟨s, s', m, target, hturns, hpass, hkept, hlisted, hvisible, htrimmed⟩

end

end Trellis
