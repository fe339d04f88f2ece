import Trellis.Layout.Anchored
import Trellis.Proofs.Relayout.Settling

/-!
# Anchors settle

The first pass over anchored children builds their anchors and evaluates them; the second one finds
them built and gets the lengths that they remember, since the content box has not changed.

* `placeFrom_again`: with the anchors that a pass leaves, the children are placed as in that pass.
* `settles_anchored`: what anchor, absolute and form layouts leave is settled.
-/
namespace Trellis

theorem AnchorPair.evaluate_evaluate (p : AnchorPair) (content : Size) :
    (p.evaluate content).2.evaluate content = p.evaluate content := by
  rcases p with ⟨_ | w, _ | h⟩ <;> simp [evaluate, Anchor.evaluate_evaluate]

namespace Anchored

variable {layout : LayoutConfig} {content : Rect} {reference reference' : Option Int × Option Int}
  {a b : Anchored} {y : Int} {m : Member} {members rest : List Member} {placed : List Placed}

/-! ## Placing children from a line downward -/

/-- The anchors of a child: those that are kept, else new ones. -/
def pairOf (a : Anchored) (reference : Option Int × Option Int) (m : Member) :
    Checked AnchorPair :=
  match a.anchors.get? m.id with
  | some pair => .ok pair
  | none => (AnchorPair.build m.config reference).run.value

/-- What is kept after a child whose anchors are `pair`. -/
def remember (a : Anchored) (content : Rect) (m : Member) (pair : AnchorPair) : Anchored :=
  { a with anchors := a.anchors.insert m.id (pair.evaluate content.size).2 }

theorem value_placeFrom_cons (layout : LayoutConfig) (content : Rect)
    (reference : Option Int × Option Int) (a : Anchored) (y : Int) (m : Member)
    (rest : List Member) :
    (placeFrom layout content reference a y (m :: rest)).run.value = do
      let pair ← a.pairOf reference m
      let p ← placeField a.mode layout content y (m.inFrame layout) (pair.evaluate content.size).1
      let y ← lineBelow a.mode y (m.inFrame layout) p
      let (b, others) ←
        (placeFrom layout content reference (a.remember content m pair) y rest).run.value
      return (b, p :: others) := by
  unfold pairOf
  cases hkept : a.anchors.get? m.id <;>
    simp only [placeFrom, hkept, Draft.value_bind, Draft.value_noted, Draft.value_checked,
      Draft.value_pure, Length.ok_bind] <;> rfl

theorem placeFrom_cons_eq_ok
    (h : (placeFrom layout content reference a y (m :: rest)).run.value = .ok (b, placed)) :
    ∃ pair p y' others, a.pairOf reference m = .ok pair ∧
      placeField a.mode layout content y (m.inFrame layout) (pair.evaluate content.size).1 =
        .ok p ∧
      lineBelow a.mode y (m.inFrame layout) p = .ok y' ∧
      (placeFrom layout content reference (a.remember content m pair) y' rest).run.value =
        .ok (b, others) ∧ placed = p :: others := by
  simp only [value_placeFrom_cons, Length.bind_eq_ok] at h
  obtain ⟨pair, hpair, p, hp, y', hy', ⟨b', others⟩, hrest, h⟩ := h
  cases h
  exact ⟨pair, p, y', others, hpair, hp, hy', hrest, rfl⟩

theorem id_placeField {mode : AnchorMode} {f : Framed} {lengths : Option Int × Option Int}
    {p : Placed} (h : placeField mode layout content y f lengths = .ok p) : p.id = f.member.id := by
  simp only [placeField, Length.bind_eq_ok] at h
  obtain ⟨_, _, _, _, _, _, _, _, _, _, _, _, _, _, _, _, h⟩ := h
  cases h
  rfl

/-- What placing children leaves: it keeps the mode and the reference, and the anchors of all
others. -/
structure Leaves (a : Anchored) (members : List Member) (b : Anchored) (placed : List Placed) :
    Prop where
  mode : b.mode = a.mode
  observed : b.observed = a.observed
  others : ∀ i, i ∉ members.map Member.id → b.anchors.get? i = a.anchors.get? i
  ids : placed.map Placed.id = members.map Member.id

theorem leaves_placeFrom
    (h : (placeFrom layout content reference a y members).run.value = .ok (b, placed)) :
    a.Leaves members b placed := by
  induction members generalizing a y placed with
  | nil =>
    cases h
    exact ⟨rfl, rfl, fun _ _ => rfl, rfl⟩
  | cons m rest ih =>
    obtain ⟨pair, p, y', others, -, hp, -, hrest, rfl⟩ := placeFrom_cons_eq_ok h
    have hleaves := ih hrest
    refine ⟨hleaves.mode, hleaves.observed, fun i hi => ?_, ?_⟩
    · simp only [List.map_cons, List.mem_cons, not_or] at hi
      rw [hleaves.others i hi.2]
      simp [remember, hi.1]
    · rw [List.map_cons, List.map_cons, hleaves.ids, id_placeField hp]
      rfl

/-- With the anchors that a pass leaves, the children are placed as in that pass. -/
theorem placeFrom_again {a₂ b₂ : Anchored} {placed₂ : List Placed}
    (hnodup : (members.map Member.id).Nodup)
    (h : (placeFrom layout content reference a y members).run.value = .ok (b, placed))
    (h₂ : (placeFrom layout content reference' a₂ y members).run.value = .ok (b₂, placed₂))
    (hmode : a₂.mode = a.mode)
    (hkept : ∀ id ∈ members.map Member.id, a₂.anchors.get? id = b.anchors.get? id) :
    placed₂ = placed := by
  induction members generalizing a a₂ y placed placed₂ with
  | nil =>
    cases h
    cases h₂
    rfl
  | cons m rest ih =>
    obtain ⟨pair, p, y', others, -, hp, hy', hrest, rfl⟩ := placeFrom_cons_eq_ok h
    obtain ⟨pair₂, p₂, y₂, others₂, hpair₂, hp₂, hy₂, hrest₂, rfl⟩ := placeFrom_cons_eq_ok h₂
    rw [List.map_cons, List.nodup_cons] at hnodup
    have hremembered : a₂.anchors.get? m.id = some (pair.evaluate content.size).2 := by
      rw [hkept m.id (by simp), (leaves_placeFrom hrest).others m.id hnodup.1]
      simp [remember]
    have hpair : pair₂ = (pair.evaluate content.size).2 := by
      rw [pairOf, hremembered] at hpair₂
      exact (Except.ok.inj hpair₂).symm
    rw [hpair, AnchorPair.evaluate_evaluate, hmode, hp] at hp₂
    cases hp₂
    rw [hmode, hy'] at hy₂
    cases hy₂
    have hkept' : ∀ id ∈ rest.map Member.id,
        (a₂.remember content m pair₂).anchors.get? id = b.anchors.get? id := by
      intro id hid
      have hne : id ≠ m.id := by
        rintro rfl
        exact hnodup.1 hid
      rw [← hkept id (by simp [hid])]
      simp [remember, hne]
    rw [ih hnodup.2 hrest hrest₂ hmode hkept']

/-! ## Applying the rectangles -/

theorem spares_applyAll {q : ComponentId → Prop} (t : Tree)
    (h : ∀ id ∈ placed.map Placed.id, ¬ q id) : t.Spares q (applyAll t placed) := by
  refine Tree.spares_foldl (fun t p hp => ?_) t
  have hid := h p.id (List.mem_map_of_mem hp)
  exact (Tree.spares_applyRect t p.field hid).trans (Tree.spares_modifyState _ _ hid)

theorem agree_applyAll {q : ComponentId → Prop} (t : Tree)
    (h : ∀ id ∈ placed.map Placed.id, ¬ q id) : t.Agree q (applyAll t placed) :=
  (spares_applyAll t h).agree

theorem isVisible_applyAll (t : Tree) (placed : List Placed) :
    (applyAll t placed).isVisible = t.isVisible := by
  induction placed generalizing t with
  | nil => rfl
  | cons p rest ih =>
    have hlabel := Tree.isVisible_modifyState (f := fun s => { s with labelRect := p.label })
      (fun _ => rfl) (t.applyRect p.id p.field) p.id
    exact (ih _).trans (hlabel.trans (Tree.isVisible_applyRect t p.id p.field))

theorem isRendered_applyAll (t : Tree) (placed : List Placed) :
    (applyAll t placed).isRendered = t.isRendered := by
  refine Tree.isRendered_foldl (fun t p => ?_) placed t
  have hlabel := Tree.isRendered_modifyState (f := fun s => { s with labelRect := p.label })
    (fun _ => rfl) (t.applyRect p.id p.field) p.id
  exact hlabel.trans (Tree.isRendered_applyRect t p.id p.field)

/-- The child and its label have their rectangles. -/
def Placed.HeldBy (p : Placed) (c : Component) : Prop :=
  c.state.sized = true ∧ c.state.rect = p.field ∧ c.state.labelRect = p.label

theorem heldBy_applyAll (hnodup : (placed.map Placed.id).Nodup) (t : Tree) :
    ∀ p ∈ placed, ∀ c, (applyAll t placed).get? p.id = some c → p.HeldBy c := by
  refine Tree.holds_foldl (fun t p c hc => ?_) (fun t p i hi => ?_) hnodup t
  · rw [Tree.get?_modifyState, if_pos rfl, Tree.get?_applyRect, if_pos rfl, Option.map_map] at hc
    obtain ⟨d, -, rfl⟩ := Option.map_eq_some_iff.1 hc
    exact ⟨rfl, rfl, rfl⟩
  · rw [Tree.get?_modifyState, if_neg (Ne.symm hi), Tree.get?_applyRect, if_neg (Ne.symm hi)]

theorem applyAll_eq_self {t : Tree} (h : ∀ p ∈ placed, ∀ c, t.get? p.id = some c → p.HeldBy c) :
    applyAll t placed = t := by
  refine Tree.foldl_eq_self fun p hp => ?_
  have hrect : t.applyRect p.id p.field = t :=
    Tree.applyRect_eq_self fun c hc => ⟨(h p hp c hc).1, (h p hp c hc).2.1⟩
  rw [hrect]
  refine Tree.modifyState_eq_self fun c hc => ?_
  rw [← (h p hp c hc).2.2]

end Anchored

namespace Scene

variable {s s' t : Scene} {layout : LayoutConfig} {container : ComponentId} {a b : Anchored}

/-- What is kept before the children are placed: the reference is noted, and the anchors of children
that are gone are dropped. -/
def prepared (s : Scene) (container : ComponentId) (a : Anchored) (content : Size) (sized : Bool) :
    Anchored :=
  { a.observe content sized with
    anchors := (a.observe content sized).anchors.filter fun id _ =>
      s.tree.parent? id == some container }

theorem mode_prepared (s : Scene) (container : ComponentId) (a : Anchored) (content : Size)
    (sized : Bool) : (s.prepared container a content sized).mode = a.mode := by
  unfold prepared Anchored.observe
  split <;> rfl

/-- What one pass reads and leaves. -/
structure Anchors (layout : LayoutConfig) (container : ComponentId) (a : Anchored) (s s' : Scene)
    (content : Rect) (sized : Bool) (members : List Member) (b : Anchored)
    (placed : List Anchored.Placed) : Prop where
  content_eq : s.content layout container = .ok content
  sized_eq : (·.state.sized) <$> s.tree.get container = .ok sized
  members_eq : s.members container = .ok members
  placed_eq : (Anchored.placeFrom layout content
    ((s.prepared container a content.size sized).reference layout)
    (s.prepared container a content.size sized) content.y members).run.value = .ok (b, placed)
  tree : s'.tree = Anchored.applyAll s.tree placed
  host : s'.host = s.host
  kept : s'.kept = s.kept.insert container (.anchored b)

theorem run_anchoredPass_eq_ok {r : Except LayoutError Anchored}
    (h : s.run (Anchored.pass layout container a) = .ok (r, s')) :
    ∃ content sized members b placed,
      Anchors layout container a s s' content sized members b placed ∧ r = .ok b := by
  rw [Anchored.pass, run_bind, Length.bind_eq_ok] at h
  obtain ⟨⟨_, _⟩, hfirst, h⟩ := h
  obtain ⟨content, notices, hcontent, rfl, rfl⟩ := run_contentBox_eq_ok hfirst
  simp only [run_bind, run_tree, Length.ok_bind, run_check, run_members, tree_log] at h
  cases hget : s.tree.get container with
  | error fault =>
    rw [hget] at h
    cases h
  | ok c =>
    simp only [hget, Length.ok_bind] at h
    cases hmembers : s.members container with
    | error fault =>
      rw [show (s.log notices).members container = .error fault from hmembers] at h
      cases h
    | ok members =>
      rw [show (s.log notices).members container = .ok members from hmembers] at h
      simp only [Length.ok_bind, run_draft, bind_assoc, run_keep, run_modifyTree] at h
      obtain ⟨⟨b, placed⟩, hplaced, h⟩ := Length.bind_eq_ok.1 h
      cases h
      exact ⟨content, c.state.sized, members, b, placed, ⟨hcontent, by rw [hget]; rfl, hmembers,
        hplaced, rfl, rfl, rfl⟩, rfl⟩

theorem mode_of_pass (h : s.run (Anchored.pass layout container a) = .ok (.ok b, s')) :
    b.mode = a.mode := by
  obtain ⟨content, sized, members, b', placed, hanchors, hb⟩ := run_anchoredPass_eq_ok h
  cases hb
  exact (Anchored.leaves_placeFrom hanchors.placed_eq).mode.trans (mode_prepared ..)

theorem touches_anchoredPass {r : Except LayoutError Anchored}
    (h : s.run (Anchored.pass layout container a) = .ok (r, s')) :
    Touches container s s' ∧ s'.tree.isVisible = s.tree.isVisible := by
  obtain ⟨content, sized, members, b, placed, hanchors, -⟩ := run_anchoredPass_eq_ok h
  refine ⟨⟨⟨hanchors.host.symm, ?_, fun i hi => ?_⟩, ?_⟩, ?_⟩
  · rw [hanchors.tree]
    refine Anchored.agree_applyAll s.tree fun id hid hnot => hnot ?_
    rw [(Anchored.leaves_placeFrom hanchors.placed_eq).ids, ids_members hanchors.members_eq] at hid
    exact mem_children_of_visible hid
  · rw [hanchors.kept, IdMap.get?_insert, if_neg hi]
  · rw [hanchors.tree, Anchored.isRendered_applyAll]
  · rw [hanchors.tree, Anchored.isVisible_applyAll]

theorem anchoredPass_not_refused (e : LayoutError) (mid : Scene) :
    s.run (Anchored.pass layout container a) ≠ .ok (.error e, mid) := by
  intro h
  obtain ⟨_, _, _, _, _, -, hr⟩ := run_anchoredPass_eq_ok h
  cases hr

/-- Anchored children are placed in one round or in two. -/
theorem run_anchored_rounds {r : Except LayoutError Unit}
    (h : s.run (a.arrange layout container) = .ok (r, s')) :
    r = .ok () ∧ ∃ b mid, s.run (Anchored.pass layout container a) = .ok (.ok b, mid) ∧
      (s' = mid ∨ ∃ b', mid.run (Anchored.pass layout container b) = .ok (.ok b', s')) := by
  obtain ⟨_, b, mid, _, -, hfirst, -, ⟨-, hr, hs'⟩ | ⟨-, h⟩⟩ := run_rounds anchoredPass_not_refused h
  · exact ⟨hr, b, mid, hfirst, .inl hs'⟩
  · obtain ⟨e, hsecond, -⟩ | ⟨b', last, hsecond, h⟩ := run_bind_cases h
    · exact absurd hsecond (anchoredPass_not_refused e s')
    cases h
    exact ⟨rfl, b, mid, hfirst, .inr ⟨b', hsecond⟩⟩

theorem touches_anchored {r : Except LayoutError Unit}
    (h : s.run (a.arrange layout container) = .ok (r, s')) : Touches container s s' := by
  obtain ⟨-, b, mid, hfirst, rfl | ⟨b', hsecond⟩⟩ := run_anchored_rounds h
  · exact (touches_anchoredPass hfirst).1
  · exact (touches_anchoredPass hfirst).1.trans (touches_anchoredPass hsecond).1

/-- One pass is enough where a container offers its own size. -/
theorem run_anchored_eq_ok (hnested : s.tree.Nested) (hown : s.host.targetSize = Host.ownSize)
    {r : Except LayoutError Unit}
    (h : s.run (a.arrange layout container) = .ok (r, s')) :
    ∃ b, s.run (Anchored.pass layout container a) = .ok (.ok b, s') ∧ r = .ok () := by
  obtain ⟨before, b, mid, after, hbefore, hfirst, hafter, ⟨-, hr, rfl⟩ | ⟨hchanged, -⟩⟩ :=
    run_rounds anchoredPass_not_refused h
  · exact ⟨b, hfirst, hr⟩
  · have htouches := (touches_anchoredPass hfirst).1
    rw [← htouches.targetSize_eq hnested hown, hbefore] at hafter
    cases hafter
    exact absurd rfl hchanged

/-- What the first pass noted, the second one finds. -/
theorem prepared_again {content : Rect} {sized : Bool} {members : List Member}
    {placed : List Anchored.Placed} (hnested : s.tree.Nested) (hsees : Sees container s t)
    (h : Anchors layout container a s s' content sized members b placed) :
    (t.prepared container b content.size sized).mode =
        (s.prepared container a content.size sized).mode ∧
      ∀ id ∈ members.map Member.id,
        (t.prepared container b content.size sized).anchors.get? id = b.anchors.get? id := by
  have hleaves := Anchored.leaves_placeFrom h.placed_eq
  have hobserved : b.observe content.size sized = b := by
    unfold Anchored.observe
    rw [hleaves.observed]
    cases hsized : sized <;> cases hnone : a.observed <;>
      simp [prepared, Anchored.observe, hnone]
  refine ⟨?_, fun id hid => ?_⟩
  · unfold prepared at hleaves ⊢
    rw [hobserved, hleaves.mode]
  · rw [ids_members h.members_eq] at hid
    have hparent := hnested.linked.parent?_of_visible id hid
    unfold prepared
    rw [hobserved, IdMap.get?_filter, ← hsees.shape.parent?_eq]
    cases b.anchors.get? id <;> simp [Option.filter, hparent]

theorem settles_anchored (hnested : s.tree.Nested) (hown : s.host.targetSize = Host.ownSize)
    {r : Except LayoutError Unit} (h : s.run (a.arrange layout container) = .ok (r, s')) :
    ∃ b, s'.kept.get? container = some (.anchored b) ∧ b.mode = a.mode ∧
      Settles container s' (b.arrange layout container) := by
  obtain ⟨b, hpass, -⟩ := run_anchored_eq_ok hnested hown h
  obtain ⟨htouches, hshown⟩ := touches_anchoredPass hpass
  obtain ⟨content, sized, members, b', placed, hfirst, hb⟩ := run_anchoredPass_eq_ok hpass
  cases hb
  have hleaves := Anchored.leaves_placeFrom hfirst.placed_eq
  refine ⟨b, ?_, ?_, fun t ht r' t' h' => ?_⟩
  · rw [hfirst.kept, IdMap.get?_insert, if_pos rfl]
  · rw [hleaves.mode]
    unfold prepared Anchored.observe
    split <;> rfl
  · have hsees := (htouches.sees hnested hshown).trans (.of_near ht)
    obtain ⟨b₂, hpass', hr⟩ :=
      run_anchored_eq_ok (hsees.shape.nested hnested) (hsees.host ▸ hown) h'
    obtain ⟨content', sized', members', b₃, placed', hsecond, -⟩ := run_anchoredPass_eq_ok hpass'
    have hcontent := hsecond.content_eq
    rw [← hsees.content_eq hown, hfirst.content_eq] at hcontent
    cases hcontent
    have hsized := hsecond.sized_eq
    rw [← hsees.get_eq fun _ => rfl, hfirst.sized_eq] at hsized
    cases hsized
    have hmembers := hsecond.members_eq
    rw [← hsees.members_eq, hfirst.members_eq] at hmembers
    cases hmembers
    have hids := ids_members hfirst.members_eq
    obtain ⟨hmode, hkept⟩ := prepared_again hnested hsees hfirst
    have hplaced : placed' = placed := by
      refine Anchored.placeFrom_again ?_ hfirst.placed_eq hsecond.placed_eq hmode hkept
      rw [hids]
      exact hnested.linked.nodup_visibleChildren container
    refine ⟨hr, ?_⟩
    rw [hsecond.tree, hplaced]
    refine Anchored.applyAll_eq_self fun p hp c hc => ?_
    -- the child is as the first pass left it, but for the mark of a change
    have hnear : s'.tree.Near container p.id := by
      refine .inr ?_
      have hid : p.id ∈ placed.map Anchored.Placed.id := List.mem_map_of_mem hp
      rw [hleaves.ids, hids] at hid
      rw [htouches.children_eq]
      exact mem_children_of_visible hid
    have hclean := ht.tree.clean p.id hnear
    rw [hc, hfirst.tree] at hclean
    obtain ⟨d, hd, hdc⟩ := Option.map_eq_some_iff.1 hclean
    have hnodup : (placed.map Anchored.Placed.id).Nodup := by
      rw [hleaves.ids, hids]
      exact hnested.linked.nodup_visibleChildren container
    obtain ⟨hsized, hrect, hlabel⟩ := Anchored.heldBy_applyAll hnodup s.tree p hp d hd
    have hstate := congrArg Component.state hdc
    exact ⟨(congrArg ComponentState.sized hstate).symm.trans hsized,
      (congrArg ComponentState.rect hstate).symm.trans hrect,
      (congrArg ComponentState.labelRect hstate).symm.trans hlabel⟩

end Scene

end Trellis
