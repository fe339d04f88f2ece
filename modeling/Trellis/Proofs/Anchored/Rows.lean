import Trellis.Proofs.Passes.Records
import Trellis.Proofs.Sizes.Nonneg

/-!
# The rows of a form

A form stacks its visible children. A child and its label make a row; a label above a field pushes
the field down, and the next row begins below the field. A label beside a field does not count for
where the next row begins. So fields always stay apart from what comes after them, and so do labels
above their fields, but a label beside a field that is lower than it reaches into the next row
unless the margins between the fields make up for the difference.

* `Form.RowAt`, `Form.Rows`: where a pass puts one row, and all of them; `Form.rows_of_placeFrom`.
* `Form.Rows.fieldsAbove`, `Form.Rows.rowsAbove_iff`: what follows for any two of them.
* `form_rows_apart_iff`: what a pass over a form leaves of its rows.
-/
namespace Trellis

theorem Arrangement.exists_of_kind_form {x : Arrangement} (h : x.kind = .form) :
    ∃ a, x = .anchored a ∧ a.mode = .form := by
  cases x with
  | anchored a =>
    refine ⟨a, rfl, ?_⟩
    cases hmode : a.mode <;> simp_all [kind]
  | linear l => cases haxis : l.axis <;> simp [kind, haxis] at h
  | _ => cases h

/-- `p` ends at or above the top of `q`. -/
def Rect.Above (p q : Rect) : Prop := p.y + p.height ≤ q.y

instance (p q : Rect) : Decidable (p.Above q) := inferInstanceAs (Decidable (_ ≤ _))

/-- The visible children, with what layouts have written about them. -/
def Tree.shown (t : Tree) (id : ComponentId) : List Component :=
  (t.visibleChildren id).filterMap t.get?

namespace Component

/-- A field in a form, and its label if it has one. -/
def rowRects (c : Component) : List Rect := c.state.rect :: c.state.labelRect.toList

/-- The field of the first row is above the field and the label of the second. -/
def FieldAbove (c d : Component) : Prop := ∀ q ∈ d.rowRects, c.state.rect.Above q

/-- The field and the label of the first row are above the field and the label of the second. -/
def RowAbove (c d : Component) : Prop := ∀ p ∈ c.rowRects, ∀ q ∈ d.rowRects, p.Above q

/-- A label beside the first field leaves off where the second field begins. -/
def LabelFits (layout : LayoutConfig) (c d : Component) : Prop :=
  c.config.hideLabel = true ∨ layout.labelHeight ≤
    c.state.rect.height + (c.config.marginSides layout).bottom + (d.config.marginSides layout).top

instance (layout : LayoutConfig) (c d : Component) : Decidable (LabelFits layout c d) :=
  inferInstanceAs (Decidable (_ ∨ _))

end Component

namespace Form

variable {layout : LayoutConfig} {y : Int} {c d : Component} {rows rest : List Component}

/-- The height that the label takes from above its field. -/
def labelAbove (layout : LayoutConfig) (c : ItemConfig) : Int :=
  if c.hideLabel = false ∧ layout.labelAlign = .top then layout.labelHeight else 0

/-- The row of a field whose margin box begins at the line `y`. -/
structure RowAt (layout : LayoutConfig) (y : Int) (c : Component) : Prop where
  height_nonneg : 0 ≤ c.state.rect.height
  field_y : c.state.rect.y =
    y + (c.config.marginSides layout).top + labelAbove layout c.config
  label_isSome : c.state.labelRect.isSome = !c.config.hideLabel
  label_y : ∀ r ∈ c.state.labelRect, r.y = y + (c.config.marginSides layout).top
  label_height : ∀ r ∈ c.state.labelRect, r.height = layout.labelHeight

/-- The line below a field. -/
def below (layout : LayoutConfig) (c : Component) : Int :=
  c.state.rect.y + c.state.rect.height + (c.config.marginSides layout).bottom

/-- Rows that a form stacks from the line `y` downward. -/
def Rows (layout : LayoutConfig) : Int → List Component → Prop
  | _, [] => True
  | y, c :: rest => RowAt layout y c ∧ Rows layout (below layout c) rest

/-! ## What follows for any two rows -/

section

variable (hlabel : 0 ≤ layout.labelHeight)

include hlabel

theorem labelAbove_nonneg (c : ItemConfig) : 0 ≤ labelAbove layout c := by
  unfold labelAbove
  split
  · exact hlabel
  · exact Int.le_refl 0

/-- Nothing of a row is above the line that its margin leaves. -/
theorem RowAt.le_y (h : RowAt layout y c) {q : Rect} (hq : q ∈ c.rowRects) :
    y + (c.config.marginSides layout).top ≤ q.y := by
  rcases List.mem_cons.1 hq with rfl | hq
  · have := labelAbove_nonneg hlabel c.config
    have := h.field_y
    omega
  · have := h.label_y q (by simpa using hq)
    omega

/-- Nothing of any row is above the margin of the first. -/
theorem Rows.le_y (h : Rows layout y (c :: rest)) :
    ∀ d ∈ c :: rest, ∀ q ∈ d.rowRects, y + (c.config.marginSides layout).top ≤ q.y := by
  induction rest generalizing y c with
  | nil =>
    intro d hd q hq
    obtain rfl : d = c := by simpa using hd
    exact h.1.le_y hlabel hq
  | cons e rest ih =>
    intro d hd q hq
    rcases List.mem_cons.1 hd with rfl | hd
    · exact h.1.le_y hlabel hq
    · have hnext := ih h.2 d hd q hq
      have hmargins := c.config.nonneg_marginSides layout
      have hmargin := (e.config.nonneg_marginSides layout).top
      have := h.1.field_y
      have := h.1.height_nonneg
      have := labelAbove_nonneg hlabel c.config
      have := hmargins.bottom
      unfold below at hnext
      omega

theorem Rows.fieldsAbove (h : Rows layout y rows) : rows.Pairwise Component.FieldAbove := by
  induction rows generalizing y with
  | nil => exact .nil
  | cons c rest ih =>
    refine List.pairwise_cons.2 ⟨fun d hd q hq => ?_, ih h.2⟩
    obtain ⟨e, others, rfl⟩ := List.exists_cons_of_ne_nil (List.ne_nil_of_mem hd)
    have hnext := h.2.le_y hlabel d hd q hq
    have := (c.config.nonneg_marginSides layout).bottom
    have := (e.config.nonneg_marginSides layout).top
    unfold below at hnext
    unfold Rect.Above
    omega

/-- Where labels are above their fields, a row ends with its field. -/
theorem Rows.rowsAbove_of_top (h : Rows layout y rows) (htop : layout.labelAlign = .top) :
    rows.Pairwise Component.RowAbove := by
  have hlabelAbove : ∀ {y : Int} {c : Component}, RowAt layout y c → ∀ p ∈ c.rowRects,
      p.y + p.height ≤ c.state.rect.y + c.state.rect.height := by
    intro y c hrow p hp
    rcases List.mem_cons.1 hp with rfl | hp
    · exact Int.le_refl _
    · have hp : p ∈ c.state.labelRect := by simpa using hp
      have hshown : c.config.hideLabel = false := by
        have := hrow.label_isSome
        rw [Option.mem_def.1 hp] at this
        simpa using this.symm
      have hfield := hrow.field_y
      rw [labelAbove, if_pos ⟨hshown, htop⟩] at hfield
      have := hrow.label_y p hp
      have := hrow.label_height p hp
      have := hrow.height_nonneg
      omega
  induction rows generalizing y with
  | nil => exact .nil
  | cons c rest ih =>
    have hfields := (List.pairwise_cons.1 (h.fieldsAbove hlabel)).1
    refine List.pairwise_cons.2 ⟨fun d hd p hp q hq => ?_, ih h.2⟩
    have := hlabelAbove h.1 p hp
    have hfield : c.state.rect.Above q := hfields d hd q hq
    unfold Rect.Above at hfield ⊢
    omega

/-- Where labels are beside their fields, rows stay apart if each label ends where the next field
begins. -/
theorem Rows.rowsAbove_iff (h : Rows layout y rows) (hbeside : layout.labelAlign ≠ .top) :
    rows.Pairwise Component.RowAbove ↔ rows.IsChain (Component.LabelFits layout) := by
  have hfield : ∀ {y : Int} {c : Component}, RowAt layout y c →
      c.state.rect.y = y + (c.config.marginSides layout).top := by
    intro y c hrow
    have := hrow.field_y
    rw [labelAbove, if_neg fun hboth => hbeside hboth.2] at this
    omega
  induction rows generalizing y with
  | nil => simp
  | cons c rest ih =>
    have hrest : rest.Pairwise Component.RowAbove ↔ rest.IsChain (Component.LabelFits layout) :=
      ih h.2
    rw [List.pairwise_cons, hrest]
    cases rest with
    | nil => simp
    | cons d others =>
      rw [List.isChain_cons_cons]
      refine and_congr ⟨fun hall => ?_, fun hfits e he p hp q hq => ?_⟩ Iff.rfl
      · cases hlabelled : c.config.hideLabel with
        | true => exact .inl hlabelled
        | false =>
          obtain ⟨r, hr⟩ := Option.isSome_iff_exists.1 (h.1.label_isSome.trans (by simp [hlabelled]))
          have habove : r.Above d.state.rect := hall d (by simp) r (by simp [Component.rowRects, hr])
            _ (by simp [Component.rowRects])
          have := h.1.label_y r hr
          have := h.1.label_height r hr
          have := hfield h.1
          have := hfield h.2.1
          right
          unfold Rect.Above at habove
          unfold below at this
          omega
      · rcases List.mem_cons.1 hp with rfl | hp
        · exact (List.pairwise_cons.1 (h.fieldsAbove hlabel)).1 e he q hq
        · have hp : p ∈ c.state.labelRect := by simpa using hp
          have hnext := h.2.le_y hlabel e he q hq
          have := h.1.label_y p hp
          have := h.1.label_height p hp
          have := hfield h.1
          rcases hfits with hhidden | hfits
          · have hnone := h.1.label_isSome
            rw [Option.mem_def.1 hp, hhidden] at hnone
            cases hnone
          · unfold below at hnext
            unfold Rect.Above
            omega

end

/-! ## Where a pass puts the rows -/

section

variable {content : Rect} {reference : Option Int × Option Int} {a b : Anchored} {m : Member}
  {members : List Member} {p : Anchored.Placed} {placed : List Anchored.Placed} {t : Tree}

theorem above_of_ofField {config : ItemConfig} {width : Int} {label : Label}
    (h : Label.ofField .form layout config width = .ok label) :
    label.height = labelAbove layout config ∧ label.rect.isSome = !config.hideLabel ∧
      ∀ r ∈ label.rect, r.y = 0 ∧ r.height = layout.labelHeight := by
  unfold Label.ofField at h
  unfold labelAbove
  cases hhidden : config.hideLabel with
  | true =>
    simp only [hhidden, Bool.or_true, if_true] at h
    cases h
    simp [Label.none]
  | false =>
    simp only [hhidden, ne_eq, not_true_eq_false, decide_false, Bool.or_false] at h
    cases halign : layout.labelAlign <;> simp only [halign] at h
    case top =>
      cases h
      simp
    all_goals
      obtain ⟨_, -, h⟩ := Length.bind_eq_ok.1 h
      cases h
      simp

/-- A field is put below its margin and its label. -/
theorem rowAt_of_placeField {lengths : Option Int × Option Int}
    (h : Anchored.placeField .form layout content y (m.inFrame layout) lengths = .ok p)
    (hconfig : c.config = m.config) (hheld : p.HeldBy c) : RowAt layout y c := by
  have hnonneg := Anchored.nonneg_placeField h
  obtain ⟨-, hfield, hlabelRect⟩ := hheld
  simp only [Anchored.placeField, Length.bind_eq_ok] at h
  obtain ⟨_, -, width, -, height, -, label, hlabel, ⟨x, top⟩, horigin, left, -, upper, hupper,
    labelRect, hmoved, h⟩ := h
  cases h
  obtain ⟨_, -, top', htop, horigin⟩ := by
    simpa only [Anchored.origin, Length.bind_eq_ok] using horigin
  cases horigin
  obtain ⟨rfl, -⟩ := Length.add_eq_ok.1 htop
  obtain ⟨rfl, -⟩ := Length.add_eq_ok.1 hupper
  obtain ⟨habove, hshown, hrect⟩ := above_of_ofField hlabel
  have hlabelled : labelRect.isSome = !m.config.hideLabel ∧ ∀ r ∈ labelRect,
      r.y = y + (m.config.marginSides layout).top ∧ r.height = layout.labelHeight := by
    rw [show m.config.hideLabel = (m.inFrame layout).member.config.hideLabel from rfl, ← hshown]
    cases hr : label.rect with
    | none =>
      rw [hr] at hmoved
      cases hmoved
      exact ⟨rfl, by simp⟩
    | some r =>
      obtain ⟨hy, hheight⟩ := hrect r hr
      rw [hr] at hmoved
      obtain ⟨_, hr', hmoved⟩ := Length.bind_eq_ok.1 hmoved
      cases hmoved
      obtain ⟨_, -, lower, hlower, hr'⟩ := by simpa only [Length.bind_eq_ok] using hr'
      cases hr'
      obtain ⟨rfl, -⟩ := Length.add_eq_ok.1 hlower
      refine ⟨rfl, fun q hq => ?_⟩
      cases hq
      exact ⟨by rw [hy, Int.add_zero]; rfl, hheight⟩
  refine ⟨?_, ?_, ?_, ?_, ?_⟩
  · rw [hfield]
    exact hnonneg.height
  · rw [hfield, hconfig]
    exact congrArg (y + (m.config.marginSides layout).top + ·) habove
  · rw [hlabelRect, hconfig]
    exact hlabelled.1
  · rw [hlabelRect, hconfig]
    exact fun r hr => (hlabelled.2 r hr).1
  · rw [hlabelRect]
    exact fun r hr => (hlabelled.2 r hr).2

theorem below_of_lineBelow {y' : Int}
    (h : Anchored.lineBelow .form y (m.inFrame layout) p = .ok y') (hconfig : c.config = m.config)
    (hheld : p.HeldBy c) : y' = below layout c := by
  obtain ⟨bottom, hbottom, h⟩ := Length.bind_eq_ok.1 h
  obtain ⟨rfl, -⟩ := Length.add_eq_ok.1 hbottom
  obtain ⟨rfl, -⟩ := Length.add_eq_ok.1 h
  rw [below, hheld.2.1, hconfig]
  rfl

/-- A form stacks its children from the line that it is given downward. -/
theorem rows_of_placeFrom (hmode : a.mode = .form)
    (h : (Anchored.placeFrom layout content reference a y members).run.value = .ok (b, placed))
    (hconfig : ∀ m ∈ members, t.config? m.id = some m.config)
    (hheld : ∀ p ∈ placed, ∀ c, t.get? p.id = some c → p.HeldBy c) :
    Rows layout y ((members.map Member.id).filterMap t.get?) := by
  induction members generalizing a y placed with
  | nil => trivial
  | cons m rest ih =>
    obtain ⟨pair, p, y', others, -, hp, hy', hrest, rfl⟩ := Anchored.placeFrom_cons_eq_ok h
    rw [hmode] at hp hy'
    obtain ⟨c, hc, hown⟩ := Option.map_eq_some_iff.1 (hconfig m (by simp))
    have hid : p.id = m.id := Anchored.id_placeField hp
    have hc' := hheld p (by simp) c (hid ▸ hc)
    rw [List.map_cons, List.filterMap_cons_some hc]
    refine ⟨rowAt_of_placeField hp hown hc', ?_⟩
    rw [← below_of_lineBelow hy' hown hc']
    have hkeeps : (a.remember content m pair).mode = .form := hmode
    exact ih hkeeps hrest (fun m hm => hconfig m (by simp [hm])) fun p hp => hheld p (by simp [hp])

end

end Form

namespace Scene

variable {s s' t u : Scene} {layout : LayoutConfig} {c d : ComponentId} {a : Anchored}
  {r : Except LayoutError Unit}

/-- The last round that places anchored children. -/
theorem run_anchored_last (h : s.run (a.arrange layout c) = .ok (r, s')) :
    ∃ (t : Scene) (b b' : Anchored), s.tree.SameShape t.tree ∧ b.mode = a.mode ∧
      t.run (Anchored.pass layout c b) = .ok (.ok b', s') := by
  obtain ⟨-, b, mid, hfirst, rfl | ⟨b', hsecond⟩⟩ := run_anchored_rounds h
  · exact ⟨s, a, b, .refl s.tree, rfl, hfirst⟩
  · exact ⟨mid, b, b', (touches_anchoredPass hfirst).1.tree.toSameShape, mode_of_pass hfirst,
      hsecond⟩

/-- A form leaves rows, and they are still there when the containers among its children have been
laid out. -/
theorem rows_of_anchored (hlinked : s.tree.Linked) (hmode : a.mode = .form)
    (h : s.run (a.arrange layout c) = .ok (r, t)) (hagree : t.Agree (t.tree.Near c) (· = c) s') :
    ∃ y, Form.Rows layout y (s'.tree.shown c) := by
  obtain ⟨u, b, b', hshape, hsame, hpass⟩ := run_anchored_last h
  obtain ⟨htouches, hshown⟩ := touches_anchoredPass hpass
  obtain ⟨content, sized, members, _, placed, hanchors, heq⟩ := run_anchoredPass_eq_ok hpass
  cases heq
  have hleaves := Anchored.leaves_placeFrom hanchors.placed_eq
  have hids := ids_members hanchors.members_eq
  have hvisible : u.tree.visibleChildren c = s'.tree.visibleChildren c := by
    rw [← hagree.visibleChildren_eq]
    unfold Tree.visibleChildren
    rw [hshown, htouches.children_eq]
  have hsameShape := htouches.tree.toSameShape.trans hagree.tree.toSameShape
  have hnodup : (placed.map Anchored.Placed.id).Nodup := by
    rw [hleaves.ids, hids]
    exact (hshape.linked hlinked).nodup_visibleChildren c
  have hmode : (u.prepared c b content.size sized).mode = .form := by
    rw [mode_prepared, hsame, hmode]
  refine ⟨content.y, ?_⟩
  rw [Tree.shown, ← hvisible, ← hids]
  refine Form.rows_of_placeFrom hmode hanchors.placed_eq (fun m hm => ?_) fun p hp x hx => ?_
  · rw [← hsameShape.config?_eq]
    exact (eq_of_mem_members hanchors.members_eq hm).2.1
  · -- what a later pass changes of a child is the mark of a change at most
    have hnear : t.tree.Near c p.id := by
      refine .inr ?_
      rw [htouches.children_eq]
      refine mem_children_of_visible ?_
      rw [← hids, ← hleaves.ids]
      exact List.mem_map_of_mem hp
    have hclean := hagree.tree.clean p.id hnear
    rw [hx] at hclean
    obtain ⟨x', hx', heq⟩ := Option.map_eq_some_iff.1 hclean
    rw [hanchors.tree] at hx'
    obtain ⟨hsized, hrect, hlabel⟩ := Anchored.heldBy_applyAll hnodup u.tree p hp x' hx'
    have hstate := congrArg Component.state heq
    exact ⟨(congrArg ComponentState.sized hstate).symm.trans hsized,
      (congrArg ComponentState.rect hstate).symm.trans hrect,
      (congrArg ComponentState.labelRect hstate).symm.trans hlabel⟩

end Scene

/-- The rows of a form keep apart but for labels that are higher than their field. In the course of
any pass, the form `c` is laid out. Then no two fields overlap, and no field overlaps the label of a
row below it. Where labels are above their fields, no two rows overlap at all; where they are beside
their fields, that is so exactly if each label that is shown is no higher than its field and the
margins that separate it from the next field. -/
theorem form_rows_apart_iff {s s' u : Scene} {c d : ComponentId} {layout : LayoutConfig}
    {r : Except LayoutError Unit} (hforest : s.tree.Forest)
    (hlayout : s.tree.layout? c = some layout) (hkind : layout.kind = .form)
    (hlabel : 0 ≤ layout.labelHeight) (hrun : s.run (Step.pass d) = .ok (r, s'))
    (hbegins : s.Begins d u c) (hheard : u.vetoes c = false) :
    (s'.tree.shown c).Pairwise Component.FieldAbove ∧
      (layout.labelAlign = .top → (s'.tree.shown c).Pairwise Component.RowAbove) ∧
      (layout.labelAlign ≠ .top → ((s'.tree.shown c).Pairwise Component.RowAbove ↔
        (s'.tree.shown c).IsChain (Component.LabelFits layout))) := by
  obtain ⟨r₁, laid, hopens, hagree⟩ := hbegins.laidOut hforest hlayout hheard hrun
  obtain ⟨a, harrangement, hmode⟩ :=
    Arrangement.exists_of_kind_form ((u.kind_arrangement layout c).trans hkind)
  have harranged := hopens.arranged
  rw [harrangement] at harranged
  have hlinked : (u.begun layout c).tree.Linked :=
    (hbegins.undisturbed.trans (Scene.undisturbed_begun u layout c)).shape.linked hforest.toLinked
  obtain ⟨y, hrows⟩ := Scene.rows_of_anchored hlinked hmode harranged hagree
  exact ⟨hrows.fieldsAbove hlabel, hrows.rowsAbove_of_top hlabel, hrows.rowsAbove_iff hlabel⟩

section

private def entryLayout : LayoutConfig := { kind := .form }

private def lowField : ItemConfig := { width := some 50, height := some 10 }

/-- Two fields that are lower than their labels. -/
private def entryForm : Scene :=
  .ofTree ((Tree.ofDescription (.node { layout := some entryLayout }
    [.node lowField [], .node lowField []])).applyRect 0 ⟨0, 0, 200, 100⟩) .standard

/-- The fields are apart, but the label of the first row reaches into the second. -/
theorem low_fields_overlap_labels :
    ∃ s' r, entryForm.run (Step.pass 0) = .ok (r, s') ∧
      (s'.tree.shown 0).Pairwise Component.FieldAbove ∧
      ¬ (s'.tree.shown 0).Pairwise Component.RowAbove ∧
      (s'.tree.shown 0).map Component.rowRects =
        [[⟨105, 0, 50, 10⟩, ⟨0, 0, 100, 20⟩], [⟨105, 10, 50, 10⟩, ⟨0, 10, 100, 20⟩]] := by
  obtain ⟨r, s', hrun, hview⟩ := Scene.run_of_viewAfter
    (show entryForm.viewAfter (Step.pass 0) (fun s' =>
        (decide ((s'.tree.shown 0).IsChain (Component.LabelFits entryLayout)),
          (s'.tree.shown 0).map Component.rowRects)) =
      some (false,
        [[⟨105, 0, 50, 10⟩, ⟨0, 0, 100, 20⟩], [⟨105, 10, 50, 10⟩, ⟨0, 10, 100, 20⟩]])
      by decide +kernel)
  obtain ⟨hfits, hrects⟩ := Prod.mk.inj hview
  have hforest : entryForm.tree.Forest :=
    (Tree.sameShape_applyRect _ 0 _).forest (Tree.nested_ofDescription _).forest
  obtain ⟨hfields, -, hbeside⟩ := @form_rows_apart_iff entryForm s' entryForm 0 0 entryLayout _
    hforest rfl rfl (by decide) hrun (.self ⟨rfl, rfl⟩ _) rfl
  exact ⟨s', _, hrun, hfields, fun hrows =>
    of_decide_eq_false hfits ((hbeside (by decide)).1 hrows), hrects⟩

end

end Trellis
