import Mathlib.Algebra.Order.Field.Rat
import Mathlib.Data.Rat.Floor
import Mathlib.Tactic.Linarith
import Trellis.Proofs.Passes.Records
import Trellis.Proofs.Scroll.Lines

/-!
# Columns stay inside their container

A fraction of the width that is left is rounded down, so the parts of the children whose fractions
add up to at most one fit into what is left. The margins of a fixed column are counted with the
column, those of a fractional one are taken out of its part; where they do not exceed it, all margin
boxes stand side by side inside the container.

* `Binary64.toRat?`: what a binary64 number stands for; `Binary64.floorLength_of_toRat?`: its floor.
* `Columns.Fits`: the columns for which that is so; `Columns.sum_outerWidth_le`: they fit.
* `Columns.abut_place`: columns are placed margin box after margin box.
* `Scene.lastRound`: where the last round of a column container begins.
* `columns_stay_inside`: what a pass leaves of a column container.
-/
namespace Trellis

namespace Binary64

/-- The rational number that a finite binary64 number stands for. -/
def toRat? (x : Float) : Option ℚ :=
  match parts x with
  | .finite negative m e => some (((if negative then -(m : Int) else m : Int) : ℚ) * 2 ^ e)
  | .infinite _ | .notANumber => none

theorem floorScaled_eq (m e : Int) : floorScaled m e = ⌊(m : ℚ) * 2 ^ e⌋ := by
  unfold floorScaled
  split
  · next he =>
    obtain ⟨k, rfl⟩ := Int.eq_ofNat_of_zero_le he
    have hwhole : (m : ℚ) * 2 ^ (k : Int) = ((m * 2 ^ k : Int) : ℚ) := by
      push_cast
      rw [zpow_natCast]
    rw [hwhole, Int.floor_intCast, Int.toNat_natCast]
  · next he =>
    obtain ⟨k, hk⟩ := Int.exists_eq_neg_ofNat (by omega : e ≤ 0)
    subst hk
    have hpart : (m : ℚ) * 2 ^ (-(k : Int)) = (m : ℚ) / ((2 ^ k : Nat) : ℚ) := by
      rw [zpow_neg, zpow_natCast, div_eq_mul_inv]
      push_cast
      rfl
    rw [hpart, Rat.floor_intCast_div_natCast, Int.neg_neg, Int.toNat_natCast]
    push_cast
    rfl

theorem floorLength_of_toRat? {x : Float} {v : ℚ} (h : toRat? x = some v) :
    floorLength x = Length.saturate ⌊v⌋ := by
  unfold toRat? at h
  unfold floorLength
  split at h
  · next negative m e hparts =>
    cases h
    rw [hparts]
    exact congrArg Length.saturate (floorScaled_eq _ e)
  · cases h
  · cases h

end Binary64

namespace Columns

variable {top remainder x : Int} {content : Rect} {framed : List Framed} {f : Framed}
  {placements : List Placement}

/-- The widths of the columns that take no fraction, margins included, added up. -/
def fixedLength (framed : List Framed) : Int :=
  ((framed.filter fun f => (fraction? f.member).isNone).map fun f =>
    f.member.natural.width + (f.margins.left + f.margins.right)).sum

/-- What the fraction of a column stands for, if it takes one. -/
def portion? (f : Framed) : Option ℚ := (fraction? f.member).bind Binary64.toRat?

/-- The column takes the part `v` of the remainder. That part is computed exactly, and has room for
the margins of the column. -/
structure Takes (remainder : Int) (f : Framed) (fraction : Float) (v : ℚ) : Prop where
  exact : Binary64.toRat? (Float.ofInt remainder * fraction) = some (remainder * v)
  margins_le : f.margins.left + f.margins.right ≤ ⌊(remainder : ℚ) * v⌋

instance (remainder : Int) (f : Framed) (fraction : Float) (v : ℚ) :
    Decidable (Takes remainder f fraction v) :=
  decidable_of_iff (_ ∧ _) ⟨fun ⟨e, m⟩ => ⟨e, m⟩, fun ⟨e, m⟩ => ⟨e, m⟩⟩

/-- No width is negative, the fixed columns fit into the content, and the fractional ones take parts
of what they leave that do not add up to more than that. -/
structure Fits (content : Rect) (framed : List Framed) : Prop where
  width_nonneg : ∀ f ∈ framed, 0 ≤ f.member.natural.width
  fixed_le : fixedLength framed ≤ content.width
  takes : ∀ f ∈ framed, ∀ q ∈ fraction? f.member, ∃ v ∈ Binary64.toRat? q,
    Takes (content.width - fixedLength framed) f q v
  portions_le : (framed.filterMap portion?).sum ≤ 1

instance (content : Rect) (framed : List Framed) : Decidable (Fits content framed) :=
  decidable_of_iff (_ ∧ _ ∧ _ ∧ _)
    ⟨fun ⟨w, f, t, p⟩ => ⟨w, f, t, p⟩, fun ⟨w, f, t, p⟩ => ⟨w, f, t, p⟩⟩

/-- The width of the margin box of a column when `remainder` is left for fractions. -/
def outerWidth (remainder : Int) (f : Framed) : Int :=
  let margins := f.margins.left + f.margins.right
  match fraction? f.member with
  | none => f.member.natural.width + margins
  | some fraction => max (floorFraction fraction remainder - margins) 0 + margins

theorem width_eq_ok {width : Int} (h : Columns.width remainder f = .ok width) :
    width + (f.margins.left + f.margins.right) = outerWidth remainder f := by
  unfold Columns.width at h
  unfold outerWidth
  cases hfraction : fraction? f.member with
  | none =>
    rw [hfraction] at h
    cases h
    rfl
  | some fraction =>
    simp only [hfraction] at h
    obtain ⟨margins, hmargins, h⟩ := Length.bind_eq_ok.1 h
    obtain ⟨rfl, -⟩ := Length.add_eq_ok.1 hmargins
    obtain ⟨part, hpart, h⟩ := Length.bind_eq_ok.1 h
    obtain ⟨rfl, -⟩ := Length.sub_eq_ok.1 hpart
    cases h
    rfl

theorem fixedWidth_eq_ok {fixed : Int} (h : fixedWidth framed = .ok fixed) :
    fixed = fixedLength framed := by
  refine Length.total_eq_sum (fun f _ n hn => ?_) h
  obtain ⟨margins, hmargins, hn⟩ := Length.bind_eq_ok.1 hn
  obtain ⟨rfl, -⟩ := Length.add_eq_ok.1 hmargins
  exact (Length.add_eq_ok.1 hn).1

/-! ## Side by side -/

/-- The margin boxes of placed columns, from left to right. -/
def spans (placements : List Placement) (framed : List Framed) : List (Int × Int) :=
  (placements.zip framed).map fun (p, f) => Box.outerSpan .horizontal p.rect f.margins

theorem abut_place (hnonneg : ∀ f ∈ framed, 0 ≤ outerWidth remainder f)
    (h : place top remainder x framed = .ok placements) :
    Box.Abut x (spans placements framed) (x + (framed.map (outerWidth remainder)).sum) := by
  induction framed generalizing x placements with
  | nil =>
    cases h
    show x = x + 0
    omega
  | cons f rest ih =>
    simp only [place, Length.bind_eq_ok] at h
    obtain ⟨width, hwidth, left, hleft, y, -, right, hright, next, hnext, others, hothers, h⟩ := h
    cases h
    have hwidth := width_eq_ok hwidth
    obtain ⟨rfl, -⟩ := Length.add_eq_ok.1 hleft
    obtain ⟨rfl, -⟩ := Length.add_eq_ok.1 hright
    obtain ⟨rfl, -⟩ := Length.add_eq_ok.1 hnext
    have hrest := ih (fun f hf => hnonneg f (by simp [hf])) hothers
    have hend : x + f.margins.left + (width + f.margins.right) = x + outerWidth remainder f := by
      omega
    have hspan : Box.outerSpan .horizontal
        ⟨x + f.margins.left, y, width, f.member.natural.height⟩ f.margins =
          (x, x + outerWidth remainder f) := by
      rw [← hend]
      simp only [Box.outerSpan, Axis.mainPos, Axis.mainStart, Axis.mainEnd, Axis.main, Rect.size,
        Prod.mk.injEq]
      omega
    rw [hend, Int.add_assoc, ← List.sum_cons, ← List.map_cons] at hrest
    show Box.Abut x (Box.outerSpan .horizontal _ f.margins :: spans others rest) _
    rw [hspan]
    have := hnonneg f (by simp)
    exact ⟨rfl, by show x ≤ x + outerWidth remainder f; omega, hrest⟩

/-! ## Inside -/

/-- The part that a fractional column is given, with its margins. -/
theorem Takes.outerWidth_le {q : Float} {v : ℚ} (h : Takes remainder f q v)
    (hq : fraction? f.member = some q) (hmargins : 0 ≤ f.margins.left + f.margins.right) :
    (outerWidth remainder f : ℚ) ≤ remainder * v := by
  have hfloor : floorFraction q remainder = Length.saturate ⌊(remainder : ℚ) * v⌋ :=
    Binary64.floorLength_of_toRat? h.exact
  have hle := h.margins_le
  have hwidth : outerWidth remainder f ≤ ⌊(remainder : ℚ) * v⌋ := by
    simp only [outerWidth, hq, hfloor, Length.saturate, Length.least, Length.greatest]
    omega
  exact Int.le_floor.1 hwidth

/-- The margin boxes of the fractional columns fit into what is left. -/
theorem sum_fractional_le (hmargins : ∀ f ∈ framed, 0 ≤ f.margins.left + f.margins.right)
    (htakes : ∀ f ∈ framed, ∀ q ∈ fraction? f.member, ∃ v ∈ Binary64.toRat? q,
      Takes remainder f q v) :
    ((((framed.filter fun f => !(fraction? f.member).isNone).map (outerWidth remainder)).sum :
      Int) : ℚ) ≤ remainder * (framed.filterMap portion?).sum := by
  induction framed with
  | nil => simp
  | cons f rest ih =>
    have hrest := ih (fun f hf => hmargins f (by simp [hf])) fun f hf => htakes f (by simp [hf])
    cases hq : fraction? f.member with
    | none => simpa [List.filter_cons, List.filterMap_cons, portion?, hq] using hrest
    | some q =>
      obtain ⟨v, hv, htakes⟩ := htakes f (by simp) q hq
      have hle := htakes.outerWidth_le hq (hmargins f (by simp))
      rw [List.filter_cons_of_pos (by simp [hq]), List.filterMap_cons_some (b := v)
        (by rw [portion?, hq, Option.bind_some, hv]), List.map_cons, List.sum_cons,
        List.sum_cons]
      push_cast at hrest ⊢
      linarith

/-- The margin boxes of columns that fit take no more than the width of the content. -/
theorem sum_outerWidth_le (h : Fits content framed)
    (hmargins : ∀ f ∈ framed, 0 ≤ f.margins.left + f.margins.right) :
    (framed.map (outerWidth (content.width - fixedLength framed))).sum ≤ content.width := by
  have hleft : (0 : ℚ) ≤ ((content.width - fixedLength framed : Int) : ℚ) := by
    exact_mod_cast Int.sub_nonneg_of_le h.fixed_le
  have hfractional : ((framed.filter fun f => !(fraction? f.member).isNone).map
      (outerWidth (content.width - fixedLength framed))).sum ≤
        content.width - fixedLength framed := by
    have hparts := sum_fractional_le hmargins h.takes
    have hwhole := mul_le_mul_of_nonneg_left h.portions_le hleft
    rw [mul_one] at hwhole
    exact_mod_cast hparts.trans hwhole
  have hfixed : ((framed.filter fun f => (fraction? f.member).isNone).map
      (outerWidth (content.width - fixedLength framed))).sum = fixedLength framed := by
    refine congrArg List.sum (List.map_congr_left fun f hf => ?_)
    rw [outerWidth, Option.isNone_iff_eq_none.1 (List.mem_filter.1 hf).2]
  rw [← Length.sum_filter_add_sum_filter_not fun f => (fraction? f.member).isNone]
  omega

/-- Columns that fit stand side by side, from the left edge of the content to its right edge at
most. -/
theorem abut_placeRow (h : Fits content framed)
    (hmargins : ∀ f ∈ framed, 0 ≤ f.margins.left + f.margins.right)
    (hplace : placeRow content framed = .ok placements) :
    ∃ finish, Box.Abut content.x (spans placements framed) finish ∧
      finish ≤ content.x + content.width := by
  obtain ⟨fixed, hfixed, hplace⟩ := Length.bind_eq_ok.1 hplace
  obtain ⟨remainder, hremainder, hplace⟩ := Length.bind_eq_ok.1 hplace
  obtain ⟨rfl, -⟩ := Length.sub_eq_ok.1 hremainder
  rw [fixedWidth_eq_ok hfixed, Int.max_eq_left (Int.sub_nonneg_of_le h.fixed_le)] at hplace
  have hle := sum_outerWidth_le h hmargins
  refine ⟨_, abut_place (fun f hf => ?_) hplace, by omega⟩
  have := h.width_nonneg f hf
  have := hmargins f hf
  unfold outerWidth
  dsimp only
  split <;> omega

/-- The margin boxes of placed columns, found in a tree that shows them. -/
theorem spans_of_shows {u : Tree} {layout : LayoutConfig}
    (hconfig : ∀ f ∈ framed, u.config? f.member.id = some f.member.config ∧
      f.margins = f.member.config.marginSides layout)
    (hids : placements.map Placement.id = framed.map fun f => f.member.id)
    (hshows : u.Shows placements) :
    (framed.map fun f => u.outerSpan? layout .horizontal f.member.id) =
      (spans placements framed).map some := by
  induction framed generalizing placements with
  | nil =>
    rw [List.map_nil, spans, List.zip_nil_right]
    rfl
  | cons f rest ih =>
    cases placements with
    | nil => cases hids
    | cons p others =>
      obtain ⟨hid, hids⟩ := List.cons.inj hids
      obtain ⟨hown, hmargins⟩ := hconfig f (by simp)
      obtain ⟨c, hc, hcconfig⟩ := Option.map_eq_some_iff.1 hown
      have hrect := (hshows p (by simp) c (hid ▸ hc)).2
      have hspan : u.outerSpan? layout .horizontal f.member.id =
          some (Box.outerSpan .horizontal p.rect f.margins) := by
        rw [Tree.outerSpan?, hc, Option.map_some, hrect, hcconfig, hmargins]
      rw [List.map_cons, hspan]
      exact congrArg _ (ih (fun f hf => hconfig f (by simp [hf])) hids
        fun p hp => hshows p (by simp [hp]))

end Columns

/-! ## Passes -/

theorem Arrangement.eq_column_of_kind {x : Arrangement} (h : x.kind = .column) : x = .column := by
  cases x with
  | column => rfl
  | anchored a => cases hmode : a.mode <;> simp [kind, hmode] at h
  | linear l => cases haxis : l.axis <;> simp [kind, haxis] at h
  | _ => cases h

namespace Scene

variable {s s' t u : Scene} {layout : LayoutConfig} {c d : ComponentId} {content : Rect}
  {framed : List Framed} {r : Except LayoutError Unit}

/-- The scene in which the last round of a column container begins: there is a second one if the
first one changes the size that the container offers. -/
def lastRound (s : Scene) (layout : LayoutConfig) (c : ComponentId) : Checked Scene := do
  let before ← s.host.targetSize s.tree c
  let (_, mid) ← s.run (Columns.pass layout c)
  let after ← mid.host.targetSize mid.tree c
  return if after ≠ before then mid else s

/-- The last round leaves what the layout of the container leaves. -/
theorem run_columns_last (h : s.run (Columns.arrange layout c) = .ok (r, s')) :
    ∃ t, s.lastRound layout c = .ok t ∧ s.tree.SameShape t.tree ∧
      t.run (Step.placing layout c Columns.placeRow) = .ok (.ok (), s') := by
  obtain ⟨before, _, mid, after, hbefore, hfirst, hafter, hrest⟩ :=
    run_rounds (placing_not_refused s layout c Columns.placeRow) h
  have hpass : s.run (Columns.pass layout c) = .ok (.ok (), mid) := hfirst
  have hlast : s.lastRound layout c = .ok (if after ≠ before then mid else s) := by
    rw [lastRound, hbefore, Length.ok_bind, hpass, Length.ok_bind]
    dsimp only
    rw [hafter]
    rfl
  refine ⟨_, hlast, ?_⟩
  obtain ⟨hsame, -, rfl⟩ | ⟨hchanged, hsecond⟩ := hrest
  · rw [if_neg (not_not.2 hsame)]
    exact ⟨.refl s.tree, hfirst⟩
  · rw [if_pos hchanged]
    obtain ⟨_, _, _, -, -, -, rfl, -⟩ := run_placing_eq_ok hsecond
    have htouches := touches_placing (fun _ _ _ => Columns.ids_placeRow) hfirst
    exact ⟨htouches.tree.toSameShape, hsecond⟩

/-- One round over a column container, and what is still there of it in the end. -/
theorem spans_of_columns (hlinked : s.tree.Linked)
    (h : s.run (Step.placing layout c Columns.placeRow) = .ok (r, t))
    (hagree : t.Agree (t.tree.Near c) (· = c) s') :
    ∃ content framed, s.content layout c = .ok content ∧ s.framed layout c = .ok framed ∧
      (Columns.Fits content framed → ∃ spans finish,
        (s'.tree.visibleChildren c).map (s'.tree.outerSpan? layout .horizontal) =
          spans.map some ∧
        Box.Abut content.x spans finish ∧ finish ≤ content.x + content.width) := by
  have htouches := touches_placing (fun _ _ _ => Columns.ids_placeRow) h
  have hshown := isVisible_placing h
  obtain ⟨content, framed, placements, hcontent, hframed, hplace, -, hplaces⟩ :=
    run_placing_eq_ok h
  refine ⟨content, framed, hcontent, hframed, fun hfits => ?_⟩
  have hids := (Columns.ids_placeRow hplace).trans (ids_framed hframed)
  have hvisible : s.tree.visibleChildren c = s'.tree.visibleChildren c := by
    rw [← hagree.visibleChildren_eq]
    unfold Tree.visibleChildren
    rw [hshown, htouches.children_eq]
  have hshape := htouches.tree.toSameShape.trans hagree.tree.toSameShape
  have hshows : s'.tree.Shows placements := by
    have hnodup : (placements.map Placement.id).Nodup := by
      rw [hids]
      exact hlinked.nodup_visibleChildren c
    have hleft : t.tree.Shows placements := by
      rw [hplaces.tree]
      exact Tree.shows_applyPlacements hnodup s.tree
    refine hleft.of_agree hagree.tree fun id hid => .inr ?_
    rw [htouches.children_eq]
    rw [hids] at hid
    exact mem_children_of_visible hid
  have hconfig : ∀ f ∈ framed, s'.tree.config? f.member.id = some f.member.config ∧
      f.margins = f.member.config.marginSides layout := by
    intro f hf
    obtain ⟨x, hx, hconfig, hmargins⟩ := eq_of_mem_framed hframed hf
    rw [← hshape.config?_eq, Tree.config?, hx, hconfig]
    exact ⟨rfl, hmargins⟩
  have hmargins : ∀ f ∈ framed, 0 ≤ f.margins.left + f.margins.right := by
    intro f hf
    have hnonneg := f.member.config.nonneg_marginSides layout
    rw [(hconfig f hf).2]
    exact Int.add_nonneg hnonneg.left hnonneg.right
  obtain ⟨finish, habut, hfinish⟩ := Columns.abut_placeRow hfits hmargins hplace
  refine ⟨_, finish, ?_, habut, hfinish⟩
  rw [← hvisible, ← ids_framed hframed, List.map_map]
  exact Columns.spans_of_shows hconfig (Columns.ids_placeRow hplace) hshows

end Scene

/-- In the course of any pass, the column container `c` is laid out. If, when its last round begins,
no width is negative, the fixed columns fit into the content, and the fractions of the others add up
to at most one, are applied exactly and leave room for the margins, then the margin boxes of its
visible children stand side by side in the end, in their order, from the left edge of the content to
its right edge at most. -/
theorem columns_stay_inside {s s' u : Scene} {c d : ComponentId} {layout : LayoutConfig}
    {r : Except LayoutError Unit} (hforest : s.tree.Forest)
    (hlayout : s.tree.layout? c = some layout) (hkind : layout.kind = .column)
    (hrun : s.run (Step.pass d) = .ok (r, s')) (hbegins : s.Begins d u c)
    (hheard : u.vetoes c = false) :
    ∃ t content framed, (u.begun layout c).lastRound layout c = .ok t ∧
      t.content layout c = .ok content ∧ t.framed layout c = .ok framed ∧
      (Columns.Fits content framed → ∃ spans finish,
        (s'.tree.visibleChildren c).map (s'.tree.outerSpan? layout .horizontal) =
          spans.map some ∧
        Box.Abut content.x spans finish ∧ finish ≤ content.x + content.width) := by
  obtain ⟨r₁, laid, hopens, hagree⟩ := hbegins.laidOut hforest hlayout hheard hrun
  have harranged := hopens.arranged
  rw [Arrangement.eq_column_of_kind ((u.kind_arrangement layout c).trans hkind)] at harranged
  obtain ⟨t, hlast, hshape, hround⟩ := Scene.run_columns_last harranged
  have hlinked : t.tree.Linked :=
    ((hbegins.undisturbed.trans (Scene.undisturbed_begun u layout c)).shape.trans hshape).linked
      hforest.toLinked
  obtain ⟨content, framed, hcontent, hframed, hinside⟩ :=
    Scene.spans_of_columns hlinked hround hagree
  exact ⟨t, content, framed, hlast, hcontent, hframed, hinside⟩

section

private def threeColumns : LayoutConfig := { kind := .column, padding := some (.number 5) }

/-- A child that is 30 pixels wide, with margins of 5, and two children that take a half and a
quarter of the 150 pixels that it leaves; the first of these has margins of 2. -/
private def columnPage : Scene :=
  .ofTree ((Tree.ofDescription (.node { layout := some threeColumns }
    [.node { width := some 30, margins := some (.text "0 5") } [],
      .node { columnWidth := some 0.5, margins := some (.number 2) } [],
      .node { columnWidth := some 0.25 } []])).applyRect 0 ⟨0, 0, 200, 50⟩) .standard

/-- The content of a column container whose columns fit when its last round begins. -/
private def fittingContent (s : Scene) (layout : LayoutConfig) (c : ComponentId) :
    Checked Rect := do
  let t ← s.lastRound layout c
  let content ← t.content layout c
  let framed ← t.framed layout c
  return if Columns.Fits content framed then content else .zero

/-- Half a pixel of the quarter is lost to rounding. -/
theorem columnPage_inside :
    ∃ s' r spans finish, columnPage.run (Step.pass 0) = .ok (r, s') ∧
      (s'.tree.visibleChildren 0).map (s'.tree.outerSpan? threeColumns .horizontal) =
        spans.map some ∧
      spans = [(5, 45), (45, 120), (120, 157)] ∧ Box.Abut 5 spans finish ∧ finish ≤ 195 := by
  obtain ⟨r, s', hrun, hview⟩ := Scene.run_of_viewAfter
    (show columnPage.viewAfter (Step.pass 0) (fun s' =>
        (s'.tree.visibleChildren 0).map (s'.tree.outerSpan? threeColumns .horizontal)) =
      some ([(5, 45), (45, 120), (120, 157)].map some) by decide +kernel)
  have hcontent : fittingContent (columnPage.begun threeColumns 0) threeColumns 0 =
      .ok ⟨5, 5, 190, 40⟩ := by
    decide +kernel
  have hforest : columnPage.tree.Forest :=
    (Tree.sameShape_applyRect _ 0 _).forest (Tree.nested_ofDescription _).forest
  obtain ⟨t, content, framed, hlast, hcontent', hframed, hinside⟩ :=
    columns_stay_inside hforest rfl rfl hrun (.self ⟨rfl, rfl⟩ _) rfl
  rw [fittingContent, hlast, Length.ok_bind, hcontent', Length.ok_bind, hframed,
    Length.ok_bind] at hcontent
  have hfits : Columns.Fits content framed := by
    by_contra hnot
    rw [if_neg hnot] at hcontent
    cases hcontent
  rw [if_pos hfits] at hcontent
  cases hcontent
  obtain ⟨spans, finish, hspans, habut, hfinish⟩ := hinside hfits
  refine ⟨s', _, spans, finish, hrun, hspans, ?_, habut, hfinish⟩
  rw [hview] at hspans
  exact (List.map_injective_iff.2 (Option.some_injective _) hspans).symm

end

end Trellis
