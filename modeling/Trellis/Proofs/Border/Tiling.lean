import Mathlib.Logic.ExistsUnique
import Trellis.Proofs.Border.Carving
import Trellis.Proofs.Border.Passes

/-!
# The regions of a border layout tile the container

Every edge in turn takes its strip off the area that the edges before it leave, and the center gets
what is left at last. So the strips and the center share no point and leave none out, as long as
each of them fits where it is cut.

* `stripPieces`: the strip of an edge, its region with the margins around it and its splitter.
* `Chain`: every edge has taken its strip off what was left.
* `Fits`: strips and margins fit where they are taken off.
* `arrangeBorder_tiles`: every point of the content box lies in one strip or in the center, and
  nothing lies outside of it.
-/
namespace Trellis

/-- The rectangle with which a region takes space: its own while it is expanded, and else its
placeholder. -/
def Region.body (r : Region) : Option Rect := if r.state = .expanded then r.rect else r.placeholder

namespace Border

/-- The margins around the body of a region. -/
def bodyMargins (layout : LayoutConfig) (e : Edge) (r : Region) (c : ItemConfig) : Sides :=
  if r.state = .expanded then c.marginSides layout else (collapsedMargins e c).value

theorem nonneg_bodyMargins (layout : LayoutConfig) (e : Edge) (r : Region) (c : ItemConfig) :
    (bodyMargins layout e r c).Nonneg := by
  unfold bodyMargins collapsedMargins
  split
  · exact c.nonneg_marginSides layout
  · cases c.cmargins with
    | some s => exact s.nonneg_sides
    | none => cases e <;> decide

section

variable (layout : LayoutConfig) (configs : ComponentId → Option ItemConfig) (b : Border)

/-- The strip of an edge: the body of its region with the margins around it, and the splitter. There
is none without a region, nor for an expanded one whose component is hidden. -/
def stripPieces (e : Edge) : List Rect :=
  match b.get e with
  | none => []
  | some r =>
    match configs r.component with
    | none => []
    | some c => (r.body.map fun rect => rect.grow (bodyMargins layout e r c)).toList ++
        r.splitter.toList

/-- How much of the area's length a strip takes. -/
def stripDepth (e : Edge) : Int :=
  ((stripPieces layout configs b e).map fun r => e.axis.main r.size).sum

/-- The margins at both ends of a strip. -/
def stripEnds (e : Edge) : Int :=
  match b.get e with
  | none => 0
  | some r =>
    match configs r.component, r.body with
    | some c, some _ =>
      e.axis.crossStart (bodyMargins layout e r c) + e.axis.crossEnd (bodyMargins layout e r c)
    | _, _ => 0

/-- The margins of the center. -/
def centerMargins : Sides :=
  ((b.center.bind configs).map fun c => c.marginSides layout).getD .zero

/-- The parts that a border container is divided into: the strips of the edges, and the center with
the margins around it. -/
def InPart (x y : Int) : Option Edge → Prop
  | some e => ∃ r ∈ stripPieces layout configs b e, r.Covers x y
  | none => ∃ rect ∈ b.centerRect, (rect.grow (centerMargins layout configs b)).Covers x y

instance (x y : Int) (part : Option Edge) : Decidable (InPart layout configs b x y part) :=
  match part with
  | some _ => inferInstanceAs (Decidable (∃ r ∈ stripPieces .., _))
  | none => inferInstanceAs (Decidable (∃ rect ∈ b.centerRect, _))

/-- Strips and margins fit where they are taken off: the strips of opposite edges into the content
box, and all other margins into what the strips before them leave. -/
structure Fits (content : Rect) : Prop where
  bands : stripDepth layout configs b .north + stripDepth layout configs b .south ≤ content.height
  flanks : stripDepth layout configs b .west + stripDepth layout configs b .east ≤ content.width
  bandEnds : stripEnds layout configs b .north ≤ content.width ∧
    stripEnds layout configs b .south ≤ content.width
  flankEnds : stripEnds layout configs b .west ≤
      content.height - stripDepth layout configs b .north - stripDepth layout configs b .south ∧
    stripEnds layout configs b .east ≤
      content.height - stripDepth layout configs b .north - stripDepth layout configs b .south
  centerAcross : (centerMargins layout configs b).left + (centerMargins layout configs b).right ≤
    content.width - stripDepth layout configs b .west - stripDepth layout configs b .east
  centerDown : (centerMargins layout configs b).top + (centerMargins layout configs b).bottom ≤
    content.height - stripDepth layout configs b .north - stripDepth layout configs b .south

instance (content : Rect) : Decidable (Fits layout configs b content) :=
  decidable_of_iff (_ ∧ _ ∧ (_ ∧ _) ∧ (_ ∧ _) ∧ _ ∧ _)
    ⟨fun ⟨bands, flanks, bandEnds, flankEnds, across, down⟩ =>
      ⟨bands, flanks, bandEnds, flankEnds, across, down⟩,
      fun ⟨bands, flanks, bandEnds, flankEnds, across, down⟩ =>
        ⟨bands, flanks, bandEnds, flankEnds, across, down⟩⟩

end

/-! ## One edge -/

/-- What laying out a region comes to: it is passed over, or its strip is cut off the area. -/
inductive LaidOut (layout : LayoutConfig) (e : Edge) (c : ItemConfig) (hidden : Bool)
    (area : Rect) (r : Region) (rest : Rect) : Prop
  | passedOver (hexpanded : r.state = .expanded) (hhidden : hidden = true) (hbody : r.body = none)
      (hsplitter : r.splitter = none) (hrest : rest = area)
  | cut (strip : Strip) (thickness split : Int)
      (hstrip : strip = carved area e thickness (bodyMargins layout e r c) split)
      (hsplit : 0 ≤ split) (hshown : ¬ (r.state = .expanded ∧ hidden = true))
      (hbody : r.body = some strip.rect)
      (hsplitter : r.splitter = if 0 < split then some strip.bar else none)
      (hrest : rest = strip.rest)

variable {layout : LayoutConfig}

theorem splitSize_nonneg (c : ItemConfig) : 0 ≤ splitSize c := by
  unfold splitSize
  split <;> omega

theorem layRegion_eq_ok {area : Rect} {e : Edge} {r : Region} {m : Member} {hidden : Bool}
    {laid : Laid} (h : (layRegion layout area e r m hidden).run.value = .ok laid) :
    LaidOut layout e m.config hidden area laid.region laid.rest := by
  unfold layRegion at h
  cases hstate : r.state with
  | expanded =>
    simp only [hstate] at h
    split at h
    · next hhidden =>
      cases h
      exact .passedOver rfl hhidden rfl rfl rfl
    · next hshown =>
      simp only [Draft.value_bind, Draft.value_noted, Draft.value_checked, Length.ok_bind] at h
      obtain ⟨strip, hstrip, h⟩ := Length.bind_eq_ok.1 h
      cases h
      exact .cut strip _ _ (carve_eq_ok hstrip) (splitSize_nonneg m.config) (fun h => hshown h.2)
        rfl rfl rfl
  | collapsed =>
    simp only [hstate, Draft.value_bind, Draft.value_noted, Draft.value_checked,
      Length.ok_bind] at h
    obtain ⟨strip, hstrip, h⟩ := Length.bind_eq_ok.1 h
    cases h
    exact .cut strip _ 0 (carve_eq_ok hstrip) (Int.le_refl 0) (fun h => nomatch h.1) rfl rfl rfl
  | floating =>
    simp only [hstate, Draft.value_bind, Draft.value_noted, Draft.value_checked,
      Length.ok_bind] at h
    obtain ⟨strip, hstrip, h⟩ := Length.bind_eq_ok.1 h
    obtain ⟨overlay, hoverlay, h⟩ := Length.bind_eq_ok.1 h
    cases h
    exact .cut strip _ 0 (carve_eq_ok hstrip) (Int.le_refl 0) (fun h => nomatch h.1) rfl rfl rfl

/-! ## All edges -/

section

variable {t : Tree} {configs : ComponentId → Option ItemConfig} {b : Border} {e : Edge}
  {area rest : Rect}

/-- An edge has taken its strip, if it has one, off the area. -/
def EdgeLaid (layout : LayoutConfig) (t : Tree) (b : Border) (e : Edge) (area rest : Rect) : Prop :=
  (b.get e = none ∧ rest = area) ∨
    ∃ r c, b.get e = some r ∧ t.get? r.component = some c ∧
      LaidOut layout e c.config c.state.hidden area r rest

/-- Every edge in turn has taken its strip off what the edges before it left. -/
def Chain (layout : LayoutConfig) (t : Tree) (b : Border) : List Edge → (area rest : Rect) → Prop
  | [], area, rest => rest = area
  | e :: edges, area, rest =>
    ∃ left, EdgeLaid layout t b e area left ∧ Chain layout t b edges left rest

theorem chain_of_layAll {members : ComponentId → Checked (Member × Bool)}
    (hmembers : ∀ id m hidden, members id = .ok (m, hidden) →
      ∃ c, t.get? id = some c ∧ m.config = c.config ∧ hidden = c.state.hidden)
    {edges : List Edge} (hnodup : edges.Nodup) {b' : Border} {placements : List Placement}
    (h : (layAll layout members edges b area).run.value = .ok (b', placements, rest)) :
    Chain layout t b' edges area rest ∧ ∀ e ∉ edges, b'.get e = b.get e := by
  induction edges generalizing b area placements with
  | nil =>
    cases h
    exact ⟨rfl, fun _ _ => rfl⟩
  | cons e edges ih =>
    obtain ⟨he, hnodup⟩ := List.nodup_cons.1 hnodup
    rcases layAll_cons_eq_ok h with ⟨hnone, hrest⟩ |
      ⟨r, m, hidden, laid, others, hr, hm, hlaid, hrest, rfl⟩
    · obtain ⟨hchain, hothers⟩ := ih hnodup hrest
      refine ⟨⟨area, .inl ⟨(hothers e he).trans hnone, rfl⟩, hchain⟩, fun f hf => ?_⟩
      exact hothers f fun hmem => hf (List.mem_cons_of_mem _ hmem)
    · obtain ⟨c, hc, hconfig, hhidden⟩ := hmembers _ _ _ hm
      have hout := layRegion_eq_ok hlaid
      obtain ⟨hchain, hothers⟩ := ih hnodup hrest
      have hcomponent : laid.region.component = r.component := by
        show laid.region.bare.component = r.bare.component
        rw [(layRegion_keeps hlaid).1]
      rw [hconfig, hhidden] at hout
      have hkept : b'.get e = some laid.region := by
        rw [hothers e he, Border.get_set, if_pos rfl]
      refine ⟨⟨laid.rest, .inr ⟨laid.region, c, hkept, hcomponent.symm ▸ hc, hout⟩, hchain⟩,
        fun f hf => ?_⟩
      rw [hothers f fun hmem => hf (List.mem_cons_of_mem _ hmem), Border.get_set, if_neg]
      exact fun heq => hf (heq ▸ List.mem_cons_self)

/-- A bar without thickness is no part of the strip. -/
theorem mem_bar {strip : Strip} {split : Int}
    (hbar : e.axis.main strip.bar.size = split) (hsplit : 0 ≤ split) {x y : Int} :
    (∃ r ∈ (if 0 < split then some strip.bar else none : Option Rect), r.Covers x y) ↔
      strip.bar.Covers x y := by
  split
  · simp
  · simp only [Option.mem_def, reduceCtorEq, false_and, exists_false, false_iff]
    have hnone : e.axis.main strip.bar.size ≤ 0 := by omega
    unfold Rect.Covers
    cases e <;> simp only [Edge.axis, Axis.main, Rect.size] at hnone <;> omega

/-- The points of a strip, its depth and its ends, as it was cut. -/
theorem strip_of_cut {r : Region} {c : ItemConfig} {strip : Strip} {split : Int}
    (hget : b.get e = some r) (hc : configs r.component = some c) (hbody : r.body = some strip.rect)
    (hbar : e.axis.main strip.bar.size = split) (hsplit : 0 ≤ split)
    (hsplitter : r.splitter = if 0 < split then some strip.bar else none) :
    (∀ x y, InPart layout configs b x y (some e) ↔
      (strip.rect.grow (bodyMargins layout e r c)).Covers x y ∨ strip.bar.Covers x y) ∧
    stripDepth layout configs b e = strip.depth e (bodyMargins layout e r c) ∧
    stripEnds layout configs b e = e.axis.crossStart (bodyMargins layout e r c) +
      e.axis.crossEnd (bodyMargins layout e r c) := by
  have hpieces : stripPieces layout configs b e =
      strip.rect.grow (bodyMargins layout e r c) ::
        (if 0 < split then some strip.bar else none : Option Rect).toList := by
    simp only [stripPieces, hget, hc, hbody, hsplitter, Option.map_some, Option.toList_some,
      List.singleton_append]
  refine ⟨fun x y => ?_, ?_, ?_⟩
  · simp only [InPart, hpieces, List.mem_cons, Option.mem_toList, exists_eq_or_imp,
      ← mem_bar hbar hsplit]
    rfl
  · rw [stripDepth, hpieces, Strip.depth, List.map_cons, List.sum_cons]
    split
    · simp
    · simp only [Option.toList_none, List.map_nil, List.sum_nil]
      omega
  · simp only [stripEnds, hget, hc, hbody]

theorem main_bar_carved (area : Rect) (e : Edge) (thickness : Int) (m : Sides) (split : Int) :
    e.axis.main (carved area e thickness m split).bar.size = split := by
  cases e <;> rfl

/-- How a strip that is cut shows in the border. -/
theorem EdgeLaid.cases (h : EdgeLaid layout t b e area rest) :
    (stripPieces layout t.config? b e = [] ∧ rest = area) ∨
    ∃ m thickness split, m.Nonneg ∧ 0 ≤ split ∧ rest = (carved area e thickness m split).rest ∧
      (∀ x y, InPart layout t.config? b x y (some e) ↔
        ((carved area e thickness m split).rect.grow m).Covers x y ∨
          (carved area e thickness m split).bar.Covers x y) ∧
      stripDepth layout t.config? b e = (carved area e thickness m split).depth e m ∧
      stripEnds layout t.config? b e = e.axis.crossStart m + e.axis.crossEnd m := by
  rcases h with ⟨hnone, rfl⟩ | ⟨r, c, hget, hc, hout⟩
  · exact .inl ⟨by simp only [stripPieces, hnone], rfl⟩
  · have hconfig : t.config? r.component = some c.config := by rw [Tree.config?, hc]; rfl
    cases hout with
    | passedOver hexpanded hhidden hbody hsplitter hrest =>
      exact .inl ⟨by simp [stripPieces, hget, hconfig, hbody, hsplitter], hrest⟩
    | cut strip thickness split hstrip hsplit hshown hbody hsplitter hrest =>
      have hbar : e.axis.main strip.bar.size = split := by
        rw [hstrip]
        exact main_bar_carved _ _ _ _ _
      obtain ⟨hpoints, hdepth, hends⟩ :=
        @strip_of_cut layout _ _ _ _ _ _ _ hget hconfig hbody hbar hsplit hsplitter
      subst hstrip
      exact .inr ⟨_, thickness, split, nonneg_bodyMargins layout e r c.config, hsplit, hrest,
        hpoints, hdepth, hends⟩

theorem EdgeLaid.depth_nonneg (h : EdgeLaid layout t b e area rest) :
    0 ≤ stripDepth layout t.config? b e := by
  rcases h.cases with ⟨hpieces, -⟩ | ⟨m, thickness, split, hm, hsplit, -, -, hdepth, -⟩
  · rw [stripDepth, hpieces]
    exact Int.le_refl 0
  · rw [hdepth]
    exact depth_carved_nonneg area e thickness hm hsplit

/-- A strip that fits and what is left make up the area. -/
theorem EdgeLaid.splits (h : EdgeLaid layout t b e area rest)
    (hdepth : stripDepth layout t.config? b e ≤ e.axis.main area.size)
    (hends : stripEnds layout t.config? b e ≤ e.axis.cross area.size) :
    Splits area (fun x y => InPart layout t.config? b x y (some e)) rest ∧
      e.axis.main rest.size = e.axis.main area.size - stripDepth layout t.config? b e ∧
      e.axis.cross rest.size = e.axis.cross area.size := by
  rcases h.cases with ⟨hpieces, rfl⟩ |
    ⟨m, thickness, split, hm, hsplit, rfl, hpoints, hstripDepth, hstripEnds⟩
  · simp only [InPart, stripDepth, hpieces, List.not_mem_nil, false_and, exists_false, List.map_nil,
      List.sum_nil, Int.sub_zero, and_self, and_true]
    exact Splits.nothing _
  · rw [hstripDepth] at hdepth ⊢
    rw [hstripEnds] at hends
    obtain ⟨hmain, hcross⟩ := carved_leaves area e thickness m split
    refine ⟨fun x y => ?_, by omega, hcross⟩
    simpa only [hpoints] using carved_splits hm hsplit hdepth hends x y

/-! ## The center -/

theorem Chain.congr {b' : Border} (hget : ∀ e, b'.get e = b.get e) {edges : List Edge}
    (h : Chain layout t b edges area rest) : Chain layout t b' edges area rest := by
  induction edges generalizing area with
  | nil => exact h
  | cons e edges ih =>
    obtain ⟨left, hlaid, hchain⟩ := h
    refine ⟨left, ?_, ih hchain⟩
    unfold EdgeLaid at hlaid ⊢
    rw [hget]
    exact hlaid

/-- All edges have taken their strips, and the center has what is left. -/
theorem chain_of_place {members : ComponentId → Checked (Member × Bool)}
    (hmembers : ∀ id m hidden, members id = .ok (m, hidden) →
      ∃ c, t.get? id = some c ∧ m.config = c.config ∧ hidden = c.state.hidden)
    {center : ComponentId} (hcenter : b.center = some center) {content : Rect} {b' : Border}
    {placements : List Placement}
    (h : (b.place layout members center content).run.value = .ok (b', placements)) :
    ∃ left rect, Chain layout t b' Edge.all content left ∧
      (∀ e, (b'.get e).map Region.bare = (b.get e).map Region.bare) ∧
      left.inset (centerMargins layout t.config? b') = .ok rect ∧ b'.centerRect = some rect := by
  obtain ⟨laid, others, left, m, hidden, rect, hlaid, hm, hrect, rfl, -⟩ := place_eq_ok h
  obtain ⟨hchain, -⟩ := chain_of_layAll hmembers (by decide) hlaid
  obtain ⟨hbare, hkept, -⟩ := layAll_keeps hlaid
  obtain ⟨c, hc, hconfig, -⟩ := hmembers _ _ _ hm
  refine ⟨left, rect, hchain.congr fun e => get_centerRect .., fun e => ?_, ?_, rfl⟩
  · rw [get_centerRect, hbare]
  have hmargins : centerMargins layout t.config? { laid with centerRect := some rect } =
      m.config.marginSides layout := by
    simp only [centerMargins, hkept, hcenter, Option.bind_some, Tree.config?, hc, Option.map_some,
      Option.getD_some, ← hconfig]
  rw [hmargins]
  exact hrect

/-- Strips and center that fit tile the content box. -/
theorem tiles_of_chain {content rect : Rect} (hchain : Chain layout t b Edge.all content rest)
    (hinset : rest.inset (centerMargins layout t.config? b) = .ok rect)
    (hrect : b.centerRect = some rect) (hfits : Fits layout t.config? b content) :
    (∀ x y, content.Covers x y → ∃! part, InPart layout t.config? b x y part) ∧
      ∀ x y part, InPart layout t.config? b x y part → content.Covers x y := by
  obtain ⟨a₁, hnorth, a₂, hsouth, a₃, hwest, a₄, heast, rfl⟩ := hchain
  obtain ⟨hbands, hflanks, ⟨hnorthEnds, hsouthEnds⟩, ⟨hwestEnds, heastEnds⟩, hacross, hdown⟩ :=
    hfits
  have hsouthDepth := hsouth.depth_nonneg
  have heastDepth := heast.depth_nonneg
  obtain ⟨hsplitN, hmainN, hcrossN⟩ :=
    hnorth.splits (show _ ≤ content.height by omega) hnorthEnds
  simp only [Edge.axis, Axis.main, Axis.cross, Rect.size] at hmainN hcrossN
  obtain ⟨hsplitS, hmainS, hcrossS⟩ :=
    hsouth.splits (show _ ≤ a₁.height by omega) (show _ ≤ a₁.width by omega)
  simp only [Edge.axis, Axis.main, Axis.cross, Rect.size] at hmainS hcrossS
  obtain ⟨hsplitW, hmainW, hcrossW⟩ :=
    hwest.splits (show _ ≤ a₂.width by omega) (show _ ≤ a₂.height by omega)
  simp only [Edge.axis, Axis.main, Axis.cross, Rect.size] at hmainW hcrossW
  obtain ⟨hsplitE, hmainE, hcrossE⟩ :=
    heast.splits (show _ ≤ a₃.width by omega) (show _ ≤ a₃.height by omega)
  simp only [Edge.axis, Axis.main, Axis.cross, Rect.size] at hmainE hcrossE
  have hgrown := inset_grow (by omega) (by omega) hinset
  have hall :
      SplitsAll (fun e x y => InPart layout t.config? b x y (some e)) Edge.all content rest :=
    ⟨a₁, hsplitN, a₂, hsplitS, a₃, hsplitW, rest, hsplitE, rfl⟩
  have hcenter : ∀ x y, InPart layout t.config? b x y none ↔ rest.Covers x y := by
    intro x y
    simp only [InPart, hrect, Option.mem_some_iff, exists_eq_left', hgrown]
  have hedge : ∀ e, e ∈ Edge.all := by
    intro e
    cases e <;> decide
  refine ⟨fun x y hcovers => ?_, fun x y part hpart => ?_⟩
  · rcases hall.covers.1 hcovers with ⟨e, he, hpart⟩ | hrest
    · refine ⟨some e, hpart, fun other hother => ?_⟩
      cases other with
      | none => exact absurd ((hcenter x y).1 hother) (hall.not_rest he hpart)
      | some f => rw [hall.unique (hedge f) he hother hpart]
    · refine ⟨none, (hcenter x y).2 hrest, fun other hother => ?_⟩
      cases other with
      | none => rfl
      | some f => exact absurd hrest (hall.not_rest (hedge f) hother)
  · cases part with
    | none => exact hall.covers.2 (.inr ((hcenter x y).1 hpart))
    | some e => exact hall.covers.2 (.inl ⟨e, hedge e, hpart⟩)

/-! ## A pass over a border container -/

/-- A region at one of the edges has been passed over or has taken its strip. -/
theorem Chain.laid_of_mem {edges : List Edge} (h : Chain layout t b edges area rest)
    (he : e ∈ edges) : ∃ before left, EdgeLaid layout t b e before left := by
  induction edges generalizing area with
  | nil => cases he
  | cons f edges ih =>
    obtain ⟨left, hlaid, hchain⟩ := h
    rcases List.mem_cons.1 he with rfl | he
    · exact ⟨area, left, hlaid⟩
    · exact ih hchain he

/-- Only an expanded region whose component is hidden takes no space. -/
theorem EdgeLaid.body_eq_none (h : EdgeLaid layout t b e area rest) {r : Region} {c : Component}
    (hr : b.get e = some r) (hc : t.get? r.component = some c) :
    r.body = none ↔ r.state = .expanded ∧ c.state.hidden = true := by
  rcases h with ⟨hnone, -⟩ | ⟨r', c', hr', hc', hout⟩
  · rw [hr] at hnone
    cases hnone
  · rw [hr] at hr'
    cases hr'
    rw [hc] at hc'
    cases hc'
    cases hout with
    | passedOver hexpanded hhidden hbody => exact iff_of_true hbody ⟨hexpanded, hhidden⟩
    | cut strip thickness split hstrip hsplit hshown hbody =>
      refine iff_of_false ?_ hshown
      rw [hbody]
      exact Option.some_ne_none _

/-- The regions of a border layout tile its container. The regions that were picked up are kept, in
the states that they had, and each of them takes a strip unless it is expanded and its component is
hidden. If the strips and the margins fit where they are taken off, then every point of the content
box lies in exactly one strip or in the center, and nothing of these lies outside of it. -/
theorem arrangeBorder_tiles {s s' : Scene} {container : ComponentId}
    (h : s.run (Step.arrangeBorder layout container b) = .ok (.ok (), s')) :
    ∃ slots mid content after, s.slots container = .ok slots ∧
      Scene.Syncs container b slots s mid ∧ mid.content layout container = .ok content ∧
      s'.kept.get? container = some (.border after) ∧
      (∀ e, (after.get e).map Region.bare = ((b.sync slots).get e).map Region.bare) ∧
      (∀ e r c, after.get e = some r → mid.tree.get? r.component = some c →
        (r.body = none ↔ r.state = .expanded ∧ c.state.hidden = true)) ∧
      (Fits layout s'.tree.config? after content →
        (∀ x y, content.Covers x y → ∃! part, InPart layout s'.tree.config? after x y part) ∧
          ∀ x y part, InPart layout s'.tree.config? after x y part → content.Covers x y) := by
  obtain ⟨slots, mid, hslots, hsync,
    ⟨-, hrefused, -⟩ | ⟨-, after, placements, hlaid, htree, -, hkept⟩⟩ :=
    Scene.run_arrangeBorder_eq_ok h
  · cases hrefused
  · obtain ⟨center, content, hcenter, hcontent, hplace⟩ := hlaid
    obtain ⟨left, rect, hchain, hbare, hinset, hrect⟩ := chain_of_place
      (fun _ _ _ => Scene.of_regionMember) hcenter hplace
    refine ⟨slots, mid, content, after, hslots, hsync, hcontent, ?_, hbare,
      fun e r c hr hc => ?_, ?_⟩
    · rw [hkept, IdMap.get?_insert, if_pos rfl]
    · have hedge : e ∈ Edge.all := by cases e <;> decide
      obtain ⟨before, left, hedgeLaid⟩ := hchain.laid_of_mem hedge
      exact hedgeLaid.body_eq_none hr hc
    · rw [htree, Tree.config?_applyPlacements]
      exact tiles_of_chain hchain hinset hrect

/-! ### A container with a region at every edge -/

def ringedLayout : LayoutConfig := { kind := .border, padding := some (.text "10") }

/-- An expanded region with a splitter in the north, a collapsed one in the south, an expanded one
in the east, and one in the west that is to float. -/
def ringed : Scene :=
  .ofTree ((Tree.ofDescription (.node { layout := some ringedLayout }
    [.node { region := some .north, height := some 20, split := true, margins := some (.text "2") }
        [],
      .node { region := some .south, collapsed := true } [],
      .node { region := some .west, width := some 40 } [],
      .node { region := some .east, width := some 30 } [],
      .node { region := some .center, margins := some (.text "1") } []])).applyRect 0
        ⟨0, 0, 200, 150⟩) .standard

def floatingWest : Border :=
  { Border.empty with west := some { Region.fresh .west 3 true with state := .floating } }

/-- Whether everything fits into `content` once a pass has kept its border. -/
def fitsAfter (layout : LayoutConfig) (content : Rect) (s : Scene) : Bool :=
  match s.kept.get? 0 with
  | some (.border b) => decide (Fits layout s.tree.config? b content)
  | _ => false

/-- The regions around the center and the center tile the 180 by 130 pixels inside the padding. -/
theorem ringed_tiled :
    ∃ s' after, ringed.run (Step.arrangeBorder ringedLayout 0 floatingWest) = .ok (.ok (), s') ∧
      s'.kept.get? 0 = some (.border after) ∧
      Fits ringedLayout s'.tree.config? after ⟨10, 10, 180, 130⟩ ∧
      (∀ x y, Rect.Covers ⟨10, 10, 180, 130⟩ x y →
        ∃! part, InPart ringedLayout s'.tree.config? after x y part) ∧
      ∀ x y part, InPart ringedLayout s'.tree.config? after x y part →
        Rect.Covers ⟨10, 10, 180, 130⟩ x y := by
  obtain ⟨⟨⟩, s', hrun, hview⟩ := Scene.run_of_viewAfter
    (show ringed.viewAfter (Step.arrangeBorder ringedLayout 0 floatingWest)
      (fitsAfter ringedLayout ⟨10, 10, 180, 130⟩) = some true by decide +kernel)
  obtain ⟨slots, mid, content, after, hslots, hsync, hcontent, hkept, -, -, htiles⟩ :=
    arrangeBorder_tiles hrun
  have hslots' : ringed.slots 0 = .ok [⟨1, some .north, false, true⟩, ⟨2, some .south, true, true⟩,
      ⟨3, some .west, false, true⟩, ⟨4, some .east, false, true⟩, ⟨5, some .center, false, true⟩] := by
    decide +kernel
  rw [hslots'] at hslots
  cases hslots
  have hcontent' : mid.content ringedLayout 0 = .ok ⟨10, 10, 180, 130⟩ := by
    rw [Scene.content, hsync.host, hsync.tree]
    decide +kernel
  rw [hcontent'] at hcontent
  cases hcontent
  simp only [fitsAfter, hkept, decide_eq_true_eq] at hview
  exact ⟨s', after, hrun, hkept, hview, htiles hview⟩

/-! ### A center that is given too little -/

def crowdedLayout : LayoutConfig := { kind := .border }

/-- West and east leave ten of a hundred pixels to a center with margins of twenty. -/
def crowded : Scene :=
  .ofTree ((Tree.ofDescription (.node { layout := some crowdedLayout }
    [.node { region := some .west, width := some 50 } [],
      .node { region := some .east, width := some 40 } [],
      .node { region := some .center, margins := some (.text "0 10") } []])).applyRect 0
        ⟨0, 0, 100, 100⟩) .standard

/-- The strips of opposite edges fit into `content` together, and every other margin fits into it
by itself. -/
structure FitsApart (layout : LayoutConfig) (configs : ComponentId → Option ItemConfig) (b : Border)
    (content : Rect) : Prop where
  bands : stripDepth layout configs b .north + stripDepth layout configs b .south ≤ content.height
  flanks : stripDepth layout configs b .west + stripDepth layout configs b .east ≤ content.width
  ends : ∀ e ∈ Edge.all, stripEnds layout configs b e ≤ e.axis.cross content.size
  centerAcross : (centerMargins layout configs b).left + (centerMargins layout configs b).right ≤
    content.width
  centerDown : (centerMargins layout configs b).top + (centerMargins layout configs b).bottom ≤
    content.height

instance (layout : LayoutConfig) (configs : ComponentId → Option ItemConfig) (b : Border)
    (content : Rect) : Decidable (FitsApart layout configs b content) :=
  decidable_of_iff (_ ∧ _ ∧ (∀ e ∈ Edge.all, _ ≤ _) ∧ _ ∧ _)
    ⟨fun ⟨bands, flanks, ends, across, down⟩ => ⟨bands, flanks, ends, across, down⟩,
      fun ⟨bands, flanks, ends, across, down⟩ => ⟨bands, flanks, ends, across, down⟩⟩

/-- Whether the strips fit by themselves and the point (65, 50) is both in the east and in the
center, once a pass has kept its border. -/
def overlapsAfter (s : Scene) : Bool :=
  match s.kept.get? 0 with
  | some (.border b) =>
    decide (FitsApart crowdedLayout s.tree.config? b ⟨0, 0, 100, 100⟩ ∧
      InPart crowdedLayout s.tree.config? b 65 50 (some .east) ∧
      InPart crowdedLayout s.tree.config? b 65 50 none)
  | _ => false

/-- It is not enough that the strips fit and that all margins fit into the content box: the center
never gets less than its margins, so where the strips leave less, it overlaps one of them. -/
theorem crowded_overlaps :
    crowded.content crowdedLayout 0 = .ok ⟨0, 0, 100, 100⟩ ∧
    ∃ s' after, crowded.run (Step.arrangeBorder crowdedLayout 0 .empty) = .ok (.ok (), s') ∧
      s'.kept.get? 0 = some (.border after) ∧
      FitsApart crowdedLayout s'.tree.config? after ⟨0, 0, 100, 100⟩ ∧
      ¬ ∀ x y, Rect.Covers ⟨0, 0, 100, 100⟩ x y →
        ∃! part, InPart crowdedLayout s'.tree.config? after x y part := by
  refine ⟨by decide +kernel, ?_⟩
  obtain ⟨⟨⟩, s', hrun, hview⟩ := Scene.run_of_viewAfter
    (show crowded.viewAfter (Step.arrangeBorder crowdedLayout 0 .empty) overlapsAfter = some true by
      decide +kernel)
  unfold overlapsAfter at hview
  split at hview
  · next after hkept =>
    obtain ⟨hfits, heast, hcenter⟩ := of_decide_eq_true hview
    refine ⟨s', after, hrun, hkept, hfits, fun htiles => ?_⟩
    obtain ⟨part, -, hunique⟩ := htiles 65 50 (by decide)
    have heq := (hunique _ heast).trans (hunique _ hcenter).symm
    cases heq
  · cases hview

end

end Border

end Trellis
