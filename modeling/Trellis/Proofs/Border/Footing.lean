import Trellis.Proofs.Border.Passes

/-!
# Regions on the same footing

A collapsed region and a floating one cut the same strip off the area; a floating one is drawn
beside its placeholder on top. So regions that differ in nothing else leave the same to all others.

* `layRegion_folded`: what a region that is not expanded cuts off.
* `Edge.Beside`: an overlay touches its placeholder; `place_floating`: that of every floating region
  does.
* `Poised`: the regions at some edges may be collapsed in one border and floating in the other;
  `place_footing`: everything else is placed alike.
-/
namespace Trellis

/-- What decides on the space that a region takes: its component, whether it is expanded, and its
size. -/
def Region.footing (r : Region) : ComponentId × Bool × Option Int :=
  (r.component, decide (r.state = .expanded), r.size)

theorem Region.footing_eq_iff {r r' : Region} : r'.footing = r.footing ↔
    r'.component = r.component ∧ (r'.state = .expanded ↔ r.state = .expanded) ∧
      r'.size = r.size := by
  simp [footing]

/-- Regions that look the same are on the same footing. -/
theorem Region.footing_of_look {x y : Option Region} (h : y.map look = x.map look) :
    y.map footing = x.map footing := by
  have hfooting := congrArg (Option.map fun look : ComponentId × RegionState × Option Int =>
    (look.1, decide (look.2.1 = .expanded), look.2.2)) h
  rwa [Option.map_map, Option.map_map] at hfooting

/-- What a region takes from the others: its placeholder and its splitter. -/
def Region.fixture (r : Region) : Option Rect × Option Rect := (r.placeholder, r.splitter)

/-- The overlay touches the placeholder along the side that faces the center, and is as long. -/
def Edge.Beside (e : Edge) (placeholder overlay : Rect) : Prop :=
  match e with
  | .north => overlay.y = placeholder.y + placeholder.height ∧ overlay.x = placeholder.x ∧
      overlay.width = placeholder.width
  | .south => overlay.y + overlay.height = placeholder.y ∧ overlay.x = placeholder.x ∧
      overlay.width = placeholder.width
  | .west => overlay.x = placeholder.x + placeholder.width ∧ overlay.y = placeholder.y ∧
      overlay.height = placeholder.height
  | .east => overlay.x + overlay.width = placeholder.x ∧ overlay.y = placeholder.y ∧
      overlay.height = placeholder.height

namespace Border

variable {layout : LayoutConfig} {members members₂ : ComponentId → Checked (Member × Bool)}
  {b b₂ after after₂ : Border} {area : Rect} {e : Edge} {r r₂ : Region} {m : Member}
  {hidden hidden₂ : Bool} {laid laid₂ : Laid} {moved : Edge → Prop}

theorem floatBeside_beside {placeholder overlay : Rect} {thickness : Int}
    (h : floatBeside placeholder e thickness = .ok overlay) : e.Beside placeholder overlay := by
  cases e <;> simp only [floatBeside, Rect.bottom, Rect.right, Length.bind_eq_ok,
    Length.add_eq_ok, Length.sub_eq_ok, pure, Except.pure, Except.ok.injEq, and_assoc,
    exists_eq_left] at h
  all_goals
    obtain ⟨-, rfl⟩ := h
    simp [Edge.Beside]

/-! ## One region -/

/-- A region that is not expanded cuts off a strip for its placeholder, whether it is floating or
not; a floating one is placed beside it. -/
theorem layRegion_folded (hstate : r.state ≠ .expanded)
    (h : (layRegion layout area e r m hidden).run.value = .ok laid) :
    ∃ strip, carve area e (m.config.collapsedSize.getD standardCollapsedSize)
        (collapsedMargins e m.config).value 0 = .ok strip ∧
      laid.rest = strip.rest ∧ laid.region.fixture = (some strip.rect, none) ∧
      (r.state = .floating → ∃ overlay, e.Beside strip.rect overlay ∧
        laid.region.rect = some overlay ∧ laid.placement = some ⟨r.component, overlay⟩) := by
  unfold layRegion at h
  cases hr : r.state with
  | expanded => exact absurd hr hstate
  | collapsed =>
    simp only [hr, Draft.value_bind, Draft.value_noted, Draft.value_checked, Length.ok_bind] at h
    obtain ⟨strip, hstrip, h⟩ := Length.bind_eq_ok.1 h
    cases h
    exact ⟨strip, hstrip, rfl, rfl, nofun⟩
  | floating =>
    simp only [hr, Draft.value_bind, Draft.value_noted, Draft.value_checked, Length.ok_bind] at h
    obtain ⟨strip, hstrip, h⟩ := Length.bind_eq_ok.1 h
    obtain ⟨overlay, hoverlay, h⟩ := Length.bind_eq_ok.1 h
    cases h
    exact ⟨strip, hstrip, rfl, rfl, fun _ => ⟨overlay, floatBeside_beside hoverlay, rfl, rfl⟩⟩

/-- Regions on the same footing that are not expanded leave the same. -/
theorem layRegion_footing (hfooting : r₂.footing = r.footing) (hfolded : r.state ≠ .expanded)
    (h : (layRegion layout area e r m hidden).run.value = .ok laid)
    (h₂ : (layRegion layout area e r₂ m hidden₂).run.value = .ok laid₂) :
    laid₂.rest = laid.rest ∧ laid₂.region.fixture = laid.region.fixture := by
  have hfolded₂ : r₂.state ≠ .expanded := fun h =>
    hfolded ((Region.footing_eq_iff.1 hfooting).2.1.1 h)
  obtain ⟨strip, hstrip, hrest, hfixture, -⟩ := layRegion_folded hfolded h
  obtain ⟨strip₂, hstrip₂, hrest₂, hfixture₂, -⟩ := layRegion_folded hfolded₂ h₂
  obtain rfl := Except.ok.inj (hstrip.symm.trans hstrip₂)
  exact ⟨hrest₂.trans hrest.symm, hfixture₂.trans hfixture.symm⟩

/-! ## All regions -/

/-- What a region comes to when all are laid out. -/
theorem layAll_region {edges : List Edge} {rest : Rect} {placements : List Placement}
    (hnodup : edges.Nodup)
    (h : (layAll layout members edges b area).run.value = .ok (after, placements, rest)) :
    (∀ f ∉ edges, after.get f = b.get f) ∧ ∀ e ∈ edges, ∀ r', after.get e = some r' →
      ∃ left r m hidden laid, b.get e = some r ∧ members r.component = .ok (m, hidden) ∧
        (layRegion layout left e r m hidden).run.value = .ok laid ∧ laid.region = r' ∧
        ∀ p ∈ laid.placement, p ∈ placements := by
  induction edges generalizing b area placements with
  | nil =>
    cases h
    exact ⟨fun _ _ => rfl, fun _ => nofun⟩
  | cons f edges ih =>
    obtain ⟨hf, hnodup⟩ := List.nodup_cons.1 hnodup
    rcases layAll_cons_eq_ok h with ⟨hnone, hrest⟩ |
      ⟨r, m, hidden, laid, others, hr, hm, hlaid, hrest, rfl⟩
    · obtain ⟨hkept, hregion⟩ := ih hnodup hrest
      refine ⟨fun g hg => hkept g fun hmem => hg (List.mem_cons_of_mem f hmem),
        fun e he r' hr' => ?_⟩
      refine hregion e ((List.mem_cons.1 he).resolve_left ?_) r' hr'
      rintro rfl
      rw [hkept e hf, hnone] at hr'
      cases hr'
    · obtain ⟨hkept, hregion⟩ := ih hnodup hrest
      refine ⟨fun g hg => ?_, fun e he r' hr' => ?_⟩
      · obtain ⟨hne, hmem⟩ := not_or.1 (fun h => hg (List.mem_cons.2 h))
        rw [hkept g hmem, Border.get_set, if_neg hne]
      · by_cases heq : e = f
        · subst heq
          rw [hkept e hf, Border.get_set, if_pos rfl, Option.some.injEq] at hr'
          exact ⟨area, r, m, hidden, laid, hr, hm, hlaid, hr', fun p hp =>
            List.mem_append_left _ (by simpa using hp)⟩
        · obtain ⟨left, q, n, shown, out, hq, hn, hout, hsame, hplaced⟩ :=
            hregion e ((List.mem_cons.1 he).resolve_left heq) r' hr'
          rw [Border.get_set, if_neg heq] at hq
          exact ⟨left, q, n, shown, out, hq, hn, hout, hsame, fun p hp =>
            List.mem_append_right _ (hplaced p hp)⟩

/-- The regions at the edges that are `moved` are on the same footing in both borders, and not
expanded; all others look the same, and their components are seen alike. -/
structure Poised (moved : Edge → Prop) (members members₂ : ComponentId → Checked (Member × Bool))
    (b b₂ : Border) : Prop where
  footing : ∀ e, (b₂.get e).map Region.footing = (b.get e).map Region.footing
  look : ∀ e, ¬ moved e → (b₂.get e).map Region.look = (b.get e).map Region.look
  folded : ∀ e r, moved e → b.get e = some r → r.state ≠ .expanded
  sees : ∀ e r, b.get e = some r →
    (members₂ r.component).map Prod.fst = (members r.component).map Prod.fst
  shows : ∀ e r, ¬ moved e → b.get e = some r → members₂ r.component = members r.component

/-- Neither does it matter what has been drawn of the regions. -/
theorem Poised.set (h : Poised moved members members₂ b b₂) {q q₂ : Region}
    (hr : b.get e = some r) (hr₂ : b₂.get e = some r₂) (hq : q.look = r.look)
    (hq₂ : q₂.look = r₂.look) :
    Poised moved members members₂ (b.set e (some q)) (b₂.set e (some q₂)) := by
  obtain ⟨hcomponent, hstate, -⟩ := Region.look_eq_iff.1 hq
  have hfooting := h.footing e
  have hlook := h.look e
  rw [hr, hr₂] at hfooting hlook
  refine ⟨fun f => ?_, fun f hf => ?_, fun f x hf hx => ?_, fun f x hx => ?_, fun f x hf hx => ?_⟩
  · rw [Border.get_set, Border.get_set]
    split
    · have hlook₂ : (some q₂).map Region.look = (some r₂).map Region.look := congrArg some hq₂
      have hlook₁ : (some q).map Region.look = (some r).map Region.look := congrArg some hq
      rw [Region.footing_of_look hlook₂, Region.footing_of_look hlook₁, hfooting]
    · exact h.footing f
  · rw [Border.get_set, Border.get_set]
    split
    · next heq =>
      rw [Option.map_some, Option.map_some, hq, hq₂]
      exact hlook (heq ▸ hf)
    · exact h.look f hf
  all_goals
    rw [Border.get_set] at hx
    split at hx
    · next heq =>
      subst heq
      cases hx
      first
      | exact hstate ▸ h.folded _ r hf hr
      | exact hcomponent ▸ h.sees _ r hr
      | exact hcomponent ▸ h.shows _ r hf hr
    · first
      | exact h.folded f x hf hx
      | exact h.sees f x hx
      | exact h.shows f x hf hx

/-- The component belongs to a region that has moved. -/
def Moves (moved : Edge → Prop) (b : Border) (i : ComponentId) : Prop :=
  ∃ e, moved e ∧ (b.get e).map Region.component = some i

theorem moves_congr (h : ∀ e, (b₂.get e).map Region.component = (b.get e).map Region.component) :
    Moves moved b₂ = Moves moved b := by
  funext i
  simp only [Moves, h]

/-- Two regions of borders that are poised, laid out with the same area. -/
theorem Poised.layRegion (h : Poised moved members members₂ b b₂) (hr : b.get e = some r)
    (hr₂ : b₂.get e = some r₂) {m₂ : Member} (hm : members r.component = .ok (m, hidden))
    (hm₂ : members₂ r₂.component = .ok (m₂, hidden₂))
    (hlaid : (layRegion layout area e r m hidden).run.value = .ok laid)
    (hlaid₂ : (Border.layRegion layout area e r₂ m₂ hidden₂).run.value = .ok laid₂) :
    laid₂.rest = laid.rest ∧ laid₂.region.fixture = laid.region.fixture ∧
      (laid₂.placement = laid.placement ∨ Moves moved b r.component) := by
  have hfooting := h.footing e
  rw [hr, hr₂, Option.map_some, Option.map_some, Option.some.injEq] at hfooting
  have hcomponent := (Region.footing_eq_iff.1 hfooting).1
  rw [hcomponent] at hm₂
  by_cases hmoved : moved e
  · have hsees := h.sees e r hr
    rw [hm, hm₂] at hsees
    cases hsees
    obtain ⟨hrest, hfixture⟩ := layRegion_footing hfooting (h.folded e r hmoved hr) hlaid hlaid₂
    exact ⟨hrest, hfixture, .inr ⟨e, hmoved, by rw [hr, Option.map_some]⟩⟩
  · have hlook := h.look e hmoved
    rw [hr, hr₂, Option.map_some, Option.map_some, Option.some.injEq] at hlook
    rw [h.shows e r hmoved hr, hm] at hm₂
    cases hm₂
    obtain ⟨hplacement, hrest, hgeometry⟩ := layRegion_look hlook hlaid hlaid₂
    exact ⟨hrest, congrArg Prod.snd hgeometry, .inl hplacement⟩

theorem layAll_footing {edges : List Edge} {rest rest₂ : Rect}
    {placements placements₂ : List Placement} (hposed : Poised moved members members₂ b b₂)
    (h : (layAll layout members edges b area).run.value = .ok (after, placements, rest))
    (h₂ : (layAll layout members₂ edges b₂ area).run.value = .ok (after₂, placements₂, rest₂)) :
    rest₂ = rest ∧
      (∀ f, f ∈ edges ∨ (b₂.get f).map Region.fixture = (b.get f).map Region.fixture →
        (after₂.get f).map Region.fixture = (after.get f).map Region.fixture) ∧
      ∀ p : Placement, ¬ Moves moved b p.id → (p ∈ placements₂ ↔ p ∈ placements) := by
  induction edges generalizing b b₂ area placements placements₂ with
  | nil =>
    cases h
    cases h₂
    exact ⟨rfl, fun f hf => hf.resolve_left List.not_mem_nil, fun _ _ => .rfl⟩
  | cons e edges ih =>
    have hfooting := hposed.footing e
    rcases layAll_cons_eq_ok h with ⟨hnone, hrest⟩ |
      ⟨r, m, hidden, laid, others, hr, hm, hlaid, hrest, rfl⟩
    · have hnone₂ : b₂.get e = none := by
        rwa [hnone, Option.map_none, Option.map_eq_none_iff] at hfooting
      rcases layAll_cons_eq_ok h₂ with ⟨-, hrest₂⟩ | ⟨r₂, _, _, _, _, hr₂, -⟩
      · obtain ⟨rfl, hfixture, hplacements⟩ := ih hposed hrest hrest₂
        refine ⟨rfl, fun f hf => hfixture f ?_, hplacements⟩
        by_cases hfe : f = e
        · exact .inr (by rw [hfe, hnone, hnone₂])
        · exact hf.imp_left fun hf => (List.mem_cons.1 hf).resolve_left hfe
      · rw [hnone₂] at hr₂
        cases hr₂
    · rcases layAll_cons_eq_ok h₂ with ⟨hnone₂, -⟩ |
        ⟨r₂, m₂, hidden₂, laid₂, others₂, hr₂, hm₂, hlaid₂, hrest₂, rfl⟩
      · rw [hnone₂, hr] at hfooting
        cases hfooting
      · obtain ⟨hleft, hdrawn, hplacement⟩ := hposed.layRegion hr hr₂ hm hm₂ hlaid hlaid₂
        obtain ⟨hbare, hid⟩ := layRegion_keeps hlaid
        obtain ⟨hbare₂, hid₂⟩ := layRegion_keeps hlaid₂
        rw [hleft] at hrest₂
        obtain ⟨rfl, hfixture, hplacements⟩ := ih (hposed.set hr hr₂ (Region.look_of_bare hbare)
          (Region.look_of_bare hbare₂)) hrest hrest₂
        have hmoves : Moves moved (b.set e (some laid.region)) = Moves moved b := by
          refine moves_congr fun f => ?_
          have hcomponent := congrArg (Option.map Region.component) (bare_set hr hbare f)
          rwa [Option.map_map, Option.map_map] at hcomponent
        rw [hmoves] at hplacements
        refine ⟨rfl, fun f hf => hfixture f ?_, fun p hp => ?_⟩
        · rw [Border.get_set, Border.get_set]
          by_cases hfe : f = e
          · rw [if_pos hfe, if_pos hfe]
            exact .inr (congrArg some hdrawn)
          · rw [if_neg hfe, if_neg hfe]
            exact hf.imp_left fun hf => (List.mem_cons.1 hf).resolve_left hfe
        · rw [List.mem_append, List.mem_append, hplacements p hp]
          refine or_congr_left ?_
          rcases hplacement with hsame | hmoved
          · rw [hsame]
          · -- what is placed of a region that has moved is its component
            rw [hr, hr₂, Option.map_some, Option.map_some, Option.some.injEq] at hfooting
            refine iff_of_false (fun h => hp ?_) fun h => hp ?_
            · rwa [hid₂ p (by simpa using h), (Region.footing_eq_iff.1 hfooting).1]
            · rwa [hid p (by simpa using h)]

/-- What is placed besides the regions that have moved, and what all regions take from others. -/
theorem place_footing {center : ComponentId} {content : Rect}
    {placements placements₂ : List Placement} (hposed : Poised moved members members₂ b b₂)
    (hcenter : (members₂ center).map Prod.fst = (members center).map Prod.fst)
    (h : (b.place layout members center content).run.value = .ok (after, placements))
    (h₂ : (b₂.place layout members₂ center content).run.value = .ok (after₂, placements₂)) :
    after₂.centerRect = after.centerRect ∧
      (∀ e, (after₂.get e).map Region.fixture = (after.get e).map Region.fixture) ∧
      ∀ p : Placement, ¬ Moves moved b p.id → (p ∈ placements₂ ↔ p ∈ placements) := by
  obtain ⟨laid, others, left, m, hidden, rect, hlaid, hm, hrect, rfl, rfl⟩ := place_eq_ok h
  obtain ⟨laid₂, others₂, left₂, m₂, hidden₂, rect₂, hlaid₂, hm₂, hrect₂, rfl, rfl⟩ :=
    place_eq_ok h₂
  obtain ⟨rfl, hfixture, hplacements⟩ := layAll_footing hposed hlaid hlaid₂
  rw [hm, hm₂] at hcenter
  cases hcenter
  obtain rfl := Except.ok.inj (hrect.symm.trans hrect₂)
  refine ⟨rfl, fun e => ?_, fun p hp => ?_⟩
  · rw [get_centerRect, get_centerRect]
    exact hfixture e (.inl e.mem_all)
  · rw [List.mem_append, List.mem_append, hplacements p hp]

/-- Every floating region has been placed beside its placeholder. -/
theorem place_floating {center : ComponentId} {content : Rect} {placements : List Placement}
    (h : (b.place layout members center content).run.value = .ok (after, placements))
    (hr : after.get e = some r) (hstate : r.state = .floating) :
    ∃ placeholder overlay, r.placeholder = some placeholder ∧ r.rect = some overlay ∧
      (⟨r.component, overlay⟩ : Placement) ∈ placements ∧ e.Beside placeholder overlay := by
  obtain ⟨laid, others, left, -, -, rect, hlaid, -, -, rfl, rfl⟩ := place_eq_ok h
  rw [get_centerRect] at hr
  obtain ⟨area, q, m, hidden, out, -, -, hout, rfl, hplaced⟩ :=
    (layAll_region (by decide) hlaid).2 e e.mem_all r hr
  have hbare := (layRegion_keeps hout).1
  obtain ⟨hcomponent, hstates, -⟩ := Region.look_eq_iff.1 (Region.look_of_bare hbare)
  rw [hstates] at hstate
  obtain ⟨strip, -, -, hfixture, hoverlay⟩ :=
    layRegion_folded (by rw [hstate]; nofun) hout
  obtain ⟨overlay, hbeside, hrect, hplacement⟩ := hoverlay hstate
  refine ⟨strip.rect, overlay, congrArg Prod.fst hfixture, hrect, ?_, hbeside⟩
  rw [hcomponent]
  exact List.mem_append_left _ (hplaced _ hplacement)

end Border

end Trellis
