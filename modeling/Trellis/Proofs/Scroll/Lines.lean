import Trellis.Proofs.Box.Narrowness
import Trellis.Proofs.Menu.Lines

/-!
# A line that scrolls

A scroller works out how far it can go from the line in all of the space: from what the children
cannot do without, and from the viewport that its two buttons leave. The children that are moved are
those of another line, which is laid out between the buttons. Both are too narrow, so that every
child has its floor in either of them, and the second one is exactly as long as the first one said.

* `Scroll.Sound`: a scroller stands within its extent, and at rest unless the line overflows.
* `Scroll.react_eq_ok`: it stays sound, and what it overflows by.
* `Scene.Scrolled`: where the line begins and ends; `Handles.scrolled`: one pass over it.
-/
namespace Trellis

namespace Box

/-- The child asks for no negative length, and has a lower bound if it shares leftover space. -/
structure Request.Sturdy {ω : Type} [Weight ω] (r : Request ω) (a : Axis) : Prop extends
    r.Nonneg where
  bounded : r.isFlexed a = true → (r.mainBounds a).least? ≠ none

theorem Request.Sturdy.overhang_eq {ω : Type} [Weight ω] {r : Request ω} {a : Axis}
    (h : r.Sturdy a) : r.overhang a = 0 :=
  overhang_eq_zero_iff.2 fun hflexed hnone => absurd hnone (h.bounded hflexed)

/-- A line of sturdy children that is too narrow takes their floors, wherever it is packed. -/
theorem abut_floors {ω : Type} [Weight ω] {items : List ComponentId} {boxes : List (Request ω)}
    {space : Space} {l : Line ω} (hsturdy : ∀ r ∈ boxes, r.Sturdy space.axis)
    (hl : Line.solve items boxes space = .ok l)
    (hnarrow : space.innerLength < floors space.axis boxes) :
    l.solution.rects.length = boxes.length ∧
      Abut (space.axis.mainStart space.padding) (outerSpans space.axis l.solution.rects boxes)
        (space.axis.mainStart space.padding + floors space.axis boxes) := by
  obtain ⟨hminimum, htooNarrow⟩ := Line.measures hl
  rw [decide_eq_true hnarrow] at htooNarrow
  obtain ⟨solution, hsolution, hl⟩ := Length.bind_eq_ok.1 hl
  cases hl
  have hne : boxes ≠ [] := by
    rintro rfl
    have := space.innerLength_nonneg
    rw [floors_nil] at hnarrow
    omega
  obtain ⟨_, _, -, -, hmains, -⟩ := mains_of_solve hne hsolution
  have hlength := length_mains hmains
  rw [List.length_map] at hlength
  have habut := abut_of_narrow (fun r hr => (hsturdy r hr).toNonneg) hsolution htooNarrow
  have hover : (boxes.map fun r => r.overhang space.axis).sum = 0 :=
    List.sum_eq_zero fun n hn => by
      obtain ⟨r, hr, rfl⟩ := List.mem_map.1 hn
      exact (hsturdy r hr).overhang_eq
  rw [hover, Int.add_zero, show solution.summary.minimumMain = _ from hminimum] at habut
  exact ⟨hlength, habut⟩

/-! ## Scrollers -/

namespace Scroll

variable {x : Scroll} {size : Int}

/-- The scroller stands within its extent, and at rest unless the line overflows. -/
structure Sound (size : Int) (x : Scroll) : Prop where
  scrollerSize_eq : x.scrollerSize = size
  nonneg : 0 ≤ x.position
  le_extent : x.position ≤ x.extent
  rest : x.overflowing = false → x.position = 0 ∧ x.extent = 0

/-- The main length that the two buttons leave of `inner`. -/
def viewport (size inner : Int) : Int := max (inner - 2 * size) 0

theorem sound_fresh (size : Int) : Sound size (fresh size) :=
  ⟨rfl, Int.le_refl 0, Int.le_refl 0, fun _ => ⟨rfl, rfl⟩⟩

theorem Sound.scrollTo (h : x.Sound size) (position : Int) : (x.scrollTo position).Sound size := by
  obtain ⟨hnonneg, hle⟩ := x.scrollTo_offset_mem position (Int.le_trans h.nonneg h.le_extent)
  refine ⟨h.scrollerSize_eq, hnonneg, hle, fun hrest => ?_⟩
  obtain ⟨-, hextent⟩ := h.rest hrest
  exact ⟨Int.le_antisymm (hextent ▸ hle) hnonneg, hextent⟩

variable {ω : Type} [Weight ω] {items : List ComponentId} {boxes : List (Request ω)}
  {space : Space} {l : Line ω} {n : Handler} {o : Outcome}

/-- A scroller stays sound. If the line overflows then, it is too narrow, and the extent is what it
exceeds the viewport by. -/
theorem react_eq_ok (hsound : x.Sound size) (hsize : 0 ≤ size)
    (hl : Line.solve items boxes space = .ok l) (h : (Handler.scroll x).react l = .ok (n, o)) :
    ∃ y, n = .scroll y ∧ y.Sound size ∧ (y.overflowing = true →
      space.innerLength < floors space.axis boxes ∧
        y.extent = floors space.axis boxes - viewport size space.innerLength) := by
  obtain ⟨hminimum, htooNarrow⟩ := Line.measures hl
  have hspace : l.space = space := by
    obtain ⟨_, -, hl⟩ := Length.bind_eq_ok.1 hl
    cases hl
    rfl
  unfold Handler.react at h
  rw [htooNarrow] at h
  split at h
  · next hnarrow =>
    have hnarrow := of_decide_eq_true hnarrow
    obtain ⟨⟨y, _⟩, hhandle, h⟩ := Length.map_eq_ok.1 h
    cases h
    simp only [Scroll.handle, hspace, hminimum, hsound.scrollerSize_eq, Length.bind_eq_ok]
      at hhandle
    obtain ⟨inner, hinner, buttons, hbuttons, free, hfree, most, hmost, hhandle⟩ := hhandle
    cases hhandle
    obtain rfl := Space.innerMain_eq_ok hinner
    have hbuttons := (Length.mul_eq_ok.1 hbuttons).1
    have hfree := (Length.sub_eq_ok.1 hfree).1
    have hmost := (Length.sub_eq_ok.1 hmost).1
    have hinner_nonneg := space.innerLength_nonneg
    refine ⟨_, rfl, ⟨rfl, ?_, ?_, fun hrest => absurd hrest (by simp)⟩,
      fun _ => ⟨hnarrow, ?_⟩⟩ <;> simp only [clampTo, viewport] <;> omega
  · cases h
    refine ⟨_, rfl, ?_, ?_⟩ <;> unfold clear
    · split
      · rw [hsound.scrollerSize_eq]
        exact sound_fresh size
      · exact hsound
    · intro hover
      split at hover
      · cases hover
      · next hrest => exact absurd hover hrest

end Scroll

end Box

/-! ## Moving a line -/

theorem Lines.outerSpan_shift {axis : Axis} {distance : Int} {rect moved : Rect}
    (h : Lines.shift axis distance rect = .ok moved) (margins : Sides) :
    Box.outerSpan axis moved margins = ((Box.outerSpan axis rect margins).1 + distance,
      (Box.outerSpan axis rect margins).2 + distance) := by
  have hsize := Lines.shift_rect_size h
  have hpos : axis.mainPos moved = axis.mainPos rect + distance := by
    cases axis <;>
    · obtain ⟨_, hsum, h⟩ := Length.bind_eq_ok.1 h
      cases h
      exact (Length.add_eq_ok.1 hsum).1
  simp only [Box.outerSpan, hsize, hpos, Prod.mk.injEq]
  omega

/-- Where the margin box of a component begins and ends on the axis, as a child of a container with
this layout. -/
def Tree.outerSpan? (t : Tree) (layout : LayoutConfig) (axis : Axis) (i : ComponentId) :
    Option (Int × Int) :=
  (t.get? i).map fun c => Box.outerSpan axis c.state.rect (c.config.marginSides layout)

namespace Scene

variable {s s' t : Scene} {layout : LayoutConfig} {container : ComponentId} {axis : Axis}
  {members : List Member}

/-- The margin boxes of a line whose rectangles are moved. -/
theorem outerSpans_of_place {u : Tree} {rects : List Rect} {distance : Int}
    {placements : List Placement} (hconfig : ∀ m ∈ members, u.config? m.id = some m.config)
    (hlength : rects.length = members.length)
    (hplace : ((members.map Member.id).zip rects).mapM (fun (id, rect) =>
      (do return ⟨id, ← Lines.shift axis distance rect⟩ : Checked Placement)) = .ok placements)
    (hshows : u.Shows placements) :
    (members.map fun m => u.outerSpan? layout axis m.id) =
      (Box.outerSpans axis rects (members.map fun m => (m.request layout).value)).map fun span =>
        some (span.1 + distance, span.2 + distance) := by
  induction members generalizing rects placements with
  | nil =>
    rw [List.map_nil, Box.outerSpans, List.map_nil, List.zip_nil_right]
    rfl
  | cons m members ih =>
    cases rects with
    | nil => cases hlength
    | cons rect rects =>
      obtain ⟨placement, others, hfirst, hothers, rfl⟩ := Length.mapM_cons_eq_ok.1 hplace
      obtain ⟨moved, hmoved, hfirst⟩ := Length.bind_eq_ok.1 hfirst
      cases hfirst
      obtain ⟨c, hc, hown⟩ := Option.map_eq_some_iff.1 (hconfig m (by simp))
      have hrect := (hshows _ (.head _) c hc).2
      have hspan : u.outerSpan? layout axis m.id =
          some (Box.outerSpan axis moved (m.request layout).value.margins) := by
        rw [Tree.outerSpan?, hc, Option.map_some, hrect, hown]
        rfl
      rw [List.map_cons, hspan, Lines.outerSpan_shift hmoved]
      refine congrArg _ (ih (fun m hm => hconfig m (by simp [hm])) ?_ hothers fun p hp => ?_)
      · simpa using hlength
      · exact hshows p (by simp [hp])

/-! ## Passes -/

/-- All children of the container are sturdy. -/
def Sturdy (s : Scene) (container : ComponentId) (layout : LayoutConfig) (axis : Axis) : Prop :=
  ∀ i ∈ s.tree.children container, ∀ c, s.tree.config? i = some c →
    (Member.request layout ⟨i, c, s.host.measure i c⟩).value.Sturdy axis

/-- The line overflows the viewport of its scroller by the extent. It begins as far before the end
of the first button, and ends as far behind the end of the viewport, as the scroller stands from the
two ends of its extent. -/
structure Scrolled (s : Scene) (container : ComponentId) (layout : LayoutConfig) (axis : Axis)
    (viewport : Int) (x : Box.Scroll) : Prop where
  pos : 0 < x.extent
  shows : s.tree.visibleChildren container ≠ []
  first : ∀ i ∈ (s.tree.visibleChildren container).head?,
    (s.tree.outerSpan? layout axis i).map Prod.fst =
      some (axis.mainStart layout.paddingSides + layout.scrollerSize - x.position)
  last : ∀ i ∈ (s.tree.visibleChildren container).getLast?,
    (s.tree.outerSpan? layout axis i).map Prod.snd =
      some (axis.mainStart layout.paddingSides + layout.scrollerSize + viewport +
        (x.extent - x.position))

/-- The children of a line whose margin boxes stand side by side. -/
theorem ends_of_abut {ids : List ComponentId} {u : Tree} {start finish : Int}
    {spans : List (Int × Int)} (h : Box.Abut start spans finish)
    (hids : ids.map (u.outerSpan? layout axis) = spans.map some) :
    (∀ i ∈ ids.head?, (u.outerSpan? layout axis i).map Prod.fst = some start) ∧
      ∀ i ∈ ids.getLast?, (u.outerSpan? layout axis i).map Prod.snd = some finish := by
  refine ⟨fun i hi => ?_, fun i hi => ?_⟩
  · have hhead := congrArg List.head? hids
    rw [List.head?_map, List.head?_map, Option.mem_def.1 hi, Option.map_some] at hhead
    obtain ⟨span, hspan, heq⟩ := Option.map_eq_some_iff.1 hhead.symm
    rw [← heq, Option.map_some, h.fst_head hspan]
  · have hlast := congrArg List.getLast? hids
    rw [List.getLast?_map, List.getLast?_map, Option.mem_def.1 hi, Option.map_some] at hlast
    obtain ⟨span, hspan, heq⟩ := Option.map_eq_some_iff.1 hlast.symm
    rw [← heq, Option.map_some, h.snd_getLast hspan]

section

variable {x y : Box.Scroll} {target : Size} {first final : Box.Line Float} {next : Box.Handler}
  {outcome : Box.Outcome} {offset : Int} {placements : List Placement}

/-- The line that is moved is laid out in the viewport. -/
theorem Handles.final_scroll (hsize : 0 ≤ layout.scrollerSize)
    (h : Handles layout container ⟨axis, some (.scroll x)⟩ (.scroll x) s s' target first (.scroll y)
      outcome offset final placements)
    (hsound : y.Sound layout.scrollerSize) (hover : y.overflowing = true) :
    offset = layout.scrollerSize - y.position ∧
      ∃ available, s.line layout axis container available = .ok final ∧
        (layout.space axis available).innerLength =
          Box.Scroll.viewport layout.scrollerSize (layout.space axis target).innerLength := by
  have hreserved :
      (Box.Handler.scroll y).reserved = ⟨layout.scrollerSize, layout.scrollerSize⟩ := by
    rw [Box.Handler.reserved, Box.Scroll.reserved, if_pos hover, hsound.scrollerSize_eq]
  have hoffset := h.offset_eq
  have hfinal := h.final_eq
  rw [hreserved] at hoffset hfinal
  refine ⟨(Length.sub_eq_ok.1 hoffset).1, ?_⟩
  -- a scroller hides and shows nothing
  obtain ⟨hhide, hreveal, -⟩ := Box.Handler.outcome_scroll h.react_eq
  have hsame : (s.reacted container ⟨axis, some (.scroll x)⟩ (.scroll y) outcome).line layout axis
      container = s.line layout axis container := by
    funext available
    unfold line members member reacted Lines.reveal
    rw [hhide, hreveal]
    rfl
  have hinner := (layout.space axis target).innerLength_nonneg
  unfold finalLine at hfinal
  rw [hsame] at hfinal
  split at hfinal
  · obtain ⟨rest, hrest, hfinal⟩ := Length.bind_eq_ok.1 hfinal
    refine ⟨rest, hfinal, ?_⟩
    rw [innerLength_remaining hrest (Int.add_nonneg hsize hsize), Box.Scroll.viewport, Int.two_mul]
  · next honce =>
    cases hfinal
    refine ⟨target, h.first_eq, ?_⟩
    have hnone : layout.scrollerSize = 0 := by
      simp only [Bool.or_eq_true, decide_eq_true_eq, not_or, ne_eq, Decidable.not_not] at honce
      exact congrArg Box.Reserved.leading honce.2
    rw [Box.Scroll.viewport, hnone]
    omega

/-- A handler that hides and shows nothing leaves the last line in the tree, moved by the offset. -/
theorem Handles.outerSpans_eq {handler : Box.Handler} {l : Linear} (hlinked : s.tree.Linked)
    (h : Handles layout container l handler s s' target first next outcome offset final placements)
    (hhide : outcome.hide = []) (hreveal : outcome.reveal = [])
    (hmembers : s.members container = .ok members)
    (hitems : final.items = s.tree.visibleChildren container)
    (hlength : final.solution.rects.length = members.length) :
    s'.tree.visibleChildren container = s.tree.visibleChildren container ∧
      (s'.tree.visibleChildren container).map (s'.tree.outerSpan? layout final.space.axis) =
        ((Box.outerSpans final.space.axis final.solution.rects
          (members.map fun m => (m.request layout).value)).map fun span =>
            (span.1 + offset, span.2 + offset)).map some := by
  have hids := ids_members hmembers
  have htree : s'.tree = s.tree.applyPlacements placements := by
    rw [h.places.tree]
    unfold reacted Lines.reveal
    rw [hhide, hreveal]
    rfl
  have hvisible : s'.tree.visibleChildren container = s.tree.visibleChildren container := by
    unfold Tree.visibleChildren
    rw [htree, Tree.isVisible_applyPlacements,
      ← (Tree.sameShape_applyPlacements s.tree placements).children_eq]
  have hnodup := (ids_place h.place_eq).nodup (hitems ▸ hlinked.nodup_visibleChildren container)
  have hplace := h.place_eq
  rw [Lines.place, hitems, ← hids] at hplace
  refine ⟨hvisible, ?_⟩
  rw [hvisible, ← hids, List.map_map, List.map_map]
  refine outerSpans_of_place (fun m hm => ?_) hlength hplace ?_
  · rw [htree, Tree.config?_applyPlacements]
    exact (eq_of_mem_members hmembers hm).2.1
  · exact htree ▸ Tree.shows_applyPlacements hnodup s.tree

theorem Sturdy.requests (h : s.Sturdy container layout axis)
    (hmembers : s.members container = .ok members) :
    ∀ r ∈ members.map fun m => (m.request layout).value, r.Sturdy axis := by
  intro r hr
  obtain ⟨m, hm, rfl⟩ := List.mem_map.1 hr
  obtain ⟨hvisible, hconfig, hmeasured⟩ := eq_of_mem_members hmembers hm
  have hsturdy := h m.id (mem_children_of_visible hvisible) m.config hconfig
  rwa [← hmeasured] at hsturdy

/-- A pass over a line with a scroller. -/
theorem Handles.scrolled (hsize : 0 ≤ layout.scrollerSize) (hsound : x.Sound layout.scrollerSize)
    (h : Handles layout container ⟨axis, some (.scroll x)⟩ (.scroll x) s s' target first next
      outcome offset final placements) :
    ∃ y, next = .scroll y ∧ y.Sound layout.scrollerSize ∧ (s.tree.Linked →
      s.Sturdy container layout axis → y.overflowing = true → s'.Scrolled container layout axis
        (Box.Scroll.viewport layout.scrollerSize (layout.space axis target).innerLength) y) := by
  obtain ⟨members, hmembers, hsolve, -⟩ := line_eq_ok h.first_eq
  obtain ⟨y, rfl, hy, hoverflows⟩ := Box.Scroll.react_eq_ok hsound hsize hsolve h.react_eq
  refine ⟨y, rfl, hy, fun hlinked hsturdy hover => ?_⟩
  have hrequests := hsturdy.requests hmembers
  obtain ⟨hshort, hextent⟩ := hoverflows hover
  obtain ⟨rfl, available, hline, hinner⟩ := h.final_scroll hsize hy hover
  obtain ⟨members', hmembers', hfinal, hitems⟩ := line_eq_ok hline
  rw [hmembers] at hmembers'
  cases hmembers'
  obtain ⟨hhide, hreveal, -⟩ := Box.Handler.outcome_scroll h.react_eq
  have hspans := h.outerSpans_eq hlinked hhide hreveal hmembers hitems
  have haxis : final.space.axis = axis := by
    obtain ⟨_, -, hsolved⟩ := Length.bind_eq_ok.1 hfinal
    cases hsolved
    rfl
  rw [haxis] at hspans
  generalize hboxes : (members.map fun m => (m.request layout).value) = boxes at *
  -- the second line is too narrow as well, and as long as the first one needs
  have hshort : (layout.space axis target).innerLength < Box.floors axis boxes := hshort
  have hextent : y.extent = Box.floors axis boxes -
      Box.Scroll.viewport layout.scrollerSize (layout.space axis target).innerLength := hextent
  have hnonneg := (layout.space axis target).innerLength_nonneg
  have hnarrow : (layout.space axis available).innerLength < Box.floors axis boxes := by
    rw [hinner, Box.Scroll.viewport]
    omega
  obtain ⟨hlength, habut⟩ := Box.abut_floors hrequests hfinal hnarrow
  obtain ⟨hvisible, hspans⟩ := hspans (by rw [hlength, ← hboxes, List.length_map])
  obtain ⟨hfirst, hlast⟩ := ends_of_abut (habut.shift (layout.scrollerSize - y.position)) hspans
  rw [hinner] at hnarrow
  refine ⟨by omega, fun hnone => ?_, fun i hi => ?_, fun i hi => ?_⟩
  · rw [hvisible, ← ids_members hmembers, List.map_eq_nil_iff] at hnone
    rw [← hboxes, hnone, List.map_nil, Box.floors_nil] at hshort
    omega
  · rw [hfirst i hi, Option.some.injEq]
    exact (Int.add_sub_assoc ..).symm
  · rw [hlast i hi, Option.some.injEq, hextent]
    show axis.mainStart layout.paddingSides + Box.floors axis boxes + _ = _
    omega

end

end Scene

end Trellis
