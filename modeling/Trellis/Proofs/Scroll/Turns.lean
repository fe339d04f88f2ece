import Trellis.Proofs.Overflow.Turns
import Trellis.Proofs.Passes.Records
import Trellis.Proofs.Scroll.Lines

/-!
# A line that scrolls through its turns

Whatever happens to a line, its scroller stays sound: passes make it so, and so does scrolling. Any
pass that the line is laid out in shows the part of it that the scroller stands at, whether the pass
is over the line itself or over a container that it is in, and whether it was asked for or came of
scrolling.

* `Rolls`: the scroller is sound; `endures_rolls`: it remains so in all turns.
* `LineTurn.LaysOut`: the passes over a line in the course of a turn; `LaysOut.exists_pass`: what
  comes before such a pass, and after it.
* `scroller_reaches_content`: what any turns leave of the scroller, and every pass of the line.
-/
namespace Trellis

theorem Arrangement.fresh_scroll {layout : LayoutConfig} {axis : Axis}
    (hkind : layout.kind = axis.lineKind) (hhandler : layout.overflowHandler = some .scroll) :
    Arrangement.fresh layout = .linear ⟨axis, some (.scroll (.fresh layout.scrollerSize))⟩ := by
  unfold Arrangement.fresh
  rw [hkind, hhandler]
  cases axis <;> rfl

namespace Scene

variable {s₀ s s' t u : Scene} {c d : ComponentId} {layout : LayoutConfig} {axis : Axis}
  {viewport : Int} {x : Box.Scroll} {turn : LineTurn} {r : Except LayoutError Unit}

theorem Sturdy.congr (h : s.Sturdy c layout axis) (hshape : s.tree.SameShape t.tree)
    (hhost : t.host = s.host) : t.Sturdy c layout axis := by
  intro i hi settings hsettings
  rw [← hshape.children_eq] at hi
  rw [← hshape.config?_eq] at hsettings
  rw [hhost]
  exact h i hi settings hsettings

/-- The layouts of what is in the line make no difference. -/
theorem Scrolled.of_agree (h : s.Scrolled c layout axis viewport x)
    (hagree : s.Agree (s.tree.Near c) (· = c) t) : t.Scrolled c layout axis viewport x := by
  have hvisible := hagree.visibleChildren_eq
  have hspan : ∀ i ∈ s.tree.visibleChildren c,
      s.tree.outerSpan? layout axis i = t.tree.outerSpan? layout axis i := fun i hi =>
    hagree.tree.eq_at (g := fun o => o.map fun c : Component =>
      Box.outerSpan axis c.state.rect (c.config.marginSides layout)) (by rintro (_ | _) <;> rfl)
      (.inr (mem_children_of_visible hi))
  refine ⟨h.pos, hvisible ▸ h.shows, ?_, ?_⟩
  · rw [← hvisible]
    intro i hi
    rw [← hspan i (List.mem_of_mem_head? hi)]
    exact h.first i hi
  · rw [← hvisible]
    intro i hi
    rw [← hspan i (List.mem_of_mem_getLast? hi)]
    exact h.last i hi

/-- What is kept for the line is its scroller, and that is sound. -/
structure Rolls (c : ComponentId) (layout : LayoutConfig) (axis : Axis) (s : Scene) : Prop where
  layout_eq : s.tree.layout? c = some layout
  sound : ∀ a ∈ s.kept.get? c, ∃ x, a = .linear ⟨axis, some (.scroll x)⟩ ∧
    x.Sound layout.scrollerSize

namespace Rolls

theorem of_same (h : Rolls c layout axis s) (hlayout : t.tree.layout? c = s.tree.layout? c)
    (hkept : t.kept.get? c = s.kept.get? c) : Rolls c layout axis t :=
  ⟨hlayout.trans h.layout_eq, hkept ▸ h.sound⟩

section

variable (hkind : layout.kind = axis.lineKind) (hhandler : layout.overflowHandler = some .scroll)
  (hsize : 0 ≤ layout.scrollerSize)

include hkind hhandler in
/-- The scroller that a pass finds, or makes. -/
theorem arrangement (h : Rolls c layout axis s) :
    ∃ x, s.arrangement layout c = .linear ⟨axis, some (.scroll x)⟩ ∧
      x.Sound layout.scrollerSize := by
  cases hkept : s.kept.get? c with
  | none =>
    rw [arrangement_of_unused hkept, Arrangement.fresh_scroll hkind hhandler]
    exact ⟨_, rfl, Box.Scroll.sound_fresh _⟩
  | some a =>
    obtain ⟨x, rfl, hsound⟩ := h.sound a hkept
    have hsame : (Arrangement.linear ⟨axis, some (.scroll x)⟩).kind = layout.kind := by
      rw [hkind]
      cases axis <;> rfl
    exact ⟨x, arrangement_of_kept hkept hsame, hsound⟩

include hkind hhandler hsize

/-- The layout of the line. -/
theorem arranged {other : LayoutConfig} (h : Rolls c layout axis s)
    (hopens : s.Opens other c r t) :
    ∃ y target, s.host.targetSize (s.tree.renderChildren c) c = .ok target ∧
      t.kept.get? c = some (.linear ⟨axis, some (.scroll y)⟩) ∧ y.Sound layout.scrollerSize ∧
      (s.tree.Linked → s.Sturdy c layout axis → y.overflowing = true →
        t.Scrolled c layout axis
          (Box.Scroll.viewport layout.scrollerSize (layout.space axis target).innerLength) y) := by
  obtain rfl : other = layout := by
    have := h.layout_eq
    rw [Tree.layout?_of_layoutOf hopens.layout_eq] at this
    exact Option.some.inj this
  have hbegun := undisturbed_begun s other c
  obtain ⟨x, ha, hsound⟩ := h.arrangement hkind hhandler
  have hrun := hopens.arranged
  rw [ha] at hrun
  obtain ⟨-, target, _, _, _, _, _, _, hhandles⟩ := run_linear_of_handler rfl hrun
  obtain ⟨y, rfl, hy, hscrolled⟩ := hhandles.scrolled hsize hsound
  refine ⟨y, target, ?_, ?_, hy, fun hlinked hsturdy => ?_⟩
  · have htarget := hhandles.target_eq
    rw [hbegun.host] at htarget
    rw [← htarget, begun, ready, tree_told]
  · rw [hhandles.places.kept, reacted, IdMap.get?_insert, if_pos rfl]
  · exact hscrolled (hbegun.shape.linked hlinked) (hsturdy.congr hbegun.shape hbegun.host)

theorem lasting : Lasting (Rolls c layout axis) := by
  refine ⟨fun d e _ h => h.of_same (by rw [tree_told]) (by rw [kept_told]), ?_⟩
  intro s t other d r h hopens
  by_cases hd : d = c
  · subst hd
    obtain ⟨y, -, -, hkept, hy, -⟩ := h.arranged hkind hhandler hsize hopens
    refine ⟨by rw [← hopens.undisturbed.shape.layout?_eq, h.layout_eq], fun a ha => ?_⟩
    rw [hkept, Option.mem_some_iff] at ha
    exact ⟨y, ha.symm, hy⟩
  · refine h.of_same (by rw [hopens.undisturbed.shape.layout?_eq]) ?_
    rw [(Step.writesOnly_arrange other _ hopens.arranged).others c (Ne.symm hd), begun,
      (writes_ready _ other d).others c (Ne.symm hd), kept_told]

end

theorem scrolled {other : Axis} {handler : Box.Handler} (h : Rolls c layout axis s)
    (hkept : s.kept.get? d = some (.linear ⟨other, some handler⟩)) (delta : Int) :
    Rolls c layout axis (s.scrolled d other handler delta) := by
  by_cases hd : c = d
  · subst hd
    obtain ⟨x, heq, hsound⟩ := h.sound _ hkept
    cases heq
    refine ⟨h.layout_eq, fun a ha => ?_⟩
    rw [Scene.scrolled, IdMap.get?_insert, if_pos rfl, Option.mem_some_iff] at ha
    exact ⟨_, ha.symm, hsound.scrollTo _⟩
  · refine h.of_same rfl ?_
    rw [Scene.scrolled, IdMap.get?_insert, if_neg hd]

end Rolls

theorem endures_rolls (hkind : layout.kind = axis.lineKind)
    (hhandler : layout.overflowHandler = some .scroll) (hsize : 0 ≤ layout.scrollerSize)
    (c : ComponentId) : Endures c id layout (fun _ => True) (Rolls c layout axis) where
  lasting := Rolls.lasting hkind hhandler hsize
  settings h := by rw [h.layout_eq, Option.map_some, id]
  timers _ h := h.of_same rfl rfl
  host _ h := h.of_same rfl rfl
  tree hlayout h := h.of_same (by simpa [h.layout_eq] using hlayout) rfl
  scrolled delta hkept h := h.scrolled hkept delta

/-- A pass in whose course the line is laid out. -/
theorem Rolls.laidOut (hkind : layout.kind = axis.lineKind)
    (hhandler : layout.overflowHandler = some .scroll) (hsize : 0 ≤ layout.scrollerSize)
    (h : Rolls c layout axis s) (hforest : s.tree.Forest)
    (hrun : s.run (Step.pass d) = .ok (r, s')) (hbegins : s.Begins d u c)
    (hheard : u.vetoes c = false) :
    ∃ x target, u.host.targetSize (u.tree.renderChildren c) c = .ok target ∧
      s'.kept.get? c = some (.linear ⟨axis, some (.scroll x)⟩) ∧ x.Sound layout.scrollerSize ∧
      (s.Sturdy c layout axis → x.overflowing = true → s'.Scrolled c layout axis
        (Box.Scroll.viewport layout.scrollerSize (layout.space axis target).innerLength) x) := by
  obtain ⟨_, _, ⟨rfl, rfl⟩, hu⟩ := (lasting hkind hhandler hsize).meets h hbegins
  obtain ⟨_, _, ⟨rfl, rfl⟩, hsame⟩ := (lasting_undisturbed s).meets (.refl s) hbegins
  rw [run_pass] at hrun
  obtain ⟨r₁, laid, hopens, hagree⟩ :=
    hbegins.opened hforest (Tree.layoutOf_of_layout? hu.layout_eq) hheard hrun
  obtain ⟨y, target, htarget, hkept, hy, hscrolled⟩ := hu.arranged hkind hhandler hsize hopens
  refine ⟨y, target, htarget, (hagree.kept _ rfl).symm.trans hkept, hy, fun hsturdy hover => ?_⟩
  have hlinked := hsame.shape.linked hforest.toLinked
  exact (hscrolled hlinked (hsturdy.congr hsame.shape hsame.host) hover).of_agree hagree

end Scene

/-! ## Turns -/

/-- In the course of the turn, from `s`, the line of `c` is laid out, for the last time in a pass
over `c` that begins in `u`. The turn lays out a container that `c` is in, scrolls the line of one,
or serves the request of one. -/
def LineTurn.LaysOut (c : ComponentId) (s u : Scene) : LineTurn → Prop
  | .other (.layout d) => (s.relieved d).Begins d u c
  | .scroll d delta => ∃ axis handler, s.kept.get? d = some (.linear ⟨axis, some handler⟩) ∧
      (handler.scrollBy delta).offset ≠ handler.offset ∧
      ((s.scrolled d axis handler delta).relieved d).Begins d u c
  | .serve call => ∃ front d back mid, call.due s = front ++ d :: back ∧
      (call.taken s).run (front.forM Step.pass) = .ok (.ok (), mid) ∧ mid.Begins d u c ∧
      ¬ s.tree.Within back c
  | _ => False

/-- What a turn does before the pass in which it lays the line out, and after it. -/
theorem LineTurn.LaysOut.exists_pass {c : ComponentId} {s s' u : Scene} {turn : LineTurn}
    {r : Except LayoutError Unit} (hforest : s.tree.Forest) (h : turn.LaysOut c s u)
    (hrun : s.run turn.step = .ok (r, s')) :
    ∃ t t' d r₁, s.tree.SameShape t.tree ∧ t.host = s.host ∧
      (∀ {α : Type} {f : LayoutConfig → α} {v : α} {H : Host → Prop} {P : Scene → Prop},
        Scene.Endures c f v H P → P s → P t) ∧
      t.run (Step.pass d) = .ok (r₁, t') ∧ t.Begins d u c ∧
      t'.Agree (t'.tree.Near c) (· = c) s' := by
  cases turn with
  | other turn =>
    cases turn with
    | layout d =>
      exact ⟨s.relieved d, s', d, r, .refl s.tree, rfl, fun hP hs => hP.timers _ hs, hrun, h,
        .refl _ _ s'⟩
    | _ => exact h.elim
  | scroll d delta =>
    obtain ⟨axis, handler, hkept, hmoves, hbegins⟩ := h
    obtain ⟨_, hscroll, -⟩ := Scene.run_void_eq_ok hrun
    rcases Scene.run_scrollBy_cases hscroll with ⟨hnone, -⟩ | ⟨axis', handler', hkept', hends⟩
    · exact absurd hkept (hnone axis handler)
    · rw [hkept] at hkept'
      cases hkept'
      rcases hends with ⟨hstays, -⟩ | ⟨-, r₁, hlayout⟩
      · exact absurd hstays hmoves
      · exact ⟨(s.scrolled d axis handler delta).relieved d, s', d, r₁, .refl s.tree, rfl,
          fun hP hs => hP.timers _ (hP.scrolled delta hkept hs), hlayout, hbegins, .refl _ _ s'⟩
  | serve call =>
    obtain ⟨front, d, back, mid, hdue, hfront, hbegins, hback⟩ := h
    obtain ⟨_, hserve, -⟩ := Scene.run_void_eq_ok hrun
    obtain ⟨r', hpasses, -⟩ := ServeCall.run_step_eq_ok.1 hserve
    rw [hdue, Scene.run_forM_append, hfront, Length.ok_bind] at hpasses
    have hmid := Scene.undisturbed_passes hfront
    have hP : ∀ {α : Type} {f : LayoutConfig → α} {v : α} {H : Host → Prop} {P : Scene → Prop},
        Scene.Endures c f v H P → P s → P mid := fun hP hs =>
      hP.lasting.passes (hP.timers _ hs) hfront
    rcases Scene.run_forM_cons_eq_ok hpasses with ⟨e, hpass, -⟩ | ⟨last, hpass, hrest⟩
    · exact ⟨mid, s', d, _, hmid.shape, hmid.host, hP, hpass, hbegins, .refl _ _ s'⟩
    · have hshape : s.tree.SameShape last.tree :=
        hmid.shape.trans (Scene.undisturbed_pass hpass).shape
      have hlast : last.tree.Forest := hshape.forest hforest
      refine ⟨mid, last, d, _, hmid.shape, hmid.host, hP, hpass, hbegins, ?_⟩
      refine (Scene.staysInside_passes hlast hrest).agree_near hlast
        (Scene.undisturbed_passes hrest) fun ⟨z, hz, hin⟩ => hback ⟨z, hz, ?_⟩
      rw [hshape.inside_eq]
      exact hin

/-- Scrolling reaches exactly the content. In `s₀`, the container `c` lines its children up along
the axis, with a scroller, and has not been laid out yet. Then any containers are laid out, lines
are scrolled, requests are served, components come, move and go, and sizes and hosts change, while
the settings of `c` stay as they are. The scroller of `c` stands between zero and its extent, and
both are zero unless the line overflows. When the line is laid out next, in the course of a layout
or of scrolling, and overflows, the extent is positive, the first child begins at the end of the
first button less the position, and the last one ends behind the viewport by what the position lacks
of the extent. -/
theorem scroller_reaches_content {s₀ s : Scene} {c : ComponentId} {layout : LayoutConfig}
    {axis : Axis} {turns : List LineTurn} (hlayout : s₀.tree.layout? c = some layout)
    (hkind : layout.kind = axis.lineKind) (hhandler : layout.overflowHandler = some .scroll)
    (hsize : 0 ≤ layout.scrollerSize) (hfresh : s₀.kept.get? c = none)
    (hkeeps : ∀ settings, .other (.configure c settings) ∈ turns → settings = some layout)
    (hturns : s₀.after (turns.map LineTurn.step) = .ok s) :
    (∀ a ∈ s.kept.get? c, ∃ x, a = .linear ⟨axis, some (.scroll x)⟩ ∧
      x.Sound layout.scrollerSize) ∧
    ∀ (turn : LineTurn) (r : Except LayoutError Unit) (s' u : Scene),
      s.run turn.step = .ok (r, s') → turn.LaysOut c s u → u.vetoes c = false →
      s.tree.Forest → s.Sturdy c layout axis →
      ∃ x target, u.host.targetSize (u.tree.renderChildren c) c = .ok target ∧
        s'.kept.get? c = some (.linear ⟨axis, some (.scroll x)⟩) ∧ x.Sound layout.scrollerSize ∧
        (x.overflowing = true → s'.Scrolled c layout axis
          (Box.Scroll.viewport layout.scrollerSize (layout.space axis target).innerLength) x) := by
  have hrolls : Scene.Rolls c layout axis s := by
    refine Scene.after_preserves (fun x hx s s' r h hrun => ?_) ⟨hlayout, ?_⟩ hturns
    · obtain ⟨turn, hturn, rfl⟩ := List.mem_map.1 hx
      refine (Scene.endures_rolls hkind hhandler hsize c).step (fun _ _ => trivial)
        (fun settings heq => ?_) h hrun
      rw [hkeeps settings (heq ▸ hturn), Option.map_some, id]
    · rw [hfresh]
      exact fun _ ha => nomatch ha
  refine ⟨hrolls.sound, fun turn r s' u hrun hlaysOut hheard hforest hsturdy => ?_⟩
  obtain ⟨t, t', d, r₁, hshape, hhost, hendures, hpass, hbegins, hagree⟩ :=
    hlaysOut.exists_pass hforest hrun
  have ht := hendures (Scene.endures_rolls hkind hhandler hsize c) hrolls
  obtain ⟨x, target, htarget, hkept, hx, hscrolled⟩ :=
    ht.laidOut hkind hhandler hsize (hshape.forest hforest) hpass hbegins hheard
  exact ⟨x, target, htarget, (hagree.kept c rfl).symm.trans hkept, hx, fun hover =>
    (hscrolled (hsturdy.congr hshape hhost) hover).of_agree hagree⟩

section

private def stripLayout : LayoutConfig :=
  { kind := .hbox, overflowHandler := some .scroll, scrollerSize := 20 }

private def photo : ItemConfig := { width := some 100, height := some 10 }

/-- Three photos in a strip that is 200 long. -/
private def photoStrip : Scene :=
  .ofTree ((Tree.ofDescription (.node { layout := some stripLayout }
    [.node photo [], .node photo [], .node photo []])).applyRect 0 ⟨0, 0, 200, 30⟩) .standard

private theorem sturdy_photoStrip : photoStrip.Sturdy 0 stripLayout .horizontal := by
  have hsettings : ∀ i ∈ [1, 2, 3], photoStrip.tree.config? i = some photo := by
    intro i hi
    simp only [List.mem_cons, List.not_mem_nil, or_false] at hi
    rcases hi with rfl | rfl | rfl <;> rfl
  have hphoto : (Member.request stripLayout ⟨0, photo, photo.contentSize⟩).value.Sturdy
      .horizontal :=
    ⟨by decide +kernel, fun hflexed => nomatch (Bool.and_eq_true_iff.1 hflexed).2⟩
  intro i hi settings heq
  rw [show photoStrip.tree.children 0 = [1, 2, 3] by decide +kernel] at hi
  rw [hsettings i hi] at heq
  cases heq
  exact hphoto

/-- What is kept for the strip. -/
private def keptLine (s : Scene) : Option Linear :=
  match s.kept.get? 0 with
  | some (.linear l) => some l
  | _ => none

private theorem kept_of_keptLine {s : Scene} {l : Linear} (h : keptLine s = some l) :
    s.kept.get? 0 = some (.linear l) := by
  unfold keptLine at h
  split at h
  · next hkept =>
    cases h
    exact hkept
  · cases h

private theorem strip_of_after {s₀ s : Scene} (h : s₀.after [Step.layout 0] = .ok s)
    (hforest : s₀.tree.Forest) (hsturdy : s₀.Sturdy 0 stripLayout .horizontal) :
    s.tree.Forest ∧ s.Sturdy 0 stripLayout .horizontal := by
  obtain ⟨⟨_, mid⟩, hrun, hrest⟩ := Length.bind_eq_ok.1 h
  cases hrest
  rw [Scene.run_layout] at hrun
  have hsame := Scene.undisturbed_pass hrun
  exact ⟨hsame.shape.forest hforest, hsturdy.congr hsame.shape hsame.host⟩

/-- The strip is laid out and then scrolled by 50: in a viewport of 160, which begins at 20, the
first photo begins at -30 and the last one ends at 270. -/
theorem photo_strip_scrolls :
    ∃ s s' r, photoStrip.after [Step.layout 0] = .ok s ∧
      s.run (LineTurn.step (.scroll 0 50)) = .ok (r, s') ∧
      s'.kept.get? 0 = some (.linear ⟨.horizontal, some (.scroll ⟨20, 50, 140, true⟩)⟩) ∧
      s'.Scrolled 0 stripLayout .horizontal 160 ⟨20, 50, 140, true⟩ ∧
      s'.tree.rects.map Rect.x = [0, -30, 70, 170] := by
  obtain ⟨s, r, s', hs, hrun, hview⟩ := Scene.runs_of_viewLast
    (show photoStrip.viewLast [Step.layout 0] (LineTurn.step (.scroll 0 50)) (fun s _ s' =>
        (keptLine s, s.vetoes 0, (s.host.targetSize (s.tree.renderChildren 0) 0).toOption,
          keptLine s', s'.tree.rects.map Rect.x)) =
      some (some ⟨.horizontal, some (.scroll ⟨20, 0, 140, true⟩)⟩, false, some ⟨200, 30⟩,
        some ⟨.horizontal, some (.scroll ⟨20, 50, 140, true⟩)⟩, [0, -30, 70, 170])
      by decide +kernel)
  simp only [Prod.mk.injEq] at hview
  obtain ⟨hbefore, hheard, hsize, hafter, hrects⟩ := hview
  have hkept := kept_of_keptLine hafter
  have hforest : photoStrip.tree.Forest :=
    (Tree.sameShape_applyRect _ 0 _).forest (Tree.nested_ofDescription _).forest
  obtain ⟨hforest, hsturdy⟩ := strip_of_after hs hforest sturdy_photoStrip
  obtain ⟨-, hpasses⟩ := @scroller_reaches_content photoStrip s 0 stripLayout .horizontal
    [.other (.layout 0)] rfl rfl rfl (by decide) rfl (by simp) hs
  have hlays : (LineTurn.scroll 0 50).LaysOut 0 s
      ((s.scrolled 0 .horizontal (.scroll ⟨20, 0, 140, true⟩) 50).relieved 0) :=
    ⟨.horizontal, _, kept_of_keptLine hbefore, by decide, .self ⟨rfl, rfl⟩ _⟩
  obtain ⟨x, target, htarget, hx, -, hscrolled⟩ :=
    hpasses _ r s' _ hrun hlays hheard hforest hsturdy
  have htarget : s.host.targetSize (s.tree.renderChildren 0) 0 = .ok target := htarget
  rw [htarget] at hsize
  cases hsize
  rw [hkept] at hx
  cases hx
  exact ⟨s, s', r, hs, hrun, hkept, hscrolled rfl, hrects⟩

end

end Trellis
