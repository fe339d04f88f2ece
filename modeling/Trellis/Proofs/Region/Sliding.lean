import Trellis.Proofs.Border.Footing
import Trellis.Proofs.Region.Geometry

/-!
# Sliding regions out and in

A collapsed region that slides out floats over the center, and goes back to its placeholder when it
slides in or when there is a click beside it. The pass that follows draws everything else where it
was.

* `Standing`: a border container that is laid out, with a region for every child; calls, clicks and
  passes leave it so (`standing_of_turns`).
* `Slid`: what is left as it was when some regions slide; `slid_changed`: one region slides;
  `slid_of_slidesIn`: several slide in, one after another.
* `Unmoved`: everything else is where it was; `unmoved_of_slid`.
* `sliding_moves_nothing_else`: slides move nothing else, whatever happened before.
-/
namespace Trellis

/-- What may happen to the regions of a border container that keeps its children. -/
inductive PaneTurn where
  | turn (turn : BorderTurn)
  | click

def PaneTurn.step (c : ComponentId) : PaneTurn → Step Unit
  | .turn t => t.step c
  | .click => do let _ ← Step.outsideClick c

/-- The ways in which regions slide. -/
inductive Slide where
  | out (name : RegionName)
  | back (name : RegionName)
  /-- A click beside the floating regions. -/
  | click

def Slide.step (c : ComponentId) : Slide → Step Unit
  | .out name => Step.slideOut c name
  | .back name => Step.slideIn c name
  | .click => do let _ ← Step.outsideClick c

/-- What slides is not expanded before or after, and is shown or hidden. -/
theorem Region.Changes.slides {config : Option ItemConfig} {bounds : Option SplitBounds}
    {r r' : Region} {call : RegionCall} {shows lays : Bool}
    (h : r.Changes config bounds call r' shows lays)
    (hcall : call = .slideOut call.region ∨ call = .slideIn call.region) :
    r'.footing = r.footing ∧ r.state ≠ .expanded ∧ shows = true := by
  cases h with
  | slideOut allowed =>
    have hstate : r.state = .collapsed := by simp_all [Region.canSlideOut]
    simp [Region.footing, hstate]
  | slideIn allowed =>
    have hstate : r.state = .floating := by simp_all [Region.canSlideIn]
    simp [Region.footing, hstate]
  | _ => rcases hcall with hcall | hcall <;> cases hcall

namespace Scene

variable {s s' t u : Scene} {c : ComponentId} {layout : LayoutConfig} {b b' : Border} {e : Edge}
  {r r' : Region} {moved moved' : Edge → Prop}

/-- The regions of a container that slide. -/
def Slides (s : Scene) (c : ComponentId) (e : Edge) : Slide → Prop
  | .out name | .back name => name = e.region
  | .click => ∃ r, (s.regions c).get e = some r ∧ r.canSlideIn = true

/-- Every region is there with its child. -/
def Held (c : ComponentId) (s : Scene) : Prop :=
  ∀ e, ((s.regions c).get e).map Region.component = s.tree.holder c e.region

theorem Held.holds (h : Held c s) {e : Edge} {r : Region} (hr : (s.regions c).get e = some r) :
    s.tree.holder c e.region = some r.component := by
  rw [← h e, hr, Option.map_some]

/-- A border container that is laid out: every region is there with its child, and drawn. -/
structure Standing (layout : LayoutConfig) (c : ComponentId) (s : Scene) : Prop where
  drawable : Drawable layout c s
  held : Held c s
  drawing : Nonempty (Drawing layout c s)

/-! ## What slides leave as it was -/

/-- The regions at the edges that are `moved` stand on the footing they had, not expanded, and only
they and their components have changed. -/
structure Slid (c : ComponentId) (moved : Edge → Prop) (s t : Scene) : Prop where
  host : t.host = s.host
  shape : s.tree.SameShape t.tree
  own : (s.tree.get? c).map Component.clean = (t.tree.get? c).map Component.clean
  footing : ∀ e, ((t.regions c).get e).map Region.footing =
    ((s.regions c).get e).map Region.footing
  look : ∀ e, ¬ moved e → ((t.regions c).get e).map Region.look =
    ((s.regions c).get e).map Region.look
  folded : ∀ e r, moved e → (s.regions c).get e = some r → r.state ≠ .expanded
  flags : ∀ i ∈ s.tree.children c, ¬ Border.Moves moved (s.regions c) i →
    t.tree.isHidden i = s.tree.isHidden i

namespace Slid

theorem component_eq (h : Slid c moved s t) (e : Edge) :
    ((t.regions c).get e).map Region.component = ((s.regions c).get e).map Region.component := by
  have hcomponent := congrArg (Option.map Prod.fst) (h.footing e)
  rwa [Option.map_map, Option.map_map] at hcomponent

theorem held (h : Slid c moved s t) (hs : Held c s) : Held c t := by
  intro e
  rw [h.component_eq, hs e,
    Tree.holder_congr (congrFun h.shape.children_eq c) h.shape.config?_eq]

theorem drawable (h : Slid c moved s t) (hs : Drawable layout c s) : Drawable layout c t :=
  hs.of_sameShape h.host h.shape h.own

/-- Nothing has moved. -/
theorem of_look (hhost : t.host = s.host) (hshape : s.tree.SameShape t.tree)
    (hown : (s.tree.get? c).map Component.clean = (t.tree.get? c).map Component.clean)
    (hlook : ∀ e, ((t.regions c).get e).map Region.look = ((s.regions c).get e).map Region.look)
    (hflags : ∀ i ∈ s.tree.children c, t.tree.isHidden i = s.tree.isHidden i) :
    Slid c (fun _ => False) s t where
  host := hhost
  shape := hshape
  own := hown
  footing e := Region.footing_of_look (hlook e)
  look e _ := hlook e
  folded _ _ := False.elim
  flags i hi _ := hflags i hi

theorem trans (h : Slid c moved s t) (h' : Slid c moved' t u) :
    Slid c (fun e => moved e ∨ moved' e) s u where
  host := h'.host.trans h.host
  shape := h.shape.trans h'.shape
  own := h.own.trans h'.own
  footing e := (h'.footing e).trans (h.footing e)
  look e he := (h'.look e fun hmoved => he (.inr hmoved)).trans
    (h.look e fun hmoved => he (.inl hmoved))
  folded e r he hr := by
    rcases he with he | he
    · exact h.folded e r he hr
    · have hfooting := h.footing e
      rw [hr, Option.map_some] at hfooting
      obtain ⟨q, hq, hsame⟩ := Option.map_eq_some_iff.1 hfooting
      exact fun hstate => h'.folded e q he hq ((Region.footing_eq_iff.1 hsame).2.1.2 hstate)
  flags i hi hother := by
    have hchildren : i ∈ t.tree.children c := by rwa [← h.shape.children_eq]
    refine (h'.flags i hchildren fun ⟨e, he, hr⟩ => hother ⟨e, .inr he, ?_⟩).trans
      (h.flags i hi fun ⟨e, he, hr⟩ => hother ⟨e, .inl he, hr⟩)
    rwa [h.component_eq] at hr

theorem mono (h : Slid c moved s t) (hmoved : ∀ e, moved e → moved' e)
    (hfolded : ∀ e r, moved' e → (s.regions c).get e = some r → r.state ≠ .expanded) :
    Slid c moved' s t :=
  { h with
    look := fun e he => h.look e fun hm => he (hmoved e hm)
    folded := hfolded
    flags := fun i hi hother => h.flags i hi fun ⟨e, he, hr⟩ => hother ⟨e, hmoved e he, hr⟩ }

end Slid

/-! ## Calls, clicks and passes -/

/-- One region changes, and its component is hidden or shown accordingly. -/
theorem held_changed (hs : Drawable layout c s) (hheld : Held c s)
    (hr : (s.regions c).get e = some r) (hcomponent : r'.component = r.component) (shows : Bool) :
    Drawable layout c (s.changed c (s.regions c) e r' shows) ∧
      Held c (s.changed c (s.regions c) e r' shows) := by
  have hagree := s.agree_changed c (s.regions c) e r' shows
  rw [hcomponent] at hagree
  have hout : c ≠ r.component := by
    rintro rfl
    exact hs.not_mem_children (Tree.mem_of_holder (hheld.holds hr)).1
  refine ⟨hs.of_sameShape rfl hagree.toSameShape (hagree.clean c hout), fun f => ?_⟩
  rw [Tree.holder_congr (congrFun hagree.children_eq.symm c) hagree.config?_eq.symm, ← hheld f,
    regions_changed, Border.get_set]
  split
  · next heq => rw [heq, hr, Option.map_some, Option.map_some, hcomponent]
  · rfl

/-- One region slides. -/
theorem slid_changed (hs : Drawable layout c s) (hheld : Held c s)
    (hr : (s.regions c).get e = some r) (hfooting : r'.footing = r.footing)
    (hfolded : r.state ≠ .expanded) :
    Slid c (· = e) s (s.changed c (s.regions c) e r' true) := by
  have hcomponent := (Region.footing_eq_iff.1 hfooting).1
  have hagree := s.agree_changed c (s.regions c) e r' true
  rw [hcomponent] at hagree
  have hget : ∀ f, ((s.changed c (s.regions c) e r' true).regions c).get f =
      if f = e then some r' else (s.regions c).get f := by
    intro f
    rw [regions_changed, Border.get_set]
  refine ⟨rfl, hagree.toSameShape, hagree.clean c ?_, fun f => ?_, fun f hf => ?_, ?_,
    fun i _ hi => (hagree.isHidden_eq ?_).symm⟩
  · rintro rfl
    exact hs.not_mem_children (Tree.mem_of_holder (hheld.holds hr)).1
  · rw [hget]
    split
    · next heq => rw [heq, hr, Option.map_some, Option.map_some, hfooting]
    · rfl
  · rw [hget, if_neg hf]
  · rintro f q rfl hq
    rw [hr, Option.some.injEq] at hq
    exact hq ▸ hfolded
  · rintro rfl
    exact hi ⟨e, rfl, by rw [hr, Option.map_some]⟩

namespace Standing

theorem of_look (h : Standing layout c s) (hhost : t.host = s.host) (htree : t.tree = s.tree)
    (hlook : ∀ e, ((t.regions c).get e).map Region.look = ((s.regions c).get e).map Region.look)
    (hgeometry : ∀ e, ((t.regions c).get e).map Region.geometry =
      ((s.regions c).get e).map Region.geometry)
    (hcenter : (t.regions c).centerRect = (s.regions c).centerRect) :
    Standing layout c t ∧ Slid c (fun _ => False) s t := by
  obtain ⟨d⟩ := h.drawing
  have hslid : Slid c (fun _ => False) s t := .of_look hhost (htree ▸ .refl s.tree)
    (by rw [htree]) hlook fun i _ => by rw [htree]
  exact ⟨⟨hslid.drawable h.drawable, hslid.held h.held,
    d.of_look hhost htree hlook hgeometry hcenter⟩, hslid⟩

theorem of_silent (h : Standing layout c s) (hsilent : Silent s t) : Standing layout c t := by
  have hregions : t.regions c = s.regions c := regions_congr (by rw [hsilent.kept])
  refine (h.of_look hsilent.host hsilent.tree (fun e => ?_) (fun e => ?_) ?_).1
  all_goals rw [hregions]

/-- A call or a click finds the regions as they are. -/
theorem of_finds {picks : Bool} (h : Standing layout c s) (hfinds : Finds c picks s b t) :
    t.regions c = b ∧ t.tree = s.tree ∧ Standing layout c t ∧ Slid c (fun _ => False) s t := by
  obtain ⟨htree, hget, hcenter⟩ := hfinds.known h.held
  have hregions : t.regions c = b := regions_eq ((hfinds.kept c).trans (if_pos rfl))
  refine ⟨hregions, htree, h.of_look hfinds.host htree (fun e => ?_) (fun e => ?_) ?_⟩
  · rw [hregions, hget]
  · rw [hregions, hget]
  · rw [hregions, hcenter]

end Standing

/-- A pass that finds every known region with its child. -/
theorem standing_of_layout (h : Drawable layout c s)
    (hheld : ∀ e r, (s.regions c).get e = some r → s.tree.holder c e.region = some r.component)
    (hrun : s.run (Step.layout c) = .ok (.ok (), s')) : Standing layout c s' := by
  have hredraws := redraws_of_layout h hheld hrun
  refine ⟨h.of_sameShape hredraws.host hredraws.shape hredraws.own, fun e => ?_, hredraws.drawn⟩
  rw [hredraws.held, Tree.holder_congr (congrFun hredraws.shape.children_eq c)
    hredraws.shape.config?_eq]

theorem slid_of_layout (h : Drawable layout c s) (hheld : Held c s)
    (hrun : s.run (Step.layout c) = .ok (.ok (), s')) : Slid c (fun _ => False) s s' := by
  have hredraws := redraws_of_layout h (fun _ _ hr => hheld.holds hr) hrun
  obtain ⟨hlook, hflags⟩ := hredraws.keeps hheld
  exact .of_look hredraws.host hredraws.shape hredraws.own hlook hflags

/-- Floating regions slide in, one after another. -/
theorem slid_of_slidesIn (hslides : SlidesIn c s b t b') (hb : s.regions c = b)
    (hs : Drawable layout c s) (hheld : Held c s) :
    Slid c (s.Slides c · .click) s t ∧ t.tree.rect? = s.tree.rect? := by
  have hfolded : ∀ (u : Scene) e r, u.Slides c e .click → (u.regions c).get e = some r →
      r.state ≠ .expanded := by
    rintro u e r ⟨q, hq, hallowed⟩ hr hstate
    rw [hr, Option.some.injEq] at hq
    subst hq
    simp [Region.canSlideIn, hstate] at hallowed
  induction hslides with
  | @done s b =>
    refine ⟨(Slid.of_look rfl (.refl s.tree) rfl (fun _ => rfl) fun _ _ => rfl).mono
      (fun _ => False.elim) (hfolded s), rfl⟩
  | @step s t b b' e r known allowed rest ih =>
    subst hb
    have hfloating : r.state ≠ .expanded := hfolded s e r ⟨r, known, allowed⟩ known
    have hfirst : Slid c (· = e) s (s.changed c (s.regions c) e { r with state := .collapsed }
        true) :=
      slid_changed hs hheld known (Region.footing_eq_iff.2
        ⟨rfl, iff_of_false (by simp) hfloating, rfl⟩) hfloating
    obtain ⟨hrest, hrects⟩ := ih (regions_changed ..) (hfirst.drawable hs) (hfirst.held hheld)
    refine ⟨(hfirst.trans hrest).mono (fun f hf => ?_) (hfolded s),
      hrects.trans (Tree.rect?_setHidden s.tree r.component true)⟩
    rcases hf with rfl | ⟨q, hq, hallowed⟩
    · exact ⟨r, known, allowed⟩
    · rw [regions_changed, Border.get_set] at hq
      split at hq
      · cases hq
        simp [Region.canSlideIn] at hallowed
      · exact ⟨q, hq, hallowed⟩

theorem not_elsewhere (hs : Drawable layout c s) : ¬ Elsewhere c s t := fun h =>
  h.other ⟨layout, hs.layoutOf, hs.border⟩

theorem standing_of_call {call : RegionCall} (h : Standing layout c s)
    (hrun : s.run (call.step c) = .ok (.ok (), s')) : Standing layout c s' := by
  cases does_step hrun with
  | rests hfinds => exact (h.of_finds hfinds).2.2.1
  | @begins b t e r r' hfinds hname hr hchanges =>
    obtain ⟨rfl, -, ht, -⟩ := h.of_finds hfinds
    obtain ⟨hlook, hgeometry⟩ := hchanges.look_eq
    -- only what the region waits for has changed
    have hsame : ∀ {α : Type} (g : Region → α), g r' = g r → ∀ f,
        (((t.changed c (t.regions c) e r' false).regions c).get f).map g =
          ((t.regions c).get f).map g := by
      intro α g hg f
      rw [regions_changed, Border.get_set]
      split
      · next heq => rw [heq, hr, Option.map_some, Option.map_some, hg]
      · rfl
    refine (ht.of_look (t := t.changed c (t.regions c) e r' false) rfl rfl (hsame _ hlook)
      (hsame _ hgeometry) ?_).1
    rw [regions_changed]
    cases e <;> rfl
  | lays hfinds hname hr hchanges hlayout hsilent =>
    obtain ⟨rfl, -, ht, -⟩ := h.of_finds hfinds
    obtain ⟨hdrawable, hheld⟩ := held_changed ht.drawable ht.held hr hchanges.component_eq _
    exact (standing_of_layout hdrawable (fun _ _ => hheld.holds) hlayout).of_silent hsilent

theorem standing_of_click {y : Except LayoutError (List RegionName)} (h : Standing layout c s)
    (hrun : s.run (Step.outsideClick c) = .ok (y, s')) (hy : y.map (fun _ => ()) = .ok ()) :
    Standing layout c s' := by
  obtain helsewhere | ⟨t, hfinds, hcases⟩ := run_outsideClick_eq_ok hrun
  · exact absurd helsewhere (not_elsewhere h.drawable)
  obtain ⟨hregions, -, ht, -⟩ := h.of_finds hfinds
  obtain rfl | ⟨b, mid, laid, hslides, hlayout, hsilent⟩ := hcases
  · exact ht
  · obtain ⟨hslid, -⟩ := slid_of_slidesIn hslides hregions ht.drawable ht.held
    rw [hy] at hlayout
    exact (standing_of_layout (hslid.drawable ht.drawable) (fun _ _ => (hslid.held ht.held).holds)
      hlayout).of_silent hsilent

/-- Turns of which none is refused. -/
theorem standing_of_turns {turns : List PaneTurn} (h : Standing layout c s)
    (hrun : s.run (turns.forM (PaneTurn.step c)) = .ok (.ok (), s')) : Standing layout c s' := by
  induction turns generalizing s with
  | nil =>
    cases hrun
    exact h
  | cons turn turns ih =>
    obtain ⟨e, -, hrefused⟩ | ⟨mid, hturn, hrest⟩ := run_forM_cons_eq_ok hrun
    · cases hrefused
    refine ih ?_ hrest
    match turn, hturn with
    | .turn .layout, hturn =>
      exact standing_of_layout h.drawable (fun _ _ => h.held.holds) hturn
    | .turn (.call call), hturn => exact standing_of_call h hturn
    | .click, hturn =>
      obtain ⟨y, hclick, hy⟩ := run_void_eq_ok hturn
      exact standing_of_click h hclick hy.symm

/-! ## What a slide comes to -/

/-- Where everything is that belongs to a container, but for the components of the regions at the
edges that are `moved`: the center, all placeholders and splitters, and all other children. -/
structure Unmoved (c : ComponentId) (moved : Edge → Prop) (s t : Scene) : Prop where
  center : (t.regions c).centerRect = (s.regions c).centerRect
  placeholders : ∀ e, ((t.regions c).get e).map Region.placeholder =
    ((s.regions c).get e).map Region.placeholder
  splitters : ∀ e, ((t.regions c).get e).map Region.splitter =
    ((s.regions c).get e).map Region.splitter
  children : t.tree.children c = s.tree.children c
  shown : ∀ i ∈ s.tree.children c, ¬ Border.Moves moved (s.regions c) i →
    t.tree.isVisible i = s.tree.isVisible i
  rects : ∀ i ∈ s.tree.children c, ¬ Border.Moves moved (s.regions c) i →
    t.tree.rect? i = s.tree.rect? i

/-- Every floating region is shown beside its placeholder. -/
def Overlaid (c : ComponentId) (s : Scene) : Prop :=
  ∀ e r, (s.regions c).get e = some r → r.state = .floating → ∃ placeholder overlay,
    r.placeholder = some placeholder ∧ r.rect = some overlay ∧
      s.tree.rect? r.component = some overlay ∧ e.Beside placeholder overlay

theorem Standing.overlaid (h : Standing layout c s) : Overlaid c s := by
  intro e r hr hstate
  obtain ⟨d⟩ := h.drawing
  -- the region as it has been placed, and as it was before
  have hgeometry := d.drawn e
  rw [hr, Option.map_some] at hgeometry
  obtain ⟨q, hq, hsame⟩ := Option.map_eq_some_iff.1 hgeometry
  obtain ⟨p, hp, hbare⟩ := Border.get_of_bare (Border.bare_place d.placed) hq
  have hlook := d.looks e
  rw [hp, hr, Option.map_some, Option.map_some, Option.some.injEq,
    ← Region.look_of_bare hbare] at hlook
  obtain ⟨hcomponent, hstates, -⟩ := Region.look_eq_iff.1 hlook
  obtain ⟨placeholder, overlay, hplaceholder, hrect, hplaced, hbeside⟩ :=
    Border.place_floating d.placed hq (hstates.trans hstate)
  simp only [Region.geometry, Prod.mk.injEq] at hsame
  obtain ⟨x, hx⟩ := h.drawable.forest.toLinked.exists_child
    (Tree.mem_of_holder (h.held.holds hr)).1
  rw [hcomponent] at hplaced
  exact ⟨placeholder, overlay, hsame.2.1.symm.trans hplaceholder, hsame.1.symm.trans hrect,
    d.rect?_eq hplaced hx, hbeside⟩

/-- A child is seen with the same settings and the same natural size, and is as visible as it was
unless it has moved. -/
theorem Slid.sees (h : Slid c moved s t) (hs : s.tree.Linked) {i : ComponentId}
    (hi : i ∈ s.tree.children c) :
    (t.regionMember i).map Prod.fst = (s.regionMember i).map Prod.fst ∧
      (¬ Border.Moves moved (s.regions c) i →
        t.tree.isVisible i = s.tree.isVisible i ∧ t.regionMember i = s.regionMember i) := by
  refine ⟨?_, fun hother => ?_⟩
  · obtain ⟨x, hx⟩ := hs.exists_child hi
    have hbare := h.shape.bare i
    rw [hx, Option.map_some] at hbare
    obtain ⟨y, hy, hsame⟩ := Option.map_eq_some_iff.1 hbare.symm
    have hconfig : y.config = x.config := by
      show y.bare.config = x.bare.config
      rw [hsame]
    rw [regionMember, regionMember, Tree.get_eq_ok.2 hx, Tree.get_eq_ok.2 hy, Length.ok_bind,
      Length.ok_bind, h.host, hconfig]
    rfl
  · have hvisible : t.tree.isVisible i = s.tree.isVisible i := by
      have hhidden := h.flags i hi hother
      have hchild : i ∈ t.tree.children c := by rwa [← h.shape.children_eq]
      rwa [hs.isHidden_child hi, (h.shape.linked hs).isHidden_child hchild,
        Bool.not_inj_iff] at hhidden
    exact ⟨hvisible, regionMember_congr h.host.symm h.shape hvisible.symm⟩

/-- The regions are drawn on the footing that they had. -/
theorem Slid.poised (h : Slid c moved s t) (hs : Standing layout c s) (d : Drawing layout c s)
    (d' : Drawing layout c t) :
    Border.Poised moved d.members d'.members d.before d'.before := by
  have hknown : ∀ e p, d.before.get e = some p → ∃ r, (s.regions c).get e = some r ∧
      p.state = r.state ∧ p.component = r.component ∧ p.component ∈ s.tree.children c := by
    intro e p hp
    have hlook := d.looks e
    rw [hp, Option.map_some] at hlook
    obtain ⟨r, hr, hsame⟩ := Option.map_eq_some_iff.1 hlook.symm
    obtain ⟨hcomponent, hstate, -⟩ := Region.look_eq_iff.1 hsame
    exact ⟨r, hr, hstate.symm, hcomponent.symm,
      hcomponent ▸ (Tree.mem_of_holder (hs.held.holds hr)).1⟩
  have hsees := fun i hi => @Slid.sees _ _ _ _ h hs.drawable.forest.toLinked i hi
  have hsees' : ∀ i ∈ s.tree.children c, d'.members i = t.regionMember i := by
    intro i hi
    rw [h.shape.children_eq] at hi
    exact d'.sees i hi
  refine ⟨fun e => ?_, fun e he => ?_, fun e p he hp => ?_, fun e p hp => ?_, fun e p he hp => ?_⟩
  · exact (Region.footing_of_look (d'.looks e)).trans ((h.footing e).trans
      (Region.footing_of_look (d.looks e)).symm)
  · exact (d'.looks e).trans ((h.look e he).trans (d.looks e).symm)
  · obtain ⟨r, hr, hstate, -⟩ := hknown e p hp
    exact hstate ▸ h.folded e r he hr
  · obtain ⟨-, -, -, -, hmem⟩ := hknown e p hp
    rw [hsees' _ hmem, d.sees _ hmem, (hsees _ hmem).1]
  · obtain ⟨r, hr, -, hcomponent, hmem⟩ := hknown e p hp
    rw [hsees' _ hmem, d.sees _ hmem]
    refine ((hsees _ hmem).2 ?_).2
    -- the component belongs to no region but this one
    rintro ⟨f, hf, hfr⟩
    rw [hs.held f, hcomponent] at hfr
    have heq := Edge.region_injective (Tree.holder_injective hfr (hs.held.holds hr))
    exact he (heq ▸ hf)

/-- Regions that have slid move nothing else when the container is laid out. -/
theorem unmoved_of_slid (hs : Standing layout c s) (h : Slid c moved s u)
    (hrects : u.tree.rect? = s.tree.rect?) (hrun : u.run (Step.layout c) = .ok (.ok (), s')) :
    Unmoved c moved s s' := by
  have hdrawable := h.drawable hs.drawable
  have hheld := h.held hs.held
  have hlinked := hs.drawable.forest.toLinked
  have hslid : Slid c moved s s' := (h.trans (slid_of_layout hdrawable hheld hrun)).mono
    (fun _ he => he.resolve_right id) h.folded
  obtain ⟨d⟩ := hs.drawing
  obtain ⟨d', hunplaced⟩ := exists_drawing_of_layout hdrawable (fun _ _ => hheld.holds) hrun
  have hchildren : s'.tree.children c = s.tree.children c :=
    congrFun hslid.shape.children_eq.symm c
  have hholds : s'.tree.holder c .center = s.tree.holder c .center := by
    rw [Tree.holder_congr hchildren hslid.shape.config?_eq.symm]
  have hoffers := hs.drawable.steady.content_eq hslid.host hslid.shape hslid.own layout
  rw [d.offers, d'.offers, Except.ok.injEq] at hoffers
  rw [d.holds, d'.holds, Option.some.injEq] at hholds
  have hplaced := d'.placed
  rw [hholds, hoffers] at hplaced
  have hmem := (Tree.mem_of_holder d.holds).1
  obtain ⟨hcenter, hfixtures, hplacements⟩ := Border.place_footing (hslid.poised hs d d')
    (by rw [d'.sees _ (hchildren ▸ hmem), d.sees _ hmem, (hslid.sees hlinked hmem).1])
    d.placed hplaced
  have hfixture : ∀ e, ((s'.regions c).get e).map Region.fixture =
      ((s.regions c).get e).map Region.fixture := by
    intro e
    have hdrawn := congrArg (Option.map Prod.snd) (d.drawn e)
    have hdrawn' := congrArg (Option.map Prod.snd) (d'.drawn e)
    rw [Option.map_map, Option.map_map] at hdrawn hdrawn'
    exact hdrawn'.symm.trans ((hfixtures e).trans hdrawn)
  have hmoves : Border.Moves moved d.before = Border.Moves moved (s.regions c) := by
    refine Border.moves_congr fun e => ?_
    have hcomponent := congrArg (Option.map Prod.fst) (d.looks e)
    rwa [Option.map_map, Option.map_map] at hcomponent
  rw [hmoves] at hplacements
  refine ⟨d'.centered.symm.trans (hcenter.trans d.centered), fun e => ?_, fun e => ?_, hchildren,
    fun i hi hother => ((hslid.sees hlinked hi).2 hother).1, fun i hi hother => ?_⟩
  · have hplaceholder := congrArg (Option.map Prod.fst) (hfixture e)
    rwa [Option.map_map, Option.map_map] at hplaceholder
  · have hsplitter := congrArg (Option.map Prod.snd) (hfixture e)
    rwa [Option.map_map, Option.map_map] at hsplitter
  · by_cases hplaced : i ∈ d'.placements.map Placement.id
    · obtain ⟨p, hp, rfl⟩ := List.mem_map.1 hplaced
      obtain ⟨x, hx⟩ := hlinked.exists_child hi
      obtain ⟨y, hy⟩ := (hslid.shape.linked hlinked).exists_child (hchildren.symm ▸ hi)
      rw [d'.rect?_eq hp hy, d.rect?_eq ((hplacements p hother).1 hp) hx]
    · rw [hunplaced i (h.shape.children_eq ▸ hi) hplaced, hrects]

/-! ## Slides -/

/-- A call or a click that finds nothing to do. -/
theorem unmoved_of_finds {picks : Bool} (hs : Standing layout c s) (h : Finds c picks s b t) :
    Unmoved c moved s t := by
  obtain ⟨htree, hget, hcenter⟩ := h.known hs.held
  have hregions : t.regions c = b := regions_eq ((h.kept c).trans (if_pos rfl))
  refine ⟨by rw [hregions, hcenter], fun e => by rw [hregions, hget],
    fun e => by rw [hregions, hget], ?_, fun i _ _ => ?_, fun i _ _ => ?_⟩
  all_goals rw [htree]

theorem Unmoved.of_silent (h : Unmoved c moved s t) (hsilent : Silent t u) :
    Unmoved c moved s u := by
  have hregions : u.regions c = t.regions c := regions_congr (by rw [hsilent.kept])
  obtain ⟨hcenter, hplaceholders, hsplitters, hchildren, hshown, hrects⟩ := h
  refine ⟨?_, ?_, ?_, ?_, ?_, ?_⟩
  all_goals simpa only [hregions, hsilent.tree]

theorem unmoved_of_call {call : RegionCall}
    (hcall : call = .slideOut call.region ∨ call = .slideIn call.region)
    (hs : Standing layout c s) (h : Does call c s (.ok ()) s') :
    Unmoved c (fun e => call.region = e.region) s s' := by
  cases h with
  | rests hfinds => exact unmoved_of_finds hs hfinds
  | begins hfinds hname hr hchanges =>
    have := (hchanges.slides hcall).2.2
    cases this
  | @lays b t e r r' shows x laid after hfinds hname hr hchanges hlayout hsilent =>
    obtain ⟨rfl, htree, ht, hfound⟩ := hs.of_finds hfinds
    obtain ⟨hfooting, hfolded, rfl⟩ := hchanges.slides hcall
    have hslid := hfound.trans (slid_changed ht.drawable ht.held hr hfooting hfolded)
    refine (unmoved_of_slid hs (hslid.mono (fun f hf => ?_) fun f q hf hq => ?_) ?_
      hlayout).of_silent hsilent
    · rw [hname, hf.resolve_left id]
    · obtain rfl := Edge.region_injective (hname.symm.trans hf)
      rw [(hfinds.known hs.held).2.1, hq, Option.some.injEq] at hr
      exact hr ▸ hfolded
    · rw [changed, if_pos rfl, Tree.rect?_setHidden, htree]

theorem unmoved_of_click {y : Except LayoutError (List RegionName)} (hs : Standing layout c s)
    (hrun : s.run (Step.outsideClick c) = .ok (y, s')) (hy : y.map (fun _ => ()) = .ok ()) :
    Unmoved c (s.Slides c · .click) s s' := by
  obtain helsewhere | ⟨t, hfinds, hcases⟩ := run_outsideClick_eq_ok hrun
  · exact absurd helsewhere (not_elsewhere hs.drawable)
  obtain rfl | ⟨b, mid, laid, hslides, hlayout, hsilent⟩ := hcases
  · exact unmoved_of_finds hs hfinds
  · obtain ⟨hregions, htree, ht, hfound⟩ := hs.of_finds hfinds
    obtain ⟨hslid, hrects⟩ := slid_of_slidesIn hslides hregions ht.drawable ht.held
    have hsame : t.Slides c = s.Slides c := by
      funext e slide
      cases slide <;> simp only [Slides, hregions]
    rw [hsame] at hslid
    rw [hy] at hlayout
    refine (unmoved_of_slid hs ((hfound.trans hslid).mono (fun f hf => hf.resolve_left id) ?_)
      (hrects.trans (by rw [htree])) hlayout).of_silent hsilent
    rw [← hregions]
    exact hslid.folded

/-- Slides move nothing else. -/
theorem unmoved_of_slide {slide : Slide} (hs : Standing layout c s)
    (hrun : s.run (slide.step c) = .ok (.ok (), s')) :
    Unmoved c (s.Slides c · slide) s s' ∧ Standing layout c s' := by
  cases slide with
  | out name =>
    exact ⟨unmoved_of_call (.inl rfl) hs (does_slideOut hrun),
      @standing_of_call _ _ _ _ (.slideOut name) hs hrun⟩
  | back name =>
    exact ⟨unmoved_of_call (.inr rfl) hs (does_slideIn hrun),
      @standing_of_call _ _ _ _ (.slideIn name) hs hrun⟩
  | click =>
    obtain ⟨y, hclick, hy⟩ := run_void_eq_ok hrun
    exact ⟨unmoved_of_click hs hclick hy.symm, standing_of_click hs hclick hy.symm⟩

end Scene

/-- Sliding a region out or in moves nothing else. A border container is laid out, with none of its
known regions left over from other children; its children, their settings, its size and what the
host measures stay, and the host does not keep it from being laid out. Then it is laid out, called
on and clicked beside in any order, without a refusal, and in the end regions slide out or in. That
leaves the center, all placeholders and splitters, and all other children where they were, and as
visible as they were; and before it and after it every floating region is shown beside its
placeholder, toward the center and as long as the placeholder. -/
theorem sliding_moves_nothing_else {s s₀ s₁ s₂ : Scene} {c : ComponentId} {layout : LayoutConfig}
    {turns : List PaneTurn} {slide : Slide} (hforest : s.tree.Forest)
    (hlayout : s.tree.layoutOf c = .ok layout) (hborder : layout.kind = .border)
    (hheld : ∀ e r, (s.regions c).get e = some r → s.tree.holder c e.region = some r.component)
    (hheard : s.host.vetoed c .beforeLayout = false) (hsteady : s.Steady c)
    (hfirst : s.run (Step.layout c) = .ok (.ok (), s₀))
    (hturns : s₀.run (turns.forM (PaneTurn.step c)) = .ok (.ok (), s₁))
    (hslide : s₁.run (slide.step c) = .ok (.ok (), s₂)) :
    Scene.Unmoved c (s₁.Slides c · slide) s₁ s₂ ∧ Scene.Overlaid c s₁ ∧ Scene.Overlaid c s₂ := by
  have h₀ := Scene.standing_of_layout ⟨hforest, hlayout, hborder, hheard, hsteady⟩ hheld hfirst
  have h₁ := Scene.standing_of_turns h₀ hturns
  obtain ⟨hunmoved, h₂⟩ := Scene.unmoved_of_slide h₁ hslide
  exact ⟨hunmoved, h₁.overlaid, h₂.overlaid⟩

section

/-- A window with a bar at the top and a pane at the left, and the page between them. -/
private def panedWindow : Scene :=
  .ofTree ((Tree.ofDescription (.node { layout := some { kind := .border } }
    [.node { region := some .north, height := some 20, collapsible := true } [],
      .node { region := some .west, width := some 40, collapsible := true, split := true } [],
      .node { region := some .center } []])).applyRect 0 ⟨0, 0, 200, 100⟩) .standard

/-- Both collapse, and the bar is shown over the page. -/
private def barShown : List PaneTurn :=
  [.turn (.call (.collapse .north false)), .turn (.call (.collapse .west false)),
    .turn (.call (.slideOut .north))]

/-- The pane is shown over the page as well. -/
theorem pane_slides_over_the_page :
    ∃ s₀ s₁ s₂, panedWindow.run (Step.layout 0) = .ok (.ok (), s₀) ∧
      s₀.run (barShown.forM (PaneTurn.step 0)) = .ok (.ok (), s₁) ∧
      s₁.run ((Slide.out .west).step 0) = .ok (.ok (), s₂) ∧
      s₁.tree.visibleChildren 0 = [1, 3] ∧ s₂.tree.visibleChildren 0 = [1, 2, 3] ∧
      Scene.Unmoved 0 (s₁.Slides 0 · (.out .west)) s₁ s₂ ∧ Scene.Overlaid 0 s₂ := by
  obtain ⟨⟨⟩, s₀, h₀, hview⟩ := Scene.run_of_viewAfter
    (show panedWindow.viewAfter (Step.layout 0) (fun s₀ =>
        s₀.viewAfter (barShown.forM (PaneTurn.step 0)) fun s₁ =>
          (s₁.tree.visibleChildren 0, s₁.viewAfter ((Slide.out .west).step 0) fun s₂ =>
            s₂.tree.visibleChildren 0)) =
      some (some ([1, 3], some [1, 2, 3])) by decide +kernel)
  obtain ⟨⟨⟩, s₁, h₁, hview⟩ := Scene.run_of_viewAfter hview
  simp only [Prod.mk.injEq] at hview
  obtain ⟨hbefore, hview⟩ := hview
  obtain ⟨⟨⟩, s₂, h₂, hafter⟩ := Scene.run_of_viewAfter hview
  obtain ⟨hunmoved, -, hoverlaid⟩ := sliding_moves_nothing_else
    ((Tree.sameShape_applyRect _ 0 _).forest (Tree.nested_ofDescription _).forest) rfl rfl
    (fun e r hr => by cases e <;> cases hr) rfl (Scene.steady_of_ownSize rfl 0) h₀ h₁ h₂
  exact ⟨s₀, s₁, s₂, h₀, h₁, h₂, hbefore, hafter, hunmoved, hoverlaid⟩

end

end Trellis
