import Trellis.Proofs.Region.Drawing
import Trellis.Proofs.Region.Evolution

/-!
# Geometry without a memory

Whatever has been called on the regions of a container, a pass draws what there is now. What is left
of the way there are the states and sizes of the regions, and whether the component of an expanded
region is hidden.

* `BorderTurn`: a container is laid out, or one of its regions is called on.
* `Spares`: what calls on some regions leave as it was; `spares_of_layout`, `spares_of_call`.
* `SameGeometry`: two scenes show the same of a container; `sameGeometry_of_spares`.
* `border_geometry_has_no_memory`: regions that have come to the same states are drawn in the same
  places.
-/
namespace Trellis

/-- What may happen to a border container that keeps its children. -/
inductive BorderTurn where
  | layout
  | call (call : RegionCall)

def BorderTurn.step (c : ComponentId) : BorderTurn → Step Unit
  | .layout => Step.layout c
  | .call regionCall => regionCall.step c

/-- Unless its splitter is moved, a region keeps its size. -/
theorem Region.Changes.size_eq {config : Option ItemConfig} {bounds : Option SplitBounds}
    {r r' : Region} {call : RegionCall} {shows lays : Bool}
    (h : r.Changes config bounds call r' shows lays)
    (hcall : ∀ n, call ≠ .splitMove call.region n) : r'.size = r.size := by
  cases h with
  | splitMove => exact absurd rfl (hcall _)
  | _ => rfl

/-- A region whose component is not shown or hidden looks the same, unless its splitter is moved;
what has been drawn of it stays. -/
theorem Region.Changes.look_eq {config : Option ItemConfig} {bounds : Option SplitBounds}
    {r r' : Region} {call : RegionCall} (h : r.Changes config bounds call r' false false) :
    r'.look = r.look ∧ r'.geometry = r.geometry := by
  cases h <;> exact ⟨rfl, rfl⟩

namespace Scene

variable {s s₀ s' t u : Scene} {c : ComponentId} {layout : LayoutConfig} {b : Border} {e : Edge}
  {r r' : Region} {call : RegionCall} {made made' : RegionCall → Prop}

/-- The region at an edge is expanded, but its component is hidden. -/
def Conceals (s : Scene) (c : ComponentId) (e : Edge) : Prop :=
  ∃ r, (s.regions c).get e = some r ∧ r.state = .expanded ∧ s.tree.isHidden r.component = true

instance (s : Scene) (c : ComponentId) (e : Edge) : Decidable (s.Conceals c e) :=
  decidable_of_iff (((s.regions c).get e).any fun r =>
    r.state == .expanded && s.tree.isHidden r.component) (by simp [Conceals, Option.any_eq_true])

/-- What the calls in `made` leave as it was. -/
structure Spares (c : ComponentId) (made : RegionCall → Prop) (s t : Scene) : Prop where
  host : t.host = s.host
  shape : s.tree.SameShape t.tree
  own : (s.tree.get? c).map Component.clean = (t.tree.get? c).map Component.clean
  /-- A region that is not called on looks the same. -/
  looks : ∀ e : Edge, (∀ call, made call → call.region ≠ e.region) →
    ((t.regions c).get e).map Region.look = ((s.regions c).get e).map Region.look
  sizes : ∀ e : Edge, (∀ n, ¬ made (.splitMove e.region n)) →
    ((t.regions c).get e).map Region.size = ((s.regions c).get e).map Region.size
  /-- Only the components of regions that are called on are hidden or shown. -/
  flags : ∀ i ∈ s.tree.children c,
    (∀ (e : Edge) call, made call → call.region = e.region →
      s.tree.holder c e.region ≠ some i) → t.tree.isHidden i = s.tree.isHidden i
  rects : ∀ i ∈ s.tree.children c, (∀ name, s.tree.holder c name ≠ some i) →
    t.tree.rect? i = s.tree.rect? i
  /-- No call hides the component of an expanded region. -/
  conceals : ∀ e, t.Conceals c e → s.Conceals c e

namespace Spares

theorem refl (c : ComponentId) (made : RegionCall → Prop) (s : Scene) : Spares c made s s :=
  ⟨rfl, .refl s.tree, rfl, fun _ _ => rfl, fun _ _ => rfl, fun _ _ _ => rfl, fun _ _ _ => rfl,
    fun _ => id⟩

theorem children_eq (h : Spares c made s t) : t.tree.children c = s.tree.children c :=
  congrFun h.shape.children_eq.symm c

theorem holder_eq (h : Spares c made s t) : t.tree.holder c = s.tree.holder c :=
  Tree.holder_congr h.children_eq h.shape.config?_eq.symm

theorem trans (h : Spares c made s t) (h' : Spares c made t u) : Spares c made s u where
  host := h'.host.trans h.host
  shape := h.shape.trans h'.shape
  own := h.own.trans h'.own
  looks e he := (h'.looks e he).trans (h.looks e he)
  sizes e he := (h'.sizes e he).trans (h.sizes e he)
  flags i hi hother :=
    (h'.flags i (h.children_eq ▸ hi) (h.holder_eq ▸ hother)).trans (h.flags i hi hother)
  rects i hi hother :=
    (h'.rects i (h.children_eq ▸ hi) (h.holder_eq ▸ hother)).trans (h.rects i hi hother)
  conceals e he := h.conceals e (h'.conceals e he)

theorem mono (h : Spares c made s t) (hmade : ∀ call, made call → made' call) :
    Spares c made' s t :=
  { h with
    looks := fun e he => h.looks e fun call hcall => he call (hmade call hcall)
    sizes := fun e he => h.sizes e fun n hcall => he n (hmade _ hcall)
    flags := fun i hi hother => h.flags i hi fun e call hcall => hother e call (hmade call hcall) }

/-- Nothing has changed but what is not seen of the regions. -/
theorem of_look (hhost : t.host = s.host) (htree : t.tree = s.tree)
    (hlook : ∀ e, ((t.regions c).get e).map Region.look = ((s.regions c).get e).map Region.look) :
    Spares c made s t := by
  refine ⟨hhost, htree ▸ .refl s.tree, by rw [htree], fun e _ => hlook e, fun e _ => ?_,
    fun _ _ _ => by rw [htree], fun _ _ _ => by rw [htree], fun e => ?_⟩
  · have hsize := congrArg (Option.map fun look => look.2.2) (hlook e)
    rwa [Option.map_map, Option.map_map] at hsize
  · rintro ⟨r', hr', hstate, hhidden⟩
    have he := hlook e
    rw [hr', Option.map_some] at he
    obtain ⟨r, hr, hsame⟩ := Option.map_eq_some_iff.1 he.symm
    obtain ⟨hcomponent, hstates, -⟩ := Region.look_eq_iff.1 hsame
    exact ⟨r, hr, hstates.trans hstate, by rw [hcomponent, ← htree, hhidden]⟩

/-- Nothing has been called. -/
theorem kempt (h : Spares c (fun _ => False) s t) (hs : Kempt c s) : Kempt c t := by
  have hlook : ∀ e, _ := fun e => h.looks e fun _ => False.elim
  refine ⟨fun e => ?_, fun e r' hr' hstate => ?_⟩
  · rw [h.holder_eq, ← hs.held e]
    have hcomponent := congrArg (Option.map Prod.fst) (hlook e)
    rwa [Option.map_map, Option.map_map] at hcomponent
  · have he := hlook e
    rw [hr', Option.map_some] at he
    obtain ⟨r, hr, hsame⟩ := Option.map_eq_some_iff.1 he.symm
    obtain ⟨hcomponent, hstates, -⟩ := Region.look_eq_iff.1 hsame
    rw [← hcomponent, ← hstates,
      h.flags _ (hs.mem_children hr) fun _ _ => False.elim]
    exact hs.folded e r hr (hstates ▸ hstate)

end Spares

/-! ## Passes -/

/-- The first pass over a container. -/
theorem Redraws.kempt_of_fresh (h : Redraws layout c s s')
    (hfresh : ∀ e, (s.regions c).get e = none) : Kempt c s' := by
  refine ⟨fun e => ?_, fun e r' hr' hstate => ?_⟩
  · rw [h.held, Tree.holder_congr (congrFun h.shape.children_eq c) h.shape.config?_eq]
  · obtain ⟨r, hr, -⟩ | ⟨-, hexpanded | ⟨hcollapsed, hhidden⟩⟩ := h.region e r' hr'
    · rw [hfresh] at hr
      cases hr
    · exact absurd hexpanded hstate
    · exact iff_of_true hhidden hcollapsed

/-- A later pass, which finds every region there with its child, leaves the regions as they look and
hides nothing. -/
theorem Redraws.keeps (h : Redraws layout c s s')
    (hheld : ∀ e, ((s.regions c).get e).map Region.component = s.tree.holder c e.region) :
    (∀ e, ((s'.regions c).get e).map Region.look = ((s.regions c).get e).map Region.look) ∧
      ∀ i ∈ s.tree.children c, s'.tree.isHidden i = s.tree.isHidden i := by
  have hcomponent := fun e => (h.held e).trans (hheld e).symm
  refine ⟨fun e => ?_, fun i hi => h.flags i hi fun e hnone => ?_⟩
  · cases hr' : (s'.regions c).get e with
    | some r' =>
      obtain ⟨r, hr, hbare⟩ | ⟨hnone, -⟩ := h.region e r' hr'
      · rw [hr, Option.map_some, Option.map_some, Region.look_of_bare hbare]
      · have he := hcomponent e
        rw [hr', hnone] at he
        cases he
    | none =>
      have he := hcomponent e
      rw [hr', Option.map_none, eq_comm, Option.map_eq_none_iff] at he
      rw [he]
  · rw [← hheld e, hnone]
    nofun

/-- A later pass changes nothing that could be seen by calls. -/
theorem Redraws.spares (h : Redraws layout c s s') (hs : Kempt c s) :
    Spares c (fun _ => False) s s' := by
  obtain ⟨hlook, hflags⟩ := h.keeps hs.held
  refine ⟨h.host, h.shape, h.own, fun e _ => hlook e, fun e _ => ?_, fun i hi _ => hflags i hi,
    h.rects, fun e => ?_⟩
  · have hsize := congrArg (Option.map fun look => look.2.2) (hlook e)
    rwa [Option.map_map, Option.map_map] at hsize
  · rintro ⟨r', hr', hstate, hhidden⟩
    have he := hlook e
    rw [hr', Option.map_some] at he
    obtain ⟨r, hr, hsame⟩ := Option.map_eq_some_iff.1 he.symm
    obtain ⟨hcomponent, hstates, -⟩ := Region.look_eq_iff.1 hsame
    refine ⟨r, hr, hstates.trans hstate, ?_⟩
    rw [← hflags _ (hs.mem_children hr), hcomponent, hhidden]

/-- All that is known of a container once it has been laid out. -/
structure Drawn (layout : LayoutConfig) (c : ComponentId) (s : Scene) : Prop where
  drawable : Drawable layout c s
  kempt : Kempt c s
  drawing : Nonempty (Drawing layout c s)

/-- A container that is laid out again. -/
theorem spares_of_layout (h : Drawable layout c s) (hs : Kempt c s)
    (hrun : s.run (Step.layout c) = .ok (.ok (), s')) :
    Spares c (fun _ => False) s s' ∧ Drawn layout c s' := by
  have hredraws := redraws_of_layout h (fun _ _ hr => hs.holds hr) hrun
  have hspares := hredraws.spares hs
  exact ⟨hspares, h.of_sameShape hredraws.host hredraws.shape hredraws.own, hspares.kempt hs,
    hredraws.drawn⟩

theorem drawn_of_first_layout (h : Drawable layout c s) (hfresh : ∀ e, (s.regions c).get e = none)
    (hrun : s.run (Step.layout c) = .ok (.ok (), s')) : Drawn layout c s' := by
  have hredraws := redraws_of_layout h (fun e r hr => by simp [hfresh e] at hr) hrun
  exact ⟨h.of_sameShape hredraws.host hredraws.shape hredraws.own,
    hredraws.kempt_of_fresh hfresh, hredraws.drawn⟩

/-! ## Calls -/

/-- Where every region is there with its child, a call finds what is known. -/
theorem Finds.known {picks : Bool} (h : Finds c picks s b t)
    (hheld : ∀ e, ((s.regions c).get e).map Region.component = s.tree.holder c e.region) :
    t.tree = s.tree ∧ (∀ e, b.get e = (s.regions c).get e) ∧
      b.centerRect = (s.regions c).centerRect := by
  have hholds : ∀ e r, (s.regions c).get e = some r →
      s.tree.holder c e.region = some r.component := by
    intro e r hr
    rw [← hheld e, hr, Option.map_some]
  obtain ⟨-, rfl, htree⟩ | ⟨-, slots, hslots, rfl, htree⟩ := h.found
  · exact ⟨htree, fun _ => rfl, rfl⟩
  · refine ⟨?_, fun e => ?_, rfl⟩
    · have hnothing : (s.regions c).hiddenBySync slots = [] := by
        refine List.eq_nil_iff_forall_not_mem.2 fun i hi => ?_
        obtain ⟨e, r, hnone, hr, -⟩ := (mem_hiddenBySync hslots hholds).1 hi
        have hpicked := held_sync hslots hholds e
        rw [hr, ← hheld e, hnone] at hpicked
        cases hpicked
      rw [htree, hnothing]
      rfl
    · cases hr : (s.regions c).get e with
      | some r => rw [(get_sync_of_held hslots hr (hholds e r hr)).1]
      | none =>
        have hpicked := held_sync hslots hholds e
        rwa [← hheld e, hr, Option.map_none, Option.map_eq_none_iff] at hpicked

/-- Different regions have different components. -/
theorem Kempt.component_ne (hs : Kempt c s) {f : Edge} {q : Region}
    (hr : (s.regions c).get e = some r) (hq : (s.regions c).get f = some q) (hf : f ≠ e) :
    q.component ≠ r.component := by
  intro heq
  refine hf (Edge.region_injective (Tree.holder_injective (hs.holds hq) ?_))
  rw [heq, hs.holds hr]

section

variable {config : Option ItemConfig} {bounds : Option SplitBounds} {picks shows lays : Bool}
  (hs : Kempt c s) (hfinds : Finds c picks s b t) (hr : (s.regions c).get e = some r)
  (hchanges : r.Changes config bounds call r' shows lays)

include hs hfinds

theorem get_changed (f : Edge) : ((t.changed c b e r' shows).regions c).get f =
    if f = e then some r' else (s.regions c).get f := by
  rw [regions_changed, Border.get_set, (hfinds.known hs.held).2.1]

include hchanges

theorem agree_called :
    s.tree.Agree (· ≠ r.component) (t.changed c b e r' shows).tree := by
  have hagree := t.agree_changed c b e r' shows
  rwa [(hfinds.known hs.held).1, hchanges.component_eq] at hagree

include hr

/-- A component that is hidden or shown is hidden exactly if its region is collapsed now. -/
theorem isHidden_called (hlinked : s.tree.Linked) :
    (t.changed c b e r' shows).tree.isHidden r'.component =
      if shows then r'.hidesComponent else s.tree.isHidden r.component := by
  have htree := (hfinds.known hs.held).1
  have hcomponent := hchanges.component_eq
  cases shows with
  | true =>
    obtain ⟨x, hx⟩ := hlinked.exists_child (hs.mem_children hr)
    rw [isHidden_changed (by rw [hcomponent, htree, hx]), if_pos rfl]
  | false => rw [changed, if_neg Bool.false_ne_true, htree, hcomponent, if_neg Bool.false_ne_true]

/-- A call changes the region that it names, and its component. -/
theorem spares_changed (hlinked : s.tree.Linked) (hout : c ∉ s.tree.children c)
    (hname : call.region = e.region) : Spares c (· = call) s (t.changed c b e r' shows) := by
  have hholds := hs.holds hr
  have hmem := hs.mem_children hr
  have hagree := agree_called (e := e) hs hfinds hchanges
  refine ⟨hfinds.host, hagree.toSameShape, hagree.clean c ?_, fun f hf => ?_, fun f hf => ?_,
    fun i _ hi => ?_, fun i _ hi => ?_, fun f => ?_⟩
  · rintro rfl
    exact hout hmem
  · rw [get_changed hs hfinds, if_neg]
    rintro rfl
    exact hf call rfl hname
  · rw [get_changed hs hfinds]
    split
    · next heq =>
      subst heq
      rw [hr, Option.map_some, Option.map_some, hchanges.size_eq]
      intro n hcall
      exact hf n (hname ▸ hcall.symm)
    · rfl
  · refine (hagree.isHidden_eq ?_).symm
    rintro rfl
    exact hi e call rfl hname hholds
  · refine (hagree.rect?_eq ?_).symm
    rintro rfl
    exact hi e.region hholds
  · rintro ⟨q, hq, hstate, hhidden⟩
    rw [get_changed hs hfinds] at hq
    split at hq
    · next heq =>
      subst heq
      cases hq
      rw [isHidden_called hs hfinds hr hchanges hlinked] at hhidden
      cases shows with
      | true => simp [Region.hidesComponent, hstate] at hhidden
      | false => exact ⟨r, hr, hchanges.state_eq.symm.trans hstate, hhidden⟩
    · next hf =>
      exact ⟨q, hq, hstate, (hagree.isHidden_eq (hs.component_ne hr hq hf)).trans hhidden⟩

theorem kempt_changed (hlinked : s.tree.Linked) : Kempt c (t.changed c b e r' shows) := by
  have hagree := agree_called (e := e) hs hfinds hchanges
  have hholder : (t.changed c b e r' shows).tree.holder c = s.tree.holder c :=
    Tree.holder_congr (congrFun hagree.children_eq.symm c) hagree.config?_eq.symm
  refine ⟨fun f => ?_, fun f q hq hstate => ?_⟩
  · rw [hholder, ← hs.held f, get_changed hs hfinds]
    split
    · next heq => rw [heq, hr, Option.map_some, Option.map_some, hchanges.component_eq]
    · rfl
  · rw [get_changed hs hfinds] at hq
    split at hq
    · cases hq
      rw [isHidden_called hs hfinds hr hchanges hlinked]
      cases shows with
      | true => simp [Region.hidesComponent]
      | false =>
        rw [hchanges.state_eq] at hstate ⊢
        exact hs.folded e r hr hstate
    · next hf =>
      rw [← hagree.isHidden_eq (hs.component_ne hr hq hf)]
      exact hs.folded f q hq hstate

end

/-- Regions that look as they did are drawn as they were. -/
theorem Drawing.of_look (d : Drawing layout c s) (hhost : t.host = s.host) (htree : t.tree = s.tree)
    (hlook : ∀ e, ((t.regions c).get e).map Region.look = ((s.regions c).get e).map Region.look)
    (hgeometry : ∀ e, ((t.regions c).get e).map Region.geometry =
      ((s.regions c).get e).map Region.geometry)
    (hcenter : (t.regions c).centerRect = (s.regions c).centerRect) :
    Nonempty (Drawing layout c t) := by
  refine ⟨{ d with
    holds := by rw [htree, d.holds]
    offers := by
      rw [← d.offers]
      unfold Scene.content
      rw [hhost, htree]
    looks := fun e => (d.looks e).trans (hlook e).symm
    sees := fun i hi => ?_
    drawn := fun e => (d.drawn e).trans (hgeometry e).symm
    centered := d.centered.trans hcenter.symm
    shows := htree ▸ d.shows }⟩
  rw [htree] at hi
  rw [d.sees i hi, regionMember_congr hhost (htree ▸ .refl t.tree) (by rw [htree])]

theorem Drawn.of_look (h : Drawn layout c s) (hhost : t.host = s.host) (htree : t.tree = s.tree)
    (hlook : ∀ e, ((t.regions c).get e).map Region.look = ((s.regions c).get e).map Region.look)
    (hgeometry : ∀ e, ((t.regions c).get e).map Region.geometry =
      ((s.regions c).get e).map Region.geometry)
    (hcenter : (t.regions c).centerRect = (s.regions c).centerRect) : Drawn layout c t := by
  obtain ⟨d⟩ := h.drawing
  exact ⟨h.drawable.of_sameShape hhost (htree ▸ .refl s.tree) (by rw [htree]),
    (Spares.of_look hhost htree hlook).kempt h.kempt,
    d.of_look hhost htree hlook hgeometry hcenter⟩

/-- A call that is not refused. -/
theorem spares_of_call (h : Drawn layout c s) (hrun : s.run (call.step c) = .ok (.ok (), s')) :
    Spares c (· = call) s s' ∧ Drawn layout c s' := by
  have hs := h.kempt
  cases does_step hrun with
  | rests hfinds =>
    obtain ⟨htree, hget, hcenter⟩ := hfinds.known hs.held
    have hregions : s'.regions c = _ := regions_eq ((hfinds.kept c).trans (if_pos rfl))
    have hlook : ∀ e, ((s'.regions c).get e).map Region.look =
        ((s.regions c).get e).map Region.look := fun e => by rw [hregions, hget]
    exact ⟨.of_look hfinds.host htree hlook, h.of_look hfinds.host htree hlook
      (fun e => by rw [hregions, hget]) (by rw [hregions, hcenter])⟩
  | @begins b t e r r' hfinds hname hr hchanges =>
    obtain ⟨htree, hget, hcenter⟩ := hfinds.known hs.held
    obtain ⟨hlook, hgeometry⟩ := hchanges.look_eq
    rw [hget] at hr
    -- only what the region waits for has changed
    have hsame : ∀ {α : Type} (g : Region → α), g r' = g r → ∀ f,
        (((t.changed c b e r' false).regions c).get f).map g = ((s.regions c).get f).map g := by
      intro α g hg f
      rw [regions_changed, Border.get_set, hget]
      split
      · next heq => rw [heq, hr, Option.map_some, Option.map_some, hg]
      · rfl
    refine ⟨.of_look hfinds.host htree (hsame _ hlook),
      h.of_look hfinds.host htree (hsame _ hlook) (hsame _ hgeometry) ?_⟩
    rw [regions_changed, ← hcenter]
    cases e <;> rfl
  | @lays _ _ _ _ _ _ _ laid _ hfinds hname hr hchanges hlayout hsilent =>
    have hlinked := h.drawable.forest.toLinked
    rw [(hfinds.known hs.held).2.1] at hr
    have hcalled := spares_changed hs hfinds hr hchanges hlinked h.drawable.not_mem_children hname
    have hkempt := kempt_changed hs hfinds hr hchanges hlinked
    obtain ⟨hpassed, hlaid⟩ := spares_of_layout
      (h.drawable.of_sameShape hcalled.host hcalled.shape hcalled.own) hkempt hlayout
    have hregions : s'.regions c = laid.regions c := regions_congr (by rw [hsilent.kept])
    refine ⟨(hcalled.trans (hpassed.mono fun _ => False.elim)).trans
      (.of_look hsilent.host hsilent.tree fun e => ?_), hlaid.of_look hsilent.host hsilent.tree
        (fun e => ?_) (fun e => ?_) ?_⟩
    all_goals rw [hregions]

/-- Turns of which none is refused. -/
theorem spares_of_turns {turns : List BorderTurn} (h : Drawn layout c s)
    (hrun : s.run (turns.forM (BorderTurn.step c)) = .ok (.ok (), s')) :
    Spares c (fun call => .call call ∈ turns) s s' ∧ Drawn layout c s' := by
  induction turns generalizing s with
  | nil =>
    cases hrun
    exact ⟨.refl c _ s', h⟩
  | cons turn turns ih =>
    obtain ⟨e, -, hrefused⟩ | ⟨mid, hturn, hrest⟩ := run_forM_cons_eq_ok hrun
    · cases hrefused
    have hfirst : Spares c (fun call => .call call ∈ turn :: turns) s mid ∧
        Drawn layout c mid := by
      cases turn with
      | layout =>
        obtain ⟨hspares, hdrawn⟩ := spares_of_layout h.drawable h.kempt hturn
        exact ⟨hspares.mono fun _ => False.elim, hdrawn⟩
      | call call =>
        obtain ⟨hspares, hdrawn⟩ := spares_of_call h hturn
        refine ⟨hspares.mono ?_, hdrawn⟩
        rintro _ rfl
        exact List.mem_cons_self
    obtain ⟨hspares, hdrawn⟩ := ih hfirst.2 hrest
    exact ⟨hfirst.1.trans (hspares.mono fun _ => List.mem_cons_of_mem turn), hdrawn⟩

/-! ## What is seen of a container -/

/-- The same is seen of a container and its regions: its visible children and where they are, where
the center is, and where each region, its placeholder and its splitter are. -/
structure SameGeometry (c : ComponentId) (s t : Scene) : Prop where
  children : t.tree.visibleChildren c = s.tree.visibleChildren c
  rects : ∀ i ∈ s.tree.visibleChildren c, t.tree.rect? i = s.tree.rect? i
  center : (t.regions c).centerRect = (s.regions c).centerRect
  regions : ∀ e, ((t.regions c).get e).map Region.geometry =
    ((s.regions c).get e).map Region.geometry

/-- The states and the sizes of the regions of a container. -/
def posture (s : Scene) (c : ComponentId) (e : Edge) : Option (RegionState × Option Int) :=
  ((s.regions c).get e).map fun r => (r.state, r.size)

instance (c : ComponentId) (s t : Scene) : Decidable (s.posture c = t.posture c) :=
  decidable_of_iff (∀ e ∈ Edge.all, s.posture c e = t.posture c e)
    ⟨fun h => funext fun e => h e e.mem_all, fun h e _ => congrFun h e⟩

/-- A visible component of a region, or the center, has been placed. -/
theorem Drawing.mem_placements (d : Drawing layout c s) (hs : Kempt c s) (hlinked : s.tree.Linked)
    {i : ComponentId} {name : RegionName} (hi : s.tree.holder c name = some i)
    (hvisible : s.tree.isVisible i = true) : i ∈ d.placements.map Placement.id := by
  obtain ⟨hcenter, hedges⟩ := Border.mem_ids_place d.placed
  cases hname : name.edge? with
  | none =>
    obtain rfl : name = .center := by cases name <;> first | rfl | cases hname
    rw [d.holds, Option.some.injEq] at hi
    exact hi ▸ hcenter
  | some e =>
    rw [← RegionName.region_of_edge? hname] at hi
    obtain ⟨r, hr, rfl⟩ := hs.exists_region hi
    have hmem := hs.mem_children hr
    have hshown : s.tree.isHidden r.component = false := by
      rw [hlinked.isHidden_child hmem, hvisible, Bool.not_true]
    have he := d.looks e
    rw [hr, Option.map_some] at he
    obtain ⟨q, hq, hsame⟩ := Option.map_eq_some_iff.1 he
    obtain ⟨hcomponent, hstate, -⟩ := Region.look_eq_iff.1 hsame
    rw [← hcomponent]
    obtain ⟨x, hx⟩ := hlinked.exists_child hmem
    have hflag : x.state.hidden = false := by simpa [Tree.isHidden, hx] using hshown
    refine hedges e q ⟨r.component, x.config, s.host.measure r.component x.config⟩ hq ?_ ?_
    · rw [hcomponent, d.sees _ hmem, regionMember, Tree.get_eq_ok.2 hx, Length.ok_bind, hflag]
      rfl
    · intro hcollapsed
      have hhidden := (hs.folded e r hr (by rw [← hstate, hcollapsed]; nofun)).2
        (hstate ▸ hcollapsed)
      rw [hshown] at hhidden
      cases hhidden

theorem Drawing.rect?_eq (d : Drawing layout c s) {p : Placement} (hp : p ∈ d.placements)
    {x : Component} (hx : s.tree.get? p.id = some x) : s.tree.rect? p.id = some p.rect := by
  rw [Tree.rect?, hx, Option.map_some, (d.shows p hp x hx).2]

section

variable (hs : Drawn layout c s) (ht : Drawn layout c t) (hst : Spares c made s₀ s)
  (hst' : Spares c made' s₀ t) (hposture : s.posture c = t.posture c)
  (hconceals : ∀ e, s₀.Conceals c e → (s.Conceals c e ↔ t.Conceals c e))

include hs ht hst hst' hposture

theorem look_eq_of_posture (e : Edge) :
    ((t.regions c).get e).map Region.look = ((s.regions c).get e).map Region.look := by
  have hheld : ((t.regions c).get e).map Region.component =
      ((s.regions c).get e).map Region.component := by
    rw [ht.kempt.held, hs.kempt.held, hst.holder_eq, hst'.holder_eq]
  have he := congrFun hposture e
  unfold posture at he
  cases hr : (s.regions c).get e with
  | none =>
    rw [hr, Option.map_none, Option.map_eq_none_iff] at hheld
    rw [hheld]
  | some r =>
    rw [hr, Option.map_some] at hheld he
    obtain ⟨q, hq, hcomponent⟩ := Option.map_eq_some_iff.1 hheld
    rw [hq, Option.map_some, Option.some.injEq, Prod.mk.injEq] at he
    rw [hq, Option.map_some, Option.map_some, Region.look_eq_iff.2
      ⟨hcomponent, he.1.symm, he.2.symm⟩]

include hconceals

/-- The same children are hidden. -/
theorem isHidden_eq_of_posture {i : ComponentId} (hi : i ∈ s₀.tree.children c) :
    t.tree.isHidden i = s.tree.isHidden i := by
  by_cases hholder : ∃ e : Edge, s₀.tree.holder c e.region = some i
  · obtain ⟨e, he⟩ := hholder
    have hsHolds := he
    rw [← hst.holder_eq] at hsHolds
    obtain ⟨r, hr, rfl⟩ := hs.kempt.exists_region hsHolds
    have hlook := look_eq_of_posture hs ht hst hst' hposture e
    rw [hr, Option.map_some] at hlook
    obtain ⟨q, hq, hsame⟩ := Option.map_eq_some_iff.1 hlook
    obtain ⟨hcomponent, hstate, -⟩ := Region.look_eq_iff.1 hsame
    rw [Bool.eq_iff_iff, ← hcomponent]
    by_cases hexpanded : r.state = .expanded
    · -- whether an expanded region conceals its component does not follow from its state
      have hsConceals : s.Conceals c e ↔ s.tree.isHidden r.component = true :=
        ⟨fun ⟨r', hr', _, h⟩ => by rw [hr] at hr'; cases hr'; exact h,
          fun h => ⟨r, hr, hexpanded, h⟩⟩
      have htConceals : t.Conceals c e ↔ t.tree.isHidden q.component = true :=
        ⟨fun ⟨q', hq', _, h⟩ => by rw [hq] at hq'; cases hq'; exact h,
          fun h => ⟨q, hq, hstate.trans hexpanded, h⟩⟩
      rw [← htConceals, hcomponent, ← hsConceals]
      exact ⟨fun h => (hconceals e (hst'.conceals e h)).2 h,
        fun h => (hconceals e (hst.conceals e h)).1 h⟩
    · rw [ht.kempt.folded e q hq (hstate ▸ hexpanded), hcomponent,
        hs.kempt.folded e r hr hexpanded, hstate]
  · rw [hst.flags i hi fun e _ _ _ he => hholder ⟨e, he⟩,
      hst'.flags i hi fun e _ _ _ he => hholder ⟨e, he⟩]

/-- Two scenes that calls have led to from the same one. -/
theorem sameGeometry_of_spares : SameGeometry c s t := by
  have hlook := look_eq_of_posture hs ht hst hst' hposture
  have hhost : t.host = s.host := hst'.host.trans hst.host.symm
  have hshape : s.tree.SameShape t.tree := hst.shape.symm.trans hst'.shape
  have hlinked := hs.drawable.forest.toLinked
  have hlinked' := ht.drawable.forest.toLinked
  have hchildren : t.tree.children c = s.tree.children c := congrFun hshape.children_eq.symm c
  have hvisible : ∀ i ∈ s.tree.children c, t.tree.isVisible i = s.tree.isVisible i := by
    intro i hi
    have hhidden := isHidden_eq_of_posture hs ht hst hst' hposture hconceals
      (hst.children_eq ▸ hi)
    rwa [hlinked.isHidden_child hi, hlinked'.isHidden_child (hchildren ▸ hi),
      Bool.not_inj_iff] at hhidden
  obtain ⟨d⟩ := hs.drawing
  obtain ⟨d'⟩ := ht.drawing
  have hholder : t.tree.holder c = s.tree.holder c := hst'.holder_eq.trans hst.holder_eq.symm
  obtain ⟨hplacements, hcenter, hgeometry⟩ := d.again d' hs.kempt hholder hchildren
    (hs.drawable.steady.content_eq hhost hshape (hst.own.symm.trans hst'.own) layout) hlook
    fun name i hi => regionMember_congr hhost.symm hshape
      (hvisible i (Tree.mem_of_holder hi).1).symm
  refine ⟨?_, fun i hi => ?_, hcenter, hgeometry⟩
  · unfold Tree.visibleChildren
    rw [hchildren]
    exact List.filter_congr hvisible
  · obtain ⟨hmem, hshown⟩ := List.mem_filter.1 hi
    by_cases hregion : ∃ name, s.tree.holder c name = some i
    · obtain ⟨name, hname⟩ := hregion
      obtain ⟨p, hp, rfl⟩ := List.mem_map.1 (d.mem_placements hs.kempt hlinked hname hshown)
      obtain ⟨x, hx⟩ := hlinked.exists_child hmem
      obtain ⟨y, hy⟩ := hlinked'.exists_child (hchildren ▸ hmem)
      rw [d.rect?_eq hp hx, d'.rect?_eq (hplacements ▸ hp) hy]
    · have hnone : ∀ name, s₀.tree.holder c name ≠ some i := by
        rw [← hst.holder_eq]
        exact fun name hname => hregion ⟨name, hname⟩
      have hstart : i ∈ s₀.tree.children c := hst.children_eq ▸ hmem
      rw [hst.rects i hstart hnone, hst'.rects i hstart hnone]

end

/-! ## One region at a time -/

/-- A region that is not called on goes on concealing its component. -/
theorem Spares.still_conceals (h : Spares c made s t) (hs : Kempt c s)
    (hcalls : ∀ call, made call → call.region ≠ e.region) (he : s.Conceals c e) :
    t.Conceals c e := by
  obtain ⟨r, hr, hstate, hhidden⟩ := he
  have hlook := h.looks e hcalls
  rw [hr, Option.map_some] at hlook
  obtain ⟨q, hq, hsame⟩ := Option.map_eq_some_iff.1 hlook
  obtain ⟨hcomponent, hstates, -⟩ := Region.look_eq_iff.1 hsame
  refine ⟨q, hq, hstates.trans hstate, ?_⟩
  rw [hcomponent, h.flags _ (hs.mem_children hr), hhidden]
  intro f call hcall hregion hholds
  exact hcalls call hcall (hregion.trans (Tree.holder_injective hholds (hs.holds hr)))

/-- One region has been called on, its splitter has not been moved, and it is in the state that it
was in before. -/
theorem Spares.posture_eq (h : Spares c made s t)
    (hcalls : ∀ call, made call → call.region = e.region ∧ ∀ n, call ≠ .splitMove e.region n)
    (hstate : ((t.regions c).get e).map Region.state = ((s.regions c).get e).map Region.state) :
    s.posture c = t.posture c := by
  funext f
  by_cases hf : f = e
  · subst hf
    have hsize := h.sizes f fun n hcall => (hcalls _ hcall).2 n rfl
    unfold posture
    cases hr : (s.regions c).get f with
    | none =>
      rw [hr, Option.map_none, Option.map_eq_none_iff] at hstate
      rw [hstate]
    | some r =>
      rw [hr, Option.map_some] at hstate hsize
      obtain ⟨q, hq, hsame⟩ := Option.map_eq_some_iff.1 hstate
      rw [hq, Option.map_some, Option.some.injEq] at hsize
      rw [hq, Option.map_some, Option.map_some, hsame, hsize]
  · have hlook := h.looks f fun call hcall hregion =>
      hf (Edge.region_injective (hregion.symm.trans (hcalls call hcall).1))
    have hposture := congrArg (Option.map Prod.snd) hlook
    rw [Option.map_map, Option.map_map] at hposture
    exact hposture.symm

/-- What is called on one region can be taken back. -/
theorem sameGeometry_of_restored (hs : Drawn layout c s) (ht : Drawn layout c t)
    (h : Spares c made s t)
    (hcalls : ∀ call, made call → call.region = e.region ∧ ∀ n, call ≠ .splitMove e.region n)
    (hstate : ((t.regions c).get e).map Region.state = ((s.regions c).get e).map Region.state)
    (hshown : ¬ s.Conceals c e) : SameGeometry c s t := by
  refine sameGeometry_of_spares hs ht (.refl c made s) h (h.posture_eq hcalls hstate)
    fun f hf => iff_of_true hf (h.still_conceals hs.kempt (fun call hcall hregion => ?_) hf)
  have heq := Edge.region_injective (hregion.symm.trans (hcalls call hcall).1)
  exact hshown (heq ▸ hf)

end Scene

/-- What a border layout shows does not depend on how its regions came to be as they are. A border
container is laid out for the first time; its children, its size and what the host measures stay,
and the host does not keep it from being laid out. Then it is laid out and its regions are called on
in two ways, without a refusal. If all regions have come to the same states and sizes, and those
that have concealed their component while expanded from the beginning conceal it after both ways or
after neither, then the same is seen of the container: its visible children and their rectangles,
the center's rectangle, and rectangle, placeholder and splitter of each region. Likewise a collapse
and an expansion that put a region back into its state put everything back in its place, provided
that the region showed its component before. -/
theorem border_geometry_has_no_memory {s s₀ s₁ s₂ : Scene} {c : ComponentId} {layout : LayoutConfig}
    {turns₁ turns₂ : List BorderTurn} (hforest : s.tree.Forest)
    (hlayout : s.tree.layoutOf c = .ok layout) (hborder : layout.kind = .border)
    (hfresh : s.kept.get? c = none) (hheard : s.host.vetoed c .beforeLayout = false)
    (hsteady : s.Steady c) (hfirst : s.run (Step.layout c) = .ok (.ok (), s₀))
    (h₁ : s₀.run (turns₁.forM (BorderTurn.step c)) = .ok (.ok (), s₁))
    (h₂ : s₀.run (turns₂.forM (BorderTurn.step c)) = .ok (.ok (), s₂)) :
    (s₁.posture c = s₂.posture c →
      (∀ e, s₀.Conceals c e → (s₁.Conceals c e ↔ s₂.Conceals c e)) →
      Scene.SameGeometry c s₁ s₂) ∧
    ∀ (e : Edge) (s₃ : Scene),
      s₁.run ([.call (.collapse e.region false), .call (.expand e.region false)].forM
        (BorderTurn.step c)) = .ok (.ok (), s₃) →
      ((s₃.regions c).get e).map Region.state = ((s₁.regions c).get e).map Region.state →
      ¬ s₁.Conceals c e → Scene.SameGeometry c s₁ s₃ := by
  have hnone : ∀ e, (s.regions c).get e = none := by
    intro e
    rw [Scene.regions, hfresh]
    cases e <;> rfl
  have h₀ := Scene.drawn_of_first_layout ⟨hforest, hlayout, hborder, hheard, hsteady⟩ hnone hfirst
  obtain ⟨hspares₁, hdrawn₁⟩ := Scene.spares_of_turns h₀ h₁
  obtain ⟨hspares₂, hdrawn₂⟩ := Scene.spares_of_turns h₀ h₂
  refine ⟨fun hposture hconceals => ?_, fun e s₃ h₃ hstate hshown => ?_⟩
  · exact Scene.sameGeometry_of_spares hdrawn₁ hdrawn₂ hspares₁ hspares₂ hposture hconceals
  · obtain ⟨hspares₃, hdrawn₃⟩ := Scene.spares_of_turns hdrawn₁ h₃
    refine Scene.sameGeometry_of_restored hdrawn₁ hdrawn₃ hspares₃ (fun call hcall => ?_) hstate
      hshown
    simp only [List.mem_cons, BorderTurn.call.injEq, List.not_mem_nil, or_false] at hcall
    rcases hcall with rfl | rfl <;> exact ⟨rfl, fun n heq => by cases heq⟩

section

/-- A window with a side pane that can collapse, and the page beside it. -/
private def sidePane (pane : ItemConfig) : Scene :=
  .ofTree ((Tree.ofDescription (.node { layout := some { kind := .border } }
    [.node pane [], .node { region := some .center } []])).applyRect 0 ⟨0, 0, 200, 100⟩) .standard

private theorem forest_sidePane (pane : ItemConfig) : (sidePane pane).tree.Forest :=
  (Tree.sameShape_applyRect _ 0 _).forest (Tree.nested_ofDescription _).forest

private def widePane : ItemConfig :=
  { region := some .west, width := some 40, collapsible := true, split := true }

/-- The splitter is moved; then the pane collapses, is shown over the page and put back, and
expands. -/
private def splitFirst : List BorderTurn :=
  [.call (.splitMove .west 60), .call (.collapse .west false), .call (.slideOut .west),
    .call (.slideIn .west), .call (.expand .west false)]

/-- The pane collapses with an animation and expands; then the splitter is moved. -/
private def splitLast : List BorderTurn :=
  [.call (.collapse .west true), .call (.completeAnimation .west), .call (.expand .west false),
    .call (.splitMove .west 60)]

private def paneBack : List BorderTurn :=
  [.call (.collapse .west false), .call (.expand .west false)]

theorem side_pane_goes_back_to_its_place :
    ∃ s₀ s₁ s₂ s₃, (sidePane widePane).run (Step.layout 0) = .ok (.ok (), s₀) ∧
      s₀.run (splitFirst.forM (BorderTurn.step 0)) = .ok (.ok (), s₁) ∧
      s₀.run (splitLast.forM (BorderTurn.step 0)) = .ok (.ok (), s₂) ∧
      s₁.run (paneBack.forM (BorderTurn.step 0)) = .ok (.ok (), s₃) ∧
      s₁.posture 0 .west = some (.expanded, some 60) ∧ Scene.SameGeometry 0 s₁ s₂ ∧
      Scene.SameGeometry 0 s₁ s₃ := by
  obtain ⟨⟨⟩, s₀, h₀, hview⟩ := Scene.run_of_viewAfter
    (show (sidePane widePane).viewAfter (Step.layout 0) (fun s₀ =>
        (decide (∀ e ∈ Edge.all, ¬ s₀.Conceals 0 e),
          s₀.viewAfter (splitFirst.forM (BorderTurn.step 0)) fun s₁ =>
            (decide (s₁.posture 0 .west = some (.expanded, some 60) ∧ ¬ s₁.Conceals 0 .west),
              s₀.viewAfter (splitLast.forM (BorderTurn.step 0)) fun s₂ =>
                decide (s₁.posture 0 = s₂.posture 0),
              s₁.viewAfter (paneBack.forM (BorderTurn.step 0)) fun s₃ =>
                decide (s₁.posture 0 = s₃.posture 0)))) =
      some (true, some (true, some true, some true)) by decide +kernel)
  simp only [Prod.mk.injEq, decide_eq_true_iff] at hview
  obtain ⟨hshown, hview⟩ := hview
  obtain ⟨⟨⟩, s₁, h₁, hview⟩ := Scene.run_of_viewAfter hview
  simp only [Prod.mk.injEq, decide_eq_true_iff] at hview
  obtain ⟨⟨hwest, hbare⟩, hview₂, hview₃⟩ := hview
  obtain ⟨⟨⟩, s₂, h₂, hsame⟩ := Scene.run_of_viewAfter hview₂
  obtain ⟨⟨⟩, s₃, h₃, hback⟩ := Scene.run_of_viewAfter hview₃
  have hmain := border_geometry_has_no_memory (forest_sidePane widePane) rfl rfl rfl rfl
    (Scene.steady_of_ownSize rfl 0) h₀ h₁ h₂
  refine ⟨s₀, s₁, s₂, s₃, h₀, h₁, h₂, h₃, hwest, ?_, ?_⟩
  · exact hmain.1 (of_decide_eq_true hsame) fun e he => absurd he (hshown e e.mem_all)
  · refine hmain.2 .west s₃ h₃ ?_ hbare
    have hstate := congrArg (Option.map Prod.fst) (congrFun (of_decide_eq_true hback) .west)
    unfold Scene.posture at hstate
    rw [Option.map_map, Option.map_map] at hstate
    exact hstate.symm

end

section

/-- The same window, but the pane is hidden from the beginning. -/
private def hiddenPane : ItemConfig :=
  { region := some .west, width := some 40, collapsible := true, hidden := true }

/-- An expanded region whose component is hidden takes no space; once it has collapsed and expanded
again it does. -/
theorem hidden_pane_comes_into_sight :
    (sidePane hiddenPane).tree.Forest ∧ (sidePane hiddenPane).Bordered 0 ∧
    (sidePane hiddenPane).kept.get? 0 = none ∧
    (sidePane hiddenPane).host.vetoed 0 .beforeLayout = false ∧ (sidePane hiddenPane).Steady 0 ∧
    ∃ s₀ s₁, (sidePane hiddenPane).run (Step.layout 0) = .ok (.ok (), s₀) ∧
      s₀.run (paneBack.forM (BorderTurn.step 0)) = .ok (.ok (), s₁) ∧
      s₀.posture 0 = s₁.posture 0 ∧ ¬ Scene.SameGeometry 0 s₀ s₁ := by
  obtain ⟨⟨⟩, s₀, h₀, hview⟩ := Scene.run_of_viewAfter
    (show (sidePane hiddenPane).viewAfter (Step.layout 0) (fun s₀ =>
        (s₀.tree.visibleChildren 0, s₀.viewAfter (paneBack.forM (BorderTurn.step 0)) fun s₁ =>
          (decide (s₀.posture 0 = s₁.posture 0), s₁.tree.visibleChildren 0))) =
      some ([2], some (true, [1, 2])) by decide +kernel)
  simp only [Prod.mk.injEq] at hview
  obtain ⟨hchildren, hview⟩ := hview
  obtain ⟨⟨⟩, s₁, h₁, hview⟩ := Scene.run_of_viewAfter hview
  simp only [Prod.mk.injEq] at hview
  obtain ⟨hposture, hchildren'⟩ := hview
  refine ⟨forest_sidePane hiddenPane, ⟨_, rfl, rfl⟩, rfl, rfl, Scene.steady_of_ownSize rfl 0, s₀,
    s₁, h₀, h₁, ?_, fun hsame => ?_⟩
  · exact of_decide_eq_true hposture
  · have hsameChildren := hsame.children
    rw [hchildren, hchildren'] at hsameChildren
    cases hsameChildren

end

end Trellis
