import Trellis.Engine
import Trellis.Proofs.Histories.Shown
import Trellis.Proofs.Passes.Writes
import Trellis.Proofs.Sizes.Nonneg

/-!
# No layout leaves a negative size

From a scene in which no size is negative, a layout leaves one in which none is, whether it goes
through or is refused. What a step hands on matters for the steps after it: a child is seen with
settings and a measured size that are not negative, and regions with such thicknesses.

* `Scene.Nonneg`: no component has a negative size, and nothing that layouts read gives it one.
* `Step.Yields`: the step leaves such a scene, and its result is as told; `Yields.bind`: one step
  after another.
* `safe_arrange`: one case for each kind of layout.
-/
namespace Trellis

/-! ## Trees -/

namespace Tree

/-- No component has a rectangle of negative size. -/
def RectsNonneg (t : Tree) : Prop := ∀ i c, t.get? i = some c → c.state.rect.size.Nonneg

namespace RectsNonneg

variable {t : Tree}

theorem modifyState (h : t.RectsNonneg) (id : ComponentId) {f : ComponentState → ComponentState}
    (hf : ∀ s, s.rect.size.Nonneg → (f s).rect.size.Nonneg) : (t.modifyState id f).RectsNonneg := by
  intro i c hc
  rw [get?_modifyState] at hc
  split at hc
  · obtain ⟨d, hd, rfl⟩ := Option.map_eq_some_iff.1 hc
    exact hf d.state (h i d hd)
  · exact h i c hc

theorem applyRect (h : t.RectsNonneg) (id : ComponentId) {rect : Rect}
    (hrect : rect.size.Nonneg) : (t.applyRect id rect).RectsNonneg :=
  h.modifyState id fun _ _ => hrect

theorem applyPlacements (h : t.RectsNonneg) {placements : List Placement}
    (hplacements : ∀ p ∈ placements, p.rect.size.Nonneg) :
    (t.applyPlacements placements).RectsNonneg :=
  List.foldlRecOn placements _ h fun _ ht p hp => ht.applyRect p.id (hplacements p hp)

theorem setHiddens (h : t.RectsNonneg) (ids : List ComponentId) (hidden : ComponentId → Bool) :
    (ids.foldl (fun t id => t.setHidden id (hidden id)) t).RectsNonneg :=
  List.foldlRecOn ids _ h fun _ ht id _ => ht.modifyState id fun _ hs => hs

theorem applyAll (h : t.RectsNonneg) {placed : List Anchored.Placed}
    (hplaced : ∀ p ∈ placed, p.field.size.Nonneg) : (Anchored.applyAll t placed).RectsNonneg :=
  List.foldlRecOn placed _ h fun _ ht p hp =>
    (ht.applyRect p.id (hplaced p hp)).modifyState p.id fun _ hs => hs

theorem renderChildren (h : t.RectsNonneg) (container : ComponentId) :
    (t.renderChildren container).RectsNonneg :=
  List.foldlRecOn _ _ h fun _ ht id _ => ht.modifyState id fun _ hs => hs

end RectsNonneg

end Tree

/-- If regions are kept, none of them has a negative thickness. -/
def Arrangement.Nonneg : Arrangement → Prop
  | .border b => b.Nonneg
  | _ => True

theorem Arrangement.nonneg_fresh (layout : LayoutConfig) : (Arrangement.fresh layout).Nonneg := by
  unfold fresh
  cases layout.kind with
  | border =>
    intro e r hr
    cases e <;> cases hr
  | _ => exact trivial

/-- No component has a negative size, and nothing that layouts read gives it one. -/
structure Scene.Nonneg (s : Scene) : Prop where
  configs : ∀ i c, s.tree.config? i = some c → c.Nonneg
  measures : ∀ i c, s.tree.config? i = some c → (s.host.measure i c).Nonneg
  rects : s.tree.RectsNonneg
  kept : ∀ d a, s.kept.get? d = some a → a.Nonneg

/-- A component is measured, and its settings are read, without a negative length. -/
theorem Scene.Nonneg.member {s : Scene} (hs : s.Nonneg) {id : ComponentId} {c : Component}
    (hc : s.tree.get id = .ok c) : Member.Nonneg ⟨id, c.config, s.host.measure id c.config⟩ := by
  have hconfig : s.tree.config? id = some c.config := by
    rw [Tree.config?, Tree.get_eq_ok.1 hc, Option.map_some]
  exact ⟨hs.configs id c.config hconfig, hs.measures id c.config hconfig⟩

/-! ## Steps -/

/-- From a scene without negative sizes, the step leaves one, however it ends; what it gives is as
`Q` says. -/
def Step.Yields {α : Type} (x : Step α) (Q : α → Prop) : Prop :=
  ∀ ⦃s s' : Scene⦄ ⦃r : Except LayoutError α⦄, s.Nonneg → s.run x = .ok (r, s') →
    s'.Nonneg ∧ ∀ a, r = .ok a → Q a

/-- From a scene without negative sizes, the step leaves one, however it ends. -/
abbrev Step.Safe {α : Type} (x : Step α) : Prop := x.Yields fun _ => True

namespace Step

open Scene

variable {α β : Type} {x : Step α} {Q R : α → Prop} {container : ComponentId}
  {layout : LayoutConfig}

theorem Yields.bind {f : α → Step β} {S : β → Prop} (hx : x.Yields Q)
    (hf : ∀ a, Q a → (f a).Yields S) : (x >>= f).Yields S := by
  intro s s' r hs h
  rw [run_bind, Length.bind_eq_ok] at h
  obtain ⟨⟨_ | a, mid⟩, hfirst, h⟩ := h
  · cases h
    exact ⟨(hx hs hfirst).1, fun _ heq => nomatch heq⟩
  · obtain ⟨hmid, ha⟩ := hx hs hfirst
    exact hf a (ha a rfl) hmid h

theorem Yields.mono (hx : x.Yields Q) (hQR : ∀ a, Q a → R a) : x.Yields R := by
  intro s s' r hs h
  obtain ⟨hs', ha⟩ := hx hs h
  exact ⟨hs', fun a heq => hQR a (ha a heq)⟩

theorem Yields.safe (hx : x.Yields Q) : x.Safe := hx.mono fun _ _ => trivial

theorem yields_pure {a : α} (ha : Q a) : (pure a : Step α).Yields Q := by
  intro s s' r hs h
  cases h
  exact ⟨hs, fun b heq => by cases heq; exact ha⟩

theorem yields_throw (e : LayoutError) : (throw e : Step α).Yields Q := by
  intro s s' r hs h
  cases h
  exact ⟨hs, fun _ heq => nomatch heq⟩

theorem yields_get : (get : Step Scene).Yields Scene.Nonneg := by
  intro s s' r hs h
  cases h
  exact ⟨hs, fun b heq => by cases heq; exact hs⟩

theorem safe_tree : Step.tree.Safe := yields_get.safe.bind fun _ _ => yields_pure trivial

theorem yields_check {y : Checked α} (hy : ∀ a, y = .ok a → Q a) : (check y).Yields Q := by
  intro s s' r hs h
  rw [run_check] at h
  obtain ⟨a, ha, h⟩ := Length.bind_eq_ok.1 h
  cases h
  exact ⟨hs, fun b heq => by cases heq; exact hy a ha⟩

theorem safe_check (y : Checked α) : (check y).Safe := yields_check fun _ _ => trivial

theorem yields_draft {y : Draft α} (hy : ∀ a, y.run.value = .ok a → Q a) :
    (draft y).Yields Q := by
  intro s s' r hs h
  rw [run_draft] at h
  obtain ⟨a, ha, h⟩ := Length.bind_eq_ok.1 h
  cases h
  exact ⟨⟨hs.configs, hs.measures, hs.rects, hs.kept⟩, fun b heq => by cases heq; exact hy a ha⟩

theorem safe_draft (y : Draft α) : (draft y).Safe := yields_draft fun _ _ => trivial

theorem yields_noted {y : Noted α} (hy : Q y.value) : (draft (y : Draft α)).Yields Q :=
  yields_draft fun a ha => by cases ha; exact hy

/-- A change that only the host and the timers see. -/
theorem safe_silent {s t : Scene} (h : Silent s t) (hs : s.Nonneg) : t.Nonneg := by
  refine ⟨?_, ?_, ?_, ?_⟩
  · rw [h.tree]
    exact hs.configs
  · rw [h.tree, h.host]
    exact hs.measures
  · rw [h.tree]
    exact hs.rects
  · rw [h.kept]
    exact hs.kept

theorem safe_notify (id : ComponentId) (e : Event) : (notify id e).Safe := by
  intro s s' r hs h
  rw [run_notify_eq] at h
  cases h
  exact ⟨safe_silent (s.silent_told id e) hs, fun _ _ => trivial⟩

theorem safe_modify {f : Scene → Scene} (hf : ∀ s, Silent s (f s)) :
    (modify f : Step PUnit).Safe := by
  intro s s' r hs h
  cases h
  exact ⟨safe_silent (hf s) hs, fun _ _ => trivial⟩

theorem safe_modifyTree {f : Tree → Tree} (hshape : ∀ t : Tree, t.SameShape (f t))
    (hrects : ∀ t : Tree, t.RectsNonneg → (f t).RectsNonneg) : (modifyTree f).Safe := by
  intro s s' r hs h
  cases h
  have hconfig : (f s.tree).config? = s.tree.config? := (hshape s.tree).config?_eq.symm
  refine ⟨⟨?_, ?_, hrects s.tree hs.rects, hs.kept⟩, fun _ _ => trivial⟩
  · exact fun i c hc => hs.configs i c (hconfig ▸ hc)
  · exact fun i c hc => hs.measures i c (hconfig ▸ hc)

theorem safe_keep (d : ComponentId) {a : Arrangement} (ha : a.Nonneg) : (keep d a).Safe := by
  intro s s' r hs h
  cases h
  refine ⟨⟨hs.configs, hs.measures, hs.rects, fun i k hk => ?_⟩, fun _ _ => trivial⟩
  rw [IdMap.get?_insert] at hk
  split at hk
  · cases hk
    exact ha
  · exact hs.kept i k hk

theorem safe_targetSize (id : ComponentId) : (targetSize id).Safe :=
  yields_get.bind fun _ _ => safe_check _

theorem yields_mapM {f : β → Step α} (hf : ∀ b, (f b).Yields Q) (bs : List β) :
    (bs.mapM f).Yields fun as => ∀ a ∈ as, Q a := by
  induction bs with
  | nil => exact yields_pure fun _ ha => nomatch ha
  | cons b bs ih =>
    rw [List.mapM_cons]
    refine (hf b).bind fun a ha => ih.bind fun as has => yields_pure fun a' ha' => ?_
    rcases List.mem_cons.1 ha' with rfl | ha'
    · exact ha
    · exact has a' ha'

theorem safe_forM {f : ComponentId → Step Unit} (hf : ∀ i, (f i).Safe) (is : List ComponentId) :
    (is.forM f).Safe := by
  induction is with
  | nil => exact yields_pure trivial
  | cons i is ih => exact (hf i).bind fun _ _ => ih

theorem yields_member (id : ComponentId) : (member id).Yields Member.Nonneg := by
  intro s s' r hs h
  rw [run_member] at h
  obtain ⟨m, hm, h⟩ := Length.bind_eq_ok.1 h
  cases h
  obtain ⟨c, hc, hm⟩ := Length.bind_eq_ok.1 hm
  cases hm
  exact ⟨hs, fun m' heq => by cases heq; exact hs.member hc⟩

theorem yields_members (id : ComponentId) :
    (members id).Yields fun ms => ∀ m ∈ ms, m.Nonneg :=
  safe_tree.bind fun _ _ => yields_mapM yields_member _

theorem safe_contentBox (layout : LayoutConfig) (id : ComponentId) :
    (contentBox layout id).Safe :=
  (safe_targetSize id).bind fun _ _ => safe_draft _

theorem safe_apply {placements : List Placement}
    (h : ∀ p ∈ placements, p.rect.size.Nonneg) : (apply placements).Safe :=
  safe_modifyTree (fun t => t.sameShape_applyPlacements placements) fun _ ht =>
    ht.applyPlacements h

/-! ## Layouts -/

theorem safe_placing {place : Rect → List Framed → Checked (List Placement)}
    (hplace : ∀ content framed placements, (∀ f ∈ framed, f.member.Nonneg) →
      place content framed = .ok placements → ∀ p ∈ placements, p.rect.size.Nonneg) :
    (placing layout container place).Safe := by
  refine (safe_contentBox layout container).bind fun content _ =>
    (yields_members container).bind fun members hmembers =>
    (yields_noted (Q := fun framed => ∀ f ∈ framed, f.member.Nonneg) ?_).bind fun framed hframed =>
    (yields_check (hplace content framed · hframed)).bind fun placements hplacements =>
    safe_apply hplacements
  intro f hf
  rw [Noted.value_mapM] at hf
  obtain ⟨m, hm, rfl⟩ := List.mem_map.1 hf
  exact hmembers m hm

theorem safe_fill (child : ComponentId) : (Fill.fill layout container child).Safe := by
  refine (safe_contentBox layout container).bind fun content _ =>
    (yields_member child).bind fun m _ =>
    (yields_draft (Q := fun p : Placement => p.rect.size.Nonneg) fun p hp => ?_).bind fun p hp =>
    safe_apply fun q hq => ?_
  · simp only [Fill.place, Draft.value_bind, Draft.value_noted, Draft.value_checked,
      Length.ok_bind] at hp
    obtain ⟨rect, hrect, hp⟩ := Length.bind_eq_ok.1 hp
    cases hp
    exact Rect.nonneg_inset hrect
  · rw [List.mem_singleton.1 hq]
    exact hp

theorem safe_fit : (Fill.arrange layout container).Safe := by
  refine safe_tree.bind fun t _ => ?_
  cases t.visibleChildren container with
  | nil => exact yields_pure trivial
  | cons child _ => exact safe_fill child

theorem safe_cards (active : Option ComponentId) :
    (Fill.arrangeCards layout container active).Safe := by
  refine safe_tree.bind fun t _ => (safe_keep container ?_).bind fun _ _ =>
    (safe_modifyTree (fun u => ?_) fun u hu => hu.setHiddens _ _).bind fun _ _ => ?_
  · exact trivial
  · exact (Tree.agree_setHiddens (p := fun _ => False) u fun _ _ h => h).toSameShape
  · cases chooseActive (t.children container) active (t.resolve container layout.activeItem) with
    | none => exact yields_pure trivial
    | some card => exact safe_fill card

theorem safe_columns : (Columns.arrange layout container).Safe := by
  have hpass : (placing layout container Columns.placeRow).Safe :=
    safe_placing fun _ _ _ hframed hplace => Columns.nonneg_placeRow hframed hplace
  refine (safe_targetSize container).bind fun before _ => hpass.bind fun _ _ =>
    (safe_targetSize container).bind fun after _ => ?_
  split
  · exact hpass
  · exact yields_pure trivial

theorem safe_accordion (active : Option ComponentId) :
    (Accordion.arrange layout container active).Safe := by
  refine safe_tree.bind fun t _ => (safe_keep container ?_).bind fun _ _ =>
    (yields_members container).bind fun members hmembers =>
    (yields_noted (Q := fun requests : List (Box.Request Float) => ∀ r ∈ requests, r.Nonneg)
      ?_).bind fun requests hrequests =>
    (safe_targetSize container).bind fun available _ =>
    (safe_draft _).bind fun padding _ =>
    (yields_check (Q := fun solution : Box.Solution => ∀ rect ∈ solution.rects, rect.size.Nonneg)
      fun solution hsolve => Box.nonneg_solve Box.share_float_nonneg hrequests hsolve).bind
      fun solution hrects => safe_apply fun p hp => ?_
  · exact trivial
  · intro r hr
    rw [Noted.value_mapM] at hr
    obtain ⟨m, hm, rfl⟩ := List.mem_map.1 hr
    exact Accordion.nonneg_panelRequest (hmembers m hm) layout _
  · obtain ⟨⟨id, rect⟩, hmem, rfl⟩ := List.mem_map.1 hp
    exact hrects rect (List.of_mem_zip hmem).2

theorem safe_anchoredPass (a : Anchored) : (Anchored.pass layout container a).Safe := by
  refine (safe_contentBox layout container).bind fun content _ =>
    safe_tree.bind fun t _ =>
    (safe_check _).bind fun _ _ =>
    (yields_members container).bind fun members _ =>
    (yields_draft (Q := fun ap : Anchored × List Anchored.Placed =>
      ∀ p ∈ ap.2, p.field.size.Nonneg) fun ap h => Anchored.nonneg_placeFrom h).bind
      fun ap hplaced =>
    (safe_keep container ?_).bind fun _ _ =>
    (safe_modifyTree (fun t => ?_) fun t ht => ht.applyAll hplaced).bind fun _ _ =>
    yields_pure trivial
  · exact trivial
  · exact (Anchored.agree_applyAll (q := fun _ => False) t fun _ _ h => h).toSameShape

theorem safe_anchored (a : Anchored) : (a.arrange layout container).Safe := by
  refine (safe_targetSize container).bind fun _ _ => (safe_anchoredPass a).bind fun b _ =>
    (safe_targetSize container).bind fun _ _ => ?_
  split
  · exact (safe_anchoredPass b).bind fun _ _ => yields_pure trivial
  · exact yields_pure trivial

theorem yields_syncBorder {b : Border} (hb : b.Nonneg) :
    (syncBorder container b).Yields Border.Nonneg := by
  refine Yields.bind (Q := fun _ => True) ?_ fun children _ =>
    (safe_draft _).bind fun _ _ =>
    (safe_modifyTree (fun t => t.sameShape_setHiddens _ true)
      fun t ht => ht.setHiddens _ fun _ => true).bind fun _ _ =>
    (safe_keep container ?_).bind fun _ _ => yields_pure (hb.sync children)
  · refine safe_tree.bind fun t _ => (yields_mapM (Q := fun _ => True) (fun id => ?_) _).safe
    exact (safe_check _).bind fun _ _ => yields_pure trivial
  · exact hb.sync children

/-- A region sees its component as any layout sees a child. -/
theorem nonneg_regionMember {s : Scene} (hs : s.Nonneg) (id : ComponentId) (m : Member)
    (hidden : Bool) (h : s.regionMember id = .ok (m, hidden)) : m.Nonneg := by
  obtain ⟨c, hc, h⟩ := Length.bind_eq_ok.1 h
  cases h
  exact hs.member hc

theorem safe_border {b : Border} (hb : b.Nonneg) : (arrangeBorder layout container b).Safe := by
  refine (yields_syncBorder hb).bind fun synced hsynced => ?_
  cases synced.center with
  | none => exact yields_throw _
  | some center =>
    exact (safe_contentBox layout container).bind fun content _ => yields_get.bind fun s hs =>
      (yields_draft fun bp h => Border.nonneg_place (nonneg_regionMember hs) hsynced h).bind
        fun bp hplaced => (safe_keep container (a := .border bp.1) hplaced.1).bind fun _ _ =>
      safe_apply hplaced.2

theorem yields_line (axis : Axis) (available : Size) :
    (Lines.line layout axis container available).Yields fun l =>
      ∀ rect ∈ l.solution.rects, rect.size.Nonneg := by
  refine (yields_members container).bind fun members hmembers =>
    (yields_noted (Q := fun requests : List (Box.Request Float) => ∀ r ∈ requests, r.Nonneg)
      ?_).bind fun requests hrequests =>
    (safe_draft _).bind fun padding _ => yields_check fun l hl => ?_
  · intro r hr
    rw [Noted.value_mapM] at hr
    obtain ⟨m, hm, rfl⟩ := List.mem_map.1 hr
    exact Member.nonneg_request (hmembers m hm) layout
  · obtain ⟨solution, hsolve, hl⟩ := Length.bind_eq_ok.1 hl
    cases hl
    exact Box.nonneg_solve Box.share_float_nonneg hrequests hsolve

theorem safe_conclude (handler next : Box.Handler) {final : Box.Line Float}
    (hfinal : ∀ rect ∈ final.solution.rects, rect.size.Nonneg) :
    (conclude container handler next final).Safe := by
  have hplaced : ∀ offset, (do apply (← check (Lines.place offset final)) : Step Unit).Safe :=
    fun offset => (yields_check fun _ h => Lines.nonneg_place hfinal h).bind fun _ h => safe_apply h
  refine (safe_check _).bind fun offset _ => ?_
  split
  · exact (safe_notify container _).bind fun _ _ => hplaced offset
  · exact hplaced offset

theorem safe_linear (l : Linear) : (Lines.arrange layout container l).Safe := by
  refine (safe_targetSize container).bind fun target _ =>
    (yields_line l.axis target).bind fun first hfirst => ?_
  cases l.overflow with
  | none => exact (yields_check fun _ h => Lines.nonneg_place hfirst h).bind fun _ h => safe_apply h
  | some handler =>
    refine safe_tree.bind fun t _ =>
      (safe_check _).bind fun reacted _ =>
      (safe_keep container ?_).bind fun _ _ =>
      (safe_modifyTree (fun u => ?_) fun u hu => ?_).bind fun _ _ => ?_
    · exact trivial
    · exact (u.sameShape_setHiddens _ true).trans (Tree.sameShape_setHiddens _ _ false)
    · exact (hu.setHiddens _ fun _ => true).setHiddens _ fun _ => false
    · change Safe
        (if (reacted.2.recalculate || decide (reacted.1.reserved ≠ .none)) = true then do
          let rest ← check (Lines.remaining l.axis target reacted.1.reserved)
          let final ← Lines.line layout l.axis container rest
          conclude container handler reacted.1 final
        else do
          let final ← pure first
          conclude container handler reacted.1 final)
      split
      · exact (safe_check _).bind fun rest _ => (yields_line l.axis rest).bind fun final hfinal =>
          safe_conclude handler reacted.1 hfinal
      · exact (yields_pure hfirst).bind fun final hfinal => safe_conclude handler reacted.1 hfinal

/-- No kind of layout leaves a negative size. -/
theorem safe_arrange {a : Arrangement} (ha : a.Nonneg) : (arrange layout container a).Safe := by
  cases a with
  | auto => exact safe_placing fun _ _ _ hframed hplace => Stack.nonneg_place hframed hplace
  | fit => exact safe_fit
  | column => exact safe_columns
  | table => exact safe_placing fun _ _ _ hframed hplace => Table.nonneg_placeAll hframed hplace
  | card active => exact safe_cards active
  | accordion active => exact safe_accordion active
  | anchored a => exact safe_anchored a
  | border b => exact safe_border ha
  | linear l => exact safe_linear l

end Step

end Trellis
