import Trellis.Proofs.Histories.Shown
import Trellis.Proofs.Relayout.Anchors

/-!
# Anchors that are kept

Anchored layouts remember two things between passes: the anchors that they have built for each
child, and for each anchor the length that it was asked for last, with the answer. Neither can be
seen in the rectangles. What an anchor remembers is what its formula gives, and as long as children
keep their settings, the formulas are those that would be built anew against the reference in
effect; the anchors from before there was one are dropped when it is first observed.

* `AnchorPair.StandsFor`: the anchors are those built for some settings, perhaps used since.
* `Anchored.Coherent`: all anchors that are kept are; `placed_congr`: the children are placed alike
  with any of them.
* `passes`: passes over a container, in one scene after another.
* `kept_anchors_unseen`: what holds of any number of passes and the next one.
-/
namespace Trellis

/-! ## Single anchors -/

namespace Anchor

variable {a : Anchor}

/-- What the anchor remembers is what its formula gives. -/
def Faithful (a : Anchor) : Prop :=
  ∀ input output, a.last = some (input, output) → output = a.formula.apply input

theorem faithful_fresh (formula : AnchorFormula) : (fresh formula).Faithful :=
  fun _ _ h => nomatch h

theorem Faithful.evaluate (h : a.Faithful) (container : Int) :
    (a.evaluate container).1 = a.formula.apply container ∧
      (a.evaluate container).2.formula = a.formula ∧ (a.evaluate container).2.Faithful := by
  have hasked : (⟨a.formula, some (container, a.formula.apply container)⟩ : Anchor).Faithful := by
    rintro input output ⟨⟩
    rfl
  unfold Anchor.evaluate
  cases hlast : a.last with
  | none => exact ⟨rfl, rfl, hasked⟩
  | some asked =>
    obtain ⟨input, output⟩ := asked
    dsimp only
    by_cases heq : input = container
    · rw [if_pos heq, ← heq]
      exact ⟨h input output hlast, rfl, h⟩
    · rw [if_neg heq]
      exact ⟨rfl, rfl, hasked⟩

end Anchor

/-! ## The anchors of a child -/

namespace AnchorPair

variable {p : AnchorPair} {config : ItemConfig} {reference : Option Int × Option Int}

def formulas (p : AnchorPair) : Option AnchorFormula × Option AnchorFormula :=
  (p.width.map Anchor.formula, p.height.map Anchor.formula)

/-- The lengths that formulas give for a container of the given content size. -/
def lengths (formulas : Option AnchorFormula × Option AnchorFormula) (content : Size) :
    Option Int × Option Int :=
  (formulas.1.map (·.apply content.width), formulas.2.map (·.apply content.height))

def Faithful (p : AnchorPair) : Prop :=
  (∀ a ∈ p.width, a.Faithful) ∧ ∀ a ∈ p.height, a.Faithful

theorem Faithful.evaluate (h : p.Faithful) (content : Size) :
    (p.evaluate content).1 = lengths p.formulas content ∧
      (p.evaluate content).2.formulas = p.formulas ∧ (p.evaluate content).2.Faithful := by
  have haxis : ∀ {o : Option Anchor} (n : Int), (∀ a ∈ o, a.Faithful) →
      (o.map (·.evaluate n)).map Prod.fst = (o.map Anchor.formula).map (·.apply n) ∧
        ((o.map (·.evaluate n)).map Prod.snd).map Anchor.formula = o.map Anchor.formula ∧
          ∀ a ∈ (o.map (·.evaluate n)).map Prod.snd, a.Faithful := by
    intro o n ho
    cases o with
    | none => exact ⟨rfl, rfl, fun _ h => nomatch h⟩
    | some a =>
      obtain ⟨hlength, hformula, hfaithful⟩ := (ho a rfl).evaluate n
      simpa [hlength, hformula] using hfaithful
  obtain ⟨hwidth, hwide, hwidest⟩ := haxis content.width h.1
  obtain ⟨hheight, hhigh, hhighest⟩ := haxis content.height h.2
  exact ⟨Prod.ext hwidth hheight, Prod.ext hwide hhigh, hwidest, hhighest⟩

theorem faithful_buildAxis {token : Option String} {initial reference : Option Int}
    {o : Option Anchor} (h : (buildAxis token initial reference).run.value = .ok o) :
    ∀ a ∈ o, a.Faithful := by
  cases token with
  | none =>
    cases h
    exact fun _ h => nomatch h
  | some token =>
    simp only [buildAxis, Anchor.build, Draft.value_bind, Draft.value_pure,
      Length.bind_eq_ok] at h
    obtain ⟨formula, -, h⟩ := h
    cases h
    intro a ha
    obtain ⟨f, -, rfl⟩ := Option.map_eq_some_iff.1 ha
    exact Anchor.faithful_fresh f

theorem faithful_build (h : (build config reference).run.value = .ok p) : p.Faithful := by
  unfold build at h
  cases hexpression : config.anchor with
  | none =>
    simp only [hexpression] at h
    cases h
    exact ⟨fun _ h => (nomatch h), fun _ h => (nomatch h)⟩
  | some expression =>
    simp only [hexpression, Draft.value_bind, Draft.value_pure, Length.bind_eq_ok] at h
    obtain ⟨width, hwidth, height, hheight, h⟩ := h
    cases h
    exact ⟨faithful_buildAxis hwidth, faithful_buildAxis hheight⟩

/-- The anchors have the formulas that are built for the settings, and remember what these give. -/
structure StandsFor (p : AnchorPair) (config : ItemConfig) (reference : Option Int × Option Int) :
    Prop where
  faithful : p.Faithful
  built : formulas <$> (build config reference).run.value = .ok p.formulas

theorem standsFor_build (h : (build config reference).run.value = .ok p) :
    p.StandsFor config reference := by
  refine ⟨faithful_build h, ?_⟩
  rw [h]
  rfl

theorem StandsFor.evaluate (h : p.StandsFor config reference) (content : Size) :
    (p.evaluate content).2.StandsFor config reference := by
  obtain ⟨-, hformulas, hfaithful⟩ := h.faithful.evaluate content
  exact ⟨hfaithful, by rw [hformulas, h.built]⟩

end AnchorPair

/-! ## The anchors of all children -/

namespace Anchored

variable {layout : LayoutConfig} {content : Rect} {reference : Option Int × Option Int}
  {a b : Anchored} {y : Int} {m : Member} {members : List Member} {pair : AnchorPair}
  {settings : ComponentId → Option ItemConfig} {placed : List Placed}

/-- The anchors that are kept are those built for the settings of the children. -/
def Coherent (settings : ComponentId → Option ItemConfig) (reference : Option Int × Option Int)
    (a : Anchored) : Prop :=
  ∀ i pair, a.anchors.get? i = some pair →
    ∃ config, settings i = some config ∧ pair.StandsFor config reference

/-- Without the anchors. -/
def emptied (a : Anchored) : Anchored := { a with anchors := .empty }

theorem coherent_emptied (a : Anchored) : a.emptied.Coherent settings reference :=
  fun _ _ h => nomatch h

namespace Coherent

variable (ha : a.Coherent settings reference) (hm : settings m.id = some m.config)

include ha hm

theorem standsFor (hpair : a.pairOf reference m = .ok pair) :
    pair.StandsFor m.config reference := by
  unfold pairOf at hpair
  cases hkept : a.anchors.get? m.id with
  | none =>
    rw [hkept] at hpair
    exact AnchorPair.standsFor_build hpair
  | some known =>
    rw [hkept] at hpair
    obtain ⟨config, hconfig, hstands⟩ := ha m.id known hkept
    rw [hm] at hconfig
    cases hconfig
    cases hpair
    exact hstands

/-- A child has the formulas that are built anew, or none can be built. -/
theorem formulas_pairOf : AnchorPair.formulas <$> a.pairOf reference m =
    AnchorPair.formulas <$> (AnchorPair.build m.config reference).run.value := by
  cases hkept : a.anchors.get? m.id with
  | none => rw [pairOf, hkept]
  | some known =>
    have hpair : a.pairOf reference m = .ok known := by rw [pairOf, hkept]
    rw [hpair, (ha.standsFor hm hpair).built]
    rfl

theorem remember (hpair : pair.StandsFor m.config reference) (content : Rect) :
    (a.remember content m pair).Coherent settings reference := by
  intro i known hknown
  rw [Anchored.remember, IdMap.get?_insert] at hknown
  split at hknown
  · next heq =>
    cases hknown
    exact ⟨m.config, by rw [heq, hm], hpair.evaluate content.size⟩
  · exact ha i known hknown

end Coherent

theorem Coherent.placeFrom (ha : a.Coherent settings reference)
    (hmembers : ∀ m ∈ members, settings m.id = some m.config)
    (h : (placeFrom layout content reference a y members).run.value = .ok (b, placed)) :
    b.Coherent settings reference := by
  induction members generalizing a y placed with
  | nil =>
    cases h
    exact ha
  | cons m rest ih =>
    obtain ⟨pair, p, y', others, hpair, -, -, hrest, -⟩ := placeFrom_cons_eq_ok h
    have hm := hmembers m (by simp)
    exact ih (ha.remember hm (ha.standsFor hm hpair) content)
      (fun m hm => hmembers m (List.mem_cons_of_mem _ hm)) hrest

/-- One more child is placed before the others, whatever anchors are kept. -/
theorem snd_placed_cons (field : Placed) (x : Checked (Anchored × List Placed)) :
    (Prod.snd <$> do
      let (b, others) ← x
      return (b, field :: others)) = (field :: ·) <$> Prod.snd <$> x := by
  cases x <;> rfl

/-- Whatever anchors are kept, the children are placed alike, or placing them is abandoned. -/
theorem placed_congr (ha : a.Coherent settings reference) (hb : b.Coherent settings reference)
    (hmode : b.mode = a.mode) (hmembers : ∀ m ∈ members, settings m.id = some m.config) (y : Int) :
    Prod.snd <$> (placeFrom layout content reference b y members).run.value =
      Prod.snd <$> (placeFrom layout content reference a y members).run.value := by
  induction members generalizing a b y with
  | nil => rfl
  | cons m rest ih =>
    have hm := hmembers m (by simp)
    have hformulas := (hb.formulas_pairOf hm).trans (ha.formulas_pairOf hm).symm
    rw [value_placeFrom_cons, value_placeFrom_cons]
    cases hp : a.pairOf reference m with
    | error fault =>
      cases hq : b.pairOf reference m with
      | error other =>
        rw [hp, hq] at hformulas
        cases hformulas
        rfl
      | ok q =>
        rw [hp, hq] at hformulas
        cases hformulas
    | ok p =>
      cases hq : b.pairOf reference m with
      | error other =>
        rw [hp, hq] at hformulas
        cases hformulas
      | ok q =>
        rw [hp, hq] at hformulas
        have hsame : q.formulas = p.formulas := Except.ok.inj hformulas
        have hpStands := ha.standsFor hm hp
        have hqStands := hb.standsFor hm hq
        rw [Length.ok_bind, Length.ok_bind, (hpStands.faithful.evaluate content.size).1,
          (hqStands.faithful.evaluate content.size).1, hsame, hmode]
        cases placeField a.mode layout content y (m.inFrame layout)
            (AnchorPair.lengths p.formulas content.size) with
        | error fault => rfl
        | ok field =>
          rw [Length.ok_bind, Length.ok_bind]
          cases lineBelow a.mode y (m.inFrame layout) field with
          | error fault => rfl
          | ok below =>
            have hrest := ih (ha.remember hm hpStands content) (hb.remember hm hqStands content)
              hmode (fun m hm => hmembers m (List.mem_cons_of_mem _ hm)) below
            rw [Length.ok_bind, Length.ok_bind, snd_placed_cons, snd_placed_cons, hrest]

end Anchored

/-! ## Passes -/

namespace Scene

variable {s s' : Scene} {layout : LayoutConfig} {c : ComponentId} {a b : Anchored} {content : Size}
  {sized : Bool} {settings : ComponentId → Option ItemConfig}

/-- The children that take part in layouts have these settings. -/
def HasSettings (settings : ComponentId → Option ItemConfig) (c : ComponentId) (s : Scene) : Prop :=
  ∀ i ∈ s.tree.visibleChildren c, s.tree.config? i = settings i

/-- The container has a size. -/
def Sized (s : Scene) (c : ComponentId) : Prop := (s.tree.get? c).any (·.state.sized) = true

instance (s : Scene) (c : ComponentId) : Decidable (s.Sized c) :=
  inferInstanceAs (Decidable (_ = true))

/-- The content size of the container, if the container has a size. -/
def observable (s : Scene) (layout : LayoutConfig) (c : ComponentId) : Option Size :=
  if s.Sized c then (s.content layout c).toOption.map Rect.size else none

theorem HasSettings.members (h : s.HasSettings settings c) {members : List Member}
    (hmembers : s.members c = .ok members) : ∀ m ∈ members, settings m.id = some m.config := by
  intro m hm
  obtain ⟨i, hi, hread⟩ := Length.exists_of_mem_mapM hmembers hm
  obtain ⟨x, hx, hread⟩ := Length.bind_eq_ok.1 hread
  cases hread
  rw [← h i hi, Tree.config?, Tree.get_eq_ok.1 hx]
  rfl

/-! ### Taking note of the reference -/

theorem observed_prepared (s : Scene) (c : ComponentId) (a : Anchored) (content : Size)
    (sized : Bool) : (s.prepared c a content sized).observed =
      a.observed.or (if sized then some content else none) := by
  unfold prepared Anchored.observe
  cases hobserved : a.observed <;> cases sized <;> simp [hobserved]

theorem reference_congr (h : b.observed = a.observed) : b.reference layout = a.reference layout := by
  unfold Anchored.reference
  rw [h]

/-- The anchors that go on being kept are those built against the reference. -/
theorem coherent_prepared (ha : a.Coherent settings (a.reference layout)) (s : Scene)
    (c : ComponentId) (content : Size) (sized : Bool) :
    (s.prepared c a content sized).Coherent settings
      ((s.prepared c a content sized).reference layout) := by
  intro i pair hpair
  unfold prepared at hpair ⊢
  rw [IdMap.get?_filter] at hpair
  have hkept := (Option.filter_eq_some_iff.1 hpair).1
  by_cases hfirst : (a.observed.isNone && sized) = true
  · rw [Anchored.observe, if_pos hfirst] at hkept
    cases hkept
  · have hsame : a.observe content sized = a := by rw [Anchored.observe, if_neg hfirst]
    rw [hsame] at hkept ⊢
    exact ha i pair hkept

/-! ### What passes write -/

/-- What a pass makes of the tree. -/
theorem tree_run_anchoredPass (s : Scene) (layout : LayoutConfig) (c : ComponentId)
    (a : Anchored) : (fun r => r.2.tree) <$> s.run (Anchored.pass layout c a) = (do
      let content ← s.content layout c
      let x ← s.tree.get c
      let members ← s.members c
      let noted := s.prepared c a content.size x.state.sized
      Anchored.applyAll s.tree <$> Prod.snd <$>
        (Anchored.placeFrom layout content (noted.reference layout) noted content.y
          members).run.value) := by
  unfold Anchored.pass Step.contentBox Scene.content
  rw [run_bind, run_bind, run_targetSize]
  cases s.host.targetSize s.tree c with
  | error fault => rfl
  | ok target =>
    simp only [Length.ok_bind, run_draft, value_contentBox]
    cases layout.contentOf target with
    | error fault => rfl
    | ok content =>
      simp only [Length.ok_bind, run_bind, run_tree, run_check, tree_log]
      cases s.tree.get c with
      | error fault => rfl
      | ok x =>
        simp only [Length.ok_bind, run_members]
        rw [show ∀ ns, (s.log ns).members c = s.members c from fun _ => rfl]
        cases s.members c with
        | error fault => rfl
        | ok members =>
          simp only [Length.ok_bind, run_draft, bind_assoc, run_keep, run_modifyTree, run_pure]
          unfold prepared
          cases (Anchored.placeFrom layout content _ _ content.y members).run.value <;> rfl

/-- A pass places the children as it would without anchors. -/
theorem run_pass_emptied (ha : a.Coherent settings (a.reference layout))
    (hs : s.HasSettings settings c) :
    (fun r => r.2.tree) <$> s.run (Anchored.pass layout c a) =
      (fun r => r.2.tree) <$> s.run (Anchored.pass layout c a.emptied) := by
  have hprepared : ∀ content sized, (s.prepared c a.emptied content sized).mode =
        (s.prepared c a content sized).mode ∧
      (s.prepared c a.emptied content sized).reference layout =
        (s.prepared c a content sized).reference layout := by
    intro content sized
    refine ⟨?_, reference_congr ?_⟩
    · rw [mode_prepared, mode_prepared, Anchored.emptied]
    · rw [observed_prepared, observed_prepared, Anchored.emptied]
  rw [tree_run_anchoredPass, tree_run_anchoredPass]
  refine Length.bind_congr_of_ok fun content _ => Length.bind_congr_of_ok fun x _ =>
    Length.bind_congr_of_ok fun members hmembers => ?_
  obtain ⟨hmode, hreference⟩ := hprepared content.size x.state.sized
  have hbare : (s.prepared c a.emptied content.size x.state.sized).Coherent settings
      ((s.prepared c a content.size x.state.sized).reference layout) := by
    rw [← hreference]
    exact coherent_prepared a.coherent_emptied s c _ _
  dsimp only
  rw [hreference, Anchored.placed_congr (coherent_prepared ha s c _ _) hbare hmode (hs.members hmembers)]

/-- The pass that first finds the container sized takes no notice of the anchors. -/
theorem run_first_pass (hobserved : a.observed = none) (hsized : s.Sized c) :
    s.run (Anchored.pass layout c a) = s.run (Anchored.pass layout c a.emptied) := by
  unfold Anchored.pass
  refine run_bind_congr fun content mid hcontent => ?_
  obtain ⟨_, notices, -, -, rfl⟩ := run_contentBox_eq_ok hcontent
  refine run_bind_congr fun t mid htree => ?_
  cases htree
  refine run_bind_congr fun x mid hx => ?_
  rw [run_check, Length.bind_eq_ok] at hx
  obtain ⟨_, hget, hx⟩ := hx
  cases hx
  have hstate : x.state.sized = true := by
    rw [tree_log, Tree.get_eq_ok] at hget
    rwa [Sized, hget] at hsized
  have hsame : a.observe content.size true = a.emptied.observe content.size true := by
    simp [Anchored.observe, Anchored.emptied, hobserved]
  rw [hstate]
  dsimp only
  rw [hsame]

/-- What a pass keeps. -/
theorem kept_of_pass (ha : a.Coherent settings (a.reference layout))
    (hs : s.HasSettings settings c)
    (h : s.run (Anchored.pass layout c a) = .ok (.ok b, s')) :
    b.Coherent settings (b.reference layout) ∧
      b.observed = a.observed.or (s.observable layout c) := by
  obtain ⟨content, sized, members, b', placed, hanchors, hb⟩ := run_anchoredPass_eq_ok h
  cases hb
  have hleaves := Anchored.leaves_placeFrom hanchors.placed_eq
  refine ⟨?_, ?_⟩
  · rw [reference_congr hleaves.observed]
    exact (coherent_prepared ha s c _ _).placeFrom (hs.members hanchors.members_eq)
      hanchors.placed_eq
  · have hobservable : s.observable layout c = if sized then some content.size else none := by
      obtain ⟨x, hx, rfl⟩ := Length.map_eq_ok.1 hanchors.sized_eq
      have hiff : s.Sized c ↔ x.state.sized = true := by
        rw [Sized, Tree.get_eq_ok.1 hx, Option.any_some]
      simp only [observable, hiff, hanchors.content_eq]
      rfl
    rw [hleaves.observed, observed_prepared, hobservable]

/-! ### One pass after another -/

/-- Passes over the children of `c` in one scene after another, each one with what the one before
has left. -/
def passes (layout : LayoutConfig) (c : ComponentId) (a : Anchored) :
    List Scene → Checked Anchored
  | [] => .ok a
  | s :: rest => do
    match (← s.run (Anchored.pass layout c a)).1 with
    | .ok b => passes layout c b rest
    | .error _ => passes layout c a rest

theorem kept_of_passes {scenes : List Scene} (ha : a.Coherent settings (a.reference layout))
    (hscenes : ∀ s ∈ scenes, s.HasSettings settings c) (h : passes layout c a scenes = .ok b) :
    b.Coherent settings (b.reference layout) ∧
      b.observed = a.observed.or (scenes.findSome? fun s => s.observable layout c) := by
  induction scenes generalizing a with
  | nil =>
    cases h
    exact ⟨ha, (Option.or_none).symm⟩
  | cons s rest ih =>
    obtain ⟨⟨r, s'⟩, hrun, h⟩ := Length.bind_eq_ok.1 h
    obtain ⟨_, _, _, mid, _, -, rfl⟩ := run_anchoredPass_eq_ok hrun
    obtain ⟨hcoherent, hobserved⟩ := kept_of_pass ha (hscenes s (by simp)) hrun
    obtain ⟨hlast, hlastObserved⟩ :=
      ih hcoherent (fun t ht => hscenes t (List.mem_cons_of_mem s ht)) h
    refine ⟨hlast, ?_⟩
    rw [hlastObserved, hobserved, Option.or_assoc, List.findSome?_cons]
    cases s.observable layout c <;> rfl

/-- The anchors that an anchor, absolute or form layout keeps cannot be seen. Passes over a
container run in any scenes, one after another: the container may have any size or none, children
may come, go, be hidden and be shown, as long as those that are laid out always have the same
settings. The reference is then the content size of the first pass that found the container sized.
In any further scene, whatever a pass writes it would write without the anchors; and if it is the
first one that finds the container sized, then it does all that it would do without them, and keeps
none of them. -/
theorem kept_anchors_unseen {mode : AnchorMode} {scenes : List Scene}
    (hscenes : ∀ s ∈ scenes, s.HasSettings settings c)
    (hpasses : passes layout c ⟨mode, none, .empty⟩ scenes = .ok a) :
    a.observed = (scenes.findSome? fun s => s.observable layout c) ∧
      ∀ s : Scene, s.HasSettings settings c →
        (fun r => r.2.tree) <$> s.run (Anchored.pass layout c a) =
          (fun r => r.2.tree) <$> s.run (Anchored.pass layout c a.emptied) ∧
        (a.observed = none → s.Sized c →
          s.run (Anchored.pass layout c a) = s.run (Anchored.pass layout c a.emptied)) := by
  obtain ⟨hcoherent, hobserved⟩ :=
    kept_of_passes (Anchored.coherent_emptied ⟨mode, none, .empty⟩) hscenes hpasses
  refine ⟨hobserved, fun s hs => ⟨run_pass_emptied hcoherent hs, fun hnone hsized => ?_⟩⟩
  exact run_first_pass hnone hsized

section

private def formLayout : LayoutConfig := { kind := .form }

/-- A form with two fields. -/
private def formTree : Tree :=
  .ofDescription (.node { layout := some formLayout }
    [.node { anchor := some "-20 bottom", height := some 30 } [],
      .node { anchor := some "right", width := some 120 } []])

private def formOf (t : Tree) (width height : Int) : Scene :=
  .ofTree (t.applyRect 0 ⟨0, 0, width, height⟩) .standard

/-- The form has no size at first; then the second field is hidden, and then the first one is
gone. -/
private def formScenes : List Scene :=
  [.ofTree formTree .standard, formOf (formTree.setHidden 2 true) 200 100,
    formOf (formTree.detach 0 1) 300 150]

private theorem config?_formOf {t : Tree} (h : t.config? = formTree.config?) (width height : Int) :
    (formOf t width height).tree.config? = formTree.config? := by
  rw [← h]
  exact Tree.config?_modifyState ..

/-- When the first field is back, below the other one, both are placed as they would be without the
anchors that were built for them at different times. -/
theorem form_places_fields_afresh :
    ∃ a, passes formLayout 0 ⟨.form, none, .empty⟩ formScenes = .ok a ∧
      a.observed = some ⟨200, 100⟩ ∧ a.anchors.keys = [2] ∧
      (fun r => r.2.tree) <$> (formOf (formTree.attach 0 1) 250 120).run
          (Anchored.pass formLayout 0 a) =
        (fun r => r.2.tree) <$> (formOf (formTree.attach 0 1) 250 120).run
          (Anchored.pass formLayout 0 a.emptied) := by
  have hscenes : ∀ s ∈ formScenes, s.HasSettings formTree.config? 0 := by
    have hsame : ∀ s ∈ formScenes, s.tree.config? = formTree.config? := by
      simp only [formScenes, List.forall_mem_cons]
      refine ⟨rfl, config?_formOf (Tree.config?_modifyState ..) .., config?_formOf ?_ .., nofun⟩
      exact (formTree.rearranged_detach 0 1).config?_eq.symm
    exact fun s hs i _ => congrFun (hsame s hs) i
  obtain ⟨a, ha, hkeys⟩ : ∃ a, passes formLayout 0 ⟨.form, none, .empty⟩ formScenes = .ok a ∧
      a.anchors.keys = [2] := by
    have hview : ((passes formLayout 0 ⟨.form, none, .empty⟩ formScenes).toOption.map
        fun a => a.anchors.keys) = some [2] := by decide +kernel
    cases hpasses : passes formLayout 0 ⟨.form, none, .empty⟩ formScenes with
    | error fault =>
      rw [hpasses] at hview
      cases hview
    | ok a =>
      rw [hpasses] at hview
      exact ⟨a, rfl, Option.some.inj hview⟩
  obtain ⟨hobserved, hunseen⟩ := kept_anchors_unseen hscenes ha
  have hlast := config?_formOf (formTree.rearranged_attach 0 1).config?_eq.symm 250 120
  refine ⟨a, ha, ?_, hkeys, (hunseen _ fun i _ => congrFun hlast i).1⟩
  rw [hobserved]
  decide +kernel

end

end Scene

end Trellis
