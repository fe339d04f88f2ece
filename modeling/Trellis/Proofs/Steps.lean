import Trellis.Layout.Member
import Trellis.Proofs.Margins
import Trellis.Proofs.Totals
import Trellis.Proofs.Trees

/-!
# Running steps

What the steps that layouts are made of come to when they are run on a scene. A step that reads
changes nothing; one that cannot go on leaves nothing behind.

* `run_bind`: a step runs on the scene that the step before it leaves, unless that was refused.
* `run_bind_congr`: only what follows a first part that succeeds can tell two steps apart.
* `run_check`, `run_draft`, `run_modifyTree`, ...: one equation for each kind of step.
* `run_rounds`: a round over the children of a container, and perhaps another one.
* `run_members`, `run_contentBox_eq_ok`: what a layout reads before it places children.
-/
namespace Trellis

namespace Draft

variable {α β : Type}

@[simp] theorem value_pure (a : α) : (pure a : Draft α).run.value = .ok a := rfl

@[simp] theorem value_bind (x : Draft α) (f : α → Draft β) :
    (x >>= f).run.value = x.run.value >>= fun a => (f a).run.value := by
  show (x.run >>= ExceptT.bindCont f).value = _
  rw [Noted.value_bind]
  cases x.run.value <;> rfl

@[simp] theorem value_noted (x : Noted α) : (liftM x : Draft α).run.value = .ok x.value := rfl

@[simp] theorem value_checked (x : Checked α) : (liftM x : Draft α).run.value = x := rfl

end Draft

/-- A layout that keeps nothing and places all visible children inside the content box. -/
def Step.placing (layout : LayoutConfig) (container : ComponentId)
    (place : Rect → List Framed → Checked (List Placement)) : Step Unit := do
  let content ← Step.contentBox layout container
  let members ← Step.members container
  let framed ← Step.draft (members.mapM (Member.framed layout) : Noted (List Framed))
  Step.apply (← Step.check (place content framed))

namespace Scene

variable {α β : Type} {s s' : Scene}

/-- The scene after notices are logged. -/
def log (s : Scene) (notices : List Notice) : Scene :=
  { s with ledger := s.ledger.logAll notices }

@[simp] theorem tree_log (s : Scene) (ns : List Notice) : (s.log ns).tree = s.tree := rfl

@[simp] theorem run_pure (s : Scene) (a : α) : s.run (pure a) = .ok (.ok a, s) := rfl

theorem run_bind (s : Scene) (x : Step α) (f : α → Step β) :
    s.run (x >>= f) = s.run x >>= fun r =>
      match r with
      | (.ok a, mid) => mid.run (f a)
      | (.error e, mid) => .ok (.error e, mid) := by
  show (ExceptT.run x >>= ExceptT.bindCont f).run s = _
  rw [StateT.run_bind]
  refine congrArg _ (funext fun r => ?_)
  obtain ⟨_ | a, mid⟩ := r <;> rfl

theorem run_bind_eq_ok {x : Step α} {f : α → Step β} {b : β} :
    s.run (x >>= f) = .ok (.ok b, s') ↔
      ∃ a mid, s.run x = .ok (.ok a, mid) ∧ mid.run (f a) = .ok (.ok b, s') := by
  rw [run_bind, Length.bind_eq_ok]
  constructor
  · rintro ⟨⟨_ | a, mid⟩, hx, h⟩
    · cases h
    · exact ⟨a, mid, hx, h⟩
  · rintro ⟨a, mid, hx, h⟩
    exact ⟨(.ok a, mid), hx, h⟩

/-- Two steps that go on in the same way from where the first part succeeds. -/
theorem run_bind_congr {x : Step α} {f g : α → Step β}
    (h : ∀ a mid, s.run x = .ok (.ok a, mid) → mid.run (f a) = mid.run (g a)) :
    s.run (x >>= f) = s.run (x >>= g) := by
  rw [run_bind, run_bind]
  cases hx : s.run x with
  | error fault => rfl
  | ok left =>
    obtain ⟨_ | a, mid⟩ := left
    · rfl
    · exact h a mid hx

/-- A step that is refused, or that another one follows. -/
theorem run_bind_cases {x : Step α} {f : α → Step β} {y : Except LayoutError β}
    (h : s.run (x >>= f) = .ok (y, s')) :
    (∃ e, s.run x = .ok (.error e, s') ∧ y = .error e) ∨
      ∃ a mid, s.run x = .ok (.ok a, mid) ∧ mid.run (f a) = .ok (y, s') := by
  rw [run_bind] at h
  obtain ⟨⟨z, mid⟩, hx, h⟩ := Length.bind_eq_ok.1 h
  cases z with
  | error e =>
    cases h
    exact .inl ⟨e, hx, rfl⟩
  | ok a => exact .inr ⟨a, mid, hx, h⟩

@[simp] theorem run_get (s : Scene) : s.run get = .ok (.ok s, s) := rfl

@[simp] theorem run_throw (s : Scene) (e : LayoutError) :
    s.run (throw e : Step α) = .ok (.error e, s) := rfl

@[simp] theorem run_tree (s : Scene) : s.run Step.tree = .ok (.ok s.tree, s) := rfl

@[simp] theorem run_modifyTree (s : Scene) (f : Tree → Tree) :
    s.run (Step.modifyTree f) = .ok (.ok (), { s with tree := f s.tree }) := rfl

@[simp] theorem run_keep (s : Scene) (id : ComponentId) (a : Arrangement) :
    s.run (Step.keep id a) = .ok (.ok (), { s with kept := s.kept.insert id a }) := rfl

@[simp] theorem run_apply (s : Scene) (placements : List Placement) :
    s.run (Step.apply placements) =
      .ok (.ok (), { s with tree := s.tree.applyPlacements placements }) := rfl

theorem run_check (s : Scene) (x : Checked α) :
    s.run (Step.check x) = x >>= fun a => .ok (.ok a, s) := by
  cases x <;> rfl

theorem run_draft (s : Scene) (x : Draft α) :
    s.run (Step.draft x) = x.run.value >>= fun a => .ok (.ok a, s.log x.run.notices) :=
  run_check _ _

theorem run_targetSize (s : Scene) (id : ComponentId) :
    s.run (Step.targetSize id) = s.host.targetSize s.tree id >>= fun a => .ok (.ok a, s) :=
  run_check _ _

/-- A round, and another one exactly if the first changed the size that the container offers. -/
theorem run_rounds {c : ComponentId} {x : Step α} {f : α → Step Unit} {r : Except LayoutError Unit}
    (hx : ∀ e mid, s.run x ≠ .ok (.error e, mid))
    (h : s.run (do
      let before ← Step.targetSize c
      let a ← x
      let after ← Step.targetSize c
      if after ≠ before then f a) = .ok (r, s')) :
    ∃ before a mid after, s.host.targetSize s.tree c = .ok before ∧ s.run x = .ok (.ok a, mid) ∧
      mid.host.targetSize mid.tree c = .ok after ∧
      ((after = before ∧ r = .ok () ∧ s' = mid) ∨
        (after ≠ before ∧ mid.run (f a) = .ok (r, s'))) := by
  rw [run_bind, run_targetSize, bind_assoc] at h
  obtain ⟨before, hbefore, h⟩ := Length.bind_eq_ok.1 h
  obtain ⟨e, hfirst, -⟩ | ⟨a, mid, hfirst, h⟩ := run_bind_cases h
  · exact absurd hfirst (hx e s')
  rw [run_bind, run_targetSize, bind_assoc] at h
  obtain ⟨after, hafter, h⟩ := Length.bind_eq_ok.1 h
  rw [Length.ok_bind] at h
  dsimp only at h
  refine ⟨before, a, mid, after, hbefore, hfirst, hafter, ?_⟩
  split at h
  · next hchanged => exact .inr ⟨hchanged, h⟩
  · next hsame =>
    cases h
    exact .inl ⟨not_not.1 hsame, rfl, rfl⟩

theorem run_notify (s : Scene) (id : ComponentId) (e : Event) :
    s.run (Step.notify id e) = .ok (.ok (!s.host.vetoed id e),
      if s.host.listens then { s with events := s.events ++ [(id, e)] } else s) := by
  unfold Step.notify
  rw [run_bind, run_get, Length.ok_bind]
  show s.run (if s.host.listens then _ else _) = _
  split <;> rfl

/-- What `view` shows of the scene that a step leaves, unless it is refused or abandoned. -/
def viewAfter (s : Scene) (x : Step α) (view : Scene → β) : Option β :=
  match s.run x with
  | .ok (.ok _, s') => some (view s')
  | _ => none

theorem run_of_viewAfter {x : Step α} {view : Scene → β} {b : β}
    (h : s.viewAfter x view = some b) : ∃ a s', s.run x = .ok (.ok a, s') ∧ view s' = b := by
  unfold viewAfter at h
  split at h
  · next a s' hrun => exact ⟨a, s', hrun, Option.some.inj h⟩
  · cases h

/-! ## What layouts read -/

/-- A child as a layout sees it. -/
def member (s : Scene) (id : ComponentId) : Checked Member := do
  let config := (← s.tree.get id).config
  return ⟨id, config, s.host.measure id config⟩

/-- The visible children as a layout sees them. -/
def members (s : Scene) (container : ComponentId) : Checked (List Member) :=
  (s.tree.visibleChildren container).mapM s.member

theorem run_member (s : Scene) (id : ComponentId) :
    s.run (Step.member id) = s.member id >>= fun m => .ok (.ok m, s) := by
  unfold Step.member member
  rw [run_bind, run_get, Length.ok_bind]
  show s.run (Step.check _ >>= _) = _
  rw [run_bind, run_check]
  cases s.tree.get id <;> rfl

/-- A list of steps that only read. -/
theorem run_mapM_of_reads {f : α → Step β} {g : α → Checked β}
    (h : ∀ x, s.run (f x) = g x >>= fun b => .ok (.ok b, s)) (xs : List α) :
    s.run (xs.mapM f) = xs.mapM g >>= fun bs => .ok (.ok bs, s) := by
  induction xs with
  | nil => rfl
  | cons x xs ih =>
    rw [List.mapM_cons, List.mapM_cons, run_bind, h]
    cases g x with
    | error fault => rfl
    | ok y =>
      simp only [Length.ok_bind]
      rw [run_bind, ih]
      cases xs.mapM g <;> rfl

theorem run_members (s : Scene) (container : ComponentId) :
    s.run (Step.members container) = s.members container >>= fun ms => .ok (.ok ms, s) := by
  unfold Step.members
  rw [run_bind, run_tree, Length.ok_bind]
  exact run_mapM_of_reads s.run_member _

end Scene

/-- The area inside the padding of a container that offers `target`. -/
def LayoutConfig.contentOf (layout : LayoutConfig) (target : Size) : Checked Rect := do
  let width ← Length.sub target.width (← layout.paddingSides.horizontal)
  let height ← Length.sub target.height (← layout.paddingSides.vertical)
  return ⟨layout.paddingSides.left, layout.paddingSides.top, max width 0, max height 0⟩

theorem value_contentBox (layout : LayoutConfig) (target : Size) :
    (contentBox layout target).run.value = layout.contentOf target := by
  simp only [contentBox, Draft.value_bind, Draft.value_noted, Draft.value_checked, Draft.value_pure,
    Length.ok_bind]
  rfl

/-- A child with its margins. -/
def Member.inFrame (layout : LayoutConfig) (m : Member) : Framed :=
  ⟨m, m.config.marginSides layout⟩

namespace Scene

variable {s s' : Scene} {layout : LayoutConfig} {container : ComponentId}

/-- The area inside the padding of a container. -/
def content (s : Scene) (layout : LayoutConfig) (container : ComponentId) : Checked Rect := do
  layout.contentOf (← s.host.targetSize s.tree container)

/-- The visible children with their margins. -/
def framed (s : Scene) (layout : LayoutConfig) (container : ComponentId) :
    Checked (List Framed) := do
  return (← s.members container).map (Member.inFrame layout)

/-- A layout sees the visible children, in source order. -/
theorem ids_members {members : List Member} (h : s.members container = .ok members) :
    members.map Member.id = s.tree.visibleChildren container := by
  refine (Length.map_of_mapM (k := id) (fun id m hm => ?_) h).trans (List.map_id _)
  obtain ⟨c, -, hm⟩ := Length.bind_eq_ok.1 hm
  cases hm
  rfl

theorem ids_framed {framed : List Framed} (h : s.framed layout container = .ok framed) :
    (framed.map fun f => f.member.id) = s.tree.visibleChildren container := by
  obtain ⟨members, hmembers, h⟩ := Length.bind_eq_ok.1 h
  cases h
  rw [List.map_map]
  exact ids_members hmembers

/-- What a layout sees of a child is what the tree and the host know of it. -/
theorem eq_of_mem_members {members : List Member}
    (h : s.members container = .ok members) {m : Member} (hm : m ∈ members) :
    m.id ∈ s.tree.visibleChildren container ∧ s.tree.config? m.id = some m.config ∧
      m.measured = s.host.measure m.id m.config := by
  obtain ⟨id, hid, hm⟩ := Length.exists_of_mem_mapM h hm
  obtain ⟨c, hc, hm⟩ := Length.bind_eq_ok.1 hm
  cases hm
  refine ⟨hid, ?_, rfl⟩
  rw [Tree.config?, Tree.get_eq_ok.1 hc]
  rfl

/-- The margins that a layout gives a child are those in its settings. -/
theorem eq_of_mem_framed {framed : List Framed} (h : s.framed layout container = .ok framed)
    {f : Framed} (hf : f ∈ framed) :
    ∃ c, s.tree.get? f.member.id = some c ∧ f.member.config = c.config ∧
      f.margins = c.config.marginSides layout := by
  obtain ⟨members, hmembers, h⟩ := Length.bind_eq_ok.1 h
  cases h
  obtain ⟨m, hm, rfl⟩ := List.mem_map.1 hf
  obtain ⟨c, hc, hconfig⟩ := Option.map_eq_some_iff.1 (eq_of_mem_members hmembers hm).2.1
  exact ⟨c, hc, hconfig.symm, hconfig ▸ rfl⟩

theorem run_contentBox_eq_ok {r : Except LayoutError Rect}
    (h : s.run (Step.contentBox layout container) = .ok (r, s')) :
    ∃ content notices, s.content layout container = .ok content ∧ r = .ok content ∧
      s' = s.log notices := by
  unfold Step.contentBox at h
  rw [run_bind, run_targetSize] at h
  cases htarget : s.host.targetSize s.tree container with
  | error fault =>
    rw [htarget] at h
    cases h
  | ok target =>
    simp only [htarget, Length.ok_bind, run_draft, value_contentBox] at h
    obtain ⟨content, hcontent, h⟩ := Length.bind_eq_ok.1 h
    cases h
    exact ⟨content, _, by rw [Scene.content, htarget, Length.ok_bind, hcontent], rfl, rfl⟩

/-- Placing children changes nothing but the tree. -/
structure Places (s s' : Scene) (placements : List Placement) : Prop where
  tree : s'.tree = s.tree.applyPlacements placements
  host : s'.host = s.host
  kept : s'.kept = s.kept

theorem run_placing_eq_ok {place : Rect → List Framed → Checked (List Placement)}
    {r : Except LayoutError Unit}
    (h : s.run (Step.placing layout container place) = .ok (r, s')) :
    ∃ content framed placements, s.content layout container = .ok content ∧
      s.framed layout container = .ok framed ∧ place content framed = .ok placements ∧
      r = .ok () ∧ s.Places s' placements := by
  rw [Step.placing, run_bind, Length.bind_eq_ok] at h
  obtain ⟨⟨_, _⟩, hfirst, h⟩ := h
  obtain ⟨content, notices, hcontent, rfl, rfl⟩ := run_contentBox_eq_ok hfirst
  simp only [run_bind, run_members] at h
  cases hmembers : s.members container with
  | error fault =>
    rw [show (s.log notices).members container = .error fault from hmembers] at h
    cases h
  | ok members =>
    rw [show (s.log notices).members container = .ok members from hmembers] at h
    simp only [Length.ok_bind, run_draft, Draft.value_noted, Noted.value_mapM, run_check,
      bind_assoc, run_apply] at h
    obtain ⟨placements, hplace, h⟩ := Length.bind_eq_ok.1 h
    cases h
    exact ⟨content, _, placements, hcontent, by rw [framed, hmembers]; rfl, hplace, rfl,
      rfl, rfl, rfl⟩

theorem placing_not_refused (s : Scene) (layout : LayoutConfig) (container : ComponentId)
    (place : Rect → List Framed → Checked (List Placement)) (e : LayoutError) (mid : Scene) :
    s.run (Step.placing layout container place) ≠ .ok (.error e, mid) := by
  intro h
  obtain ⟨_, _, _, -, -, -, hr, -⟩ := run_placing_eq_ok h
  cases hr

end Scene

end Trellis
