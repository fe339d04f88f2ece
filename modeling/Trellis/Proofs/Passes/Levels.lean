import Trellis.Proofs.Passes.Writes

/-!
# One level of a pass

A pass over a container ends in one of five ways: there is nothing to lay out, the host vetoes, the
container's layout is refused, a pass below is refused, or the host is told at last. Whatever a pass
does, in any tree, the host, the requests that wait and the shape of the tree stay as they are, and
nothing that is kept is lost.

* `Opens`: the container's own layout has run; `Level`: the ways in which a pass ends.
* `level_of_run`: a pass ends in one of them; `opens_of_run`: what is known if it is not vetoed.
* `Lasting`: what single levels preserve; `Lasting.passWithin`, ...: whole passes preserve it.
* `undisturbed_passWithin`, `undisturbed_pass`, ...: what every pass leaves as it was.
* `Comes`, `Meets`, `Reaches`: a pass begins in the course of others, or inside another one.
* `Reaches.inside`: the passes inside a pass are over containers inside its container.
-/
namespace Trellis.Scene

variable {s s' t u : Scene} {layout : LayoutConfig} {container : ComponentId} {n : Nat}
  {r : Except LayoutError Unit}

/-- The scene in which the layout of the container runs: the host has been told, the children are
rendered, and what is kept for the container is of its kind. -/
def begun (s : Scene) (layout : LayoutConfig) (container : ComponentId) : Scene :=
  (s.told container .beforeLayout).ready layout container

/-- The host lets the container be laid out, and its layout has left `laid`. -/
structure Opens (s : Scene) (layout : LayoutConfig) (container : ComponentId)
    (r : Except LayoutError Unit) (laid : Scene) : Prop where
  layout_eq : s.tree.layoutOf container = .ok layout
  heard : s.host.vetoed container .beforeLayout = false
  arranged : (s.begun layout container).run
    (Step.arrange layout container (s.arrangement layout container)) = .ok (r, laid)

/-- The ways in which a pass over `container` ends that leaves `n` levels to the passes below. -/
inductive Level (n : Nat) (s : Scene) (container : ComponentId) :
    Except LayoutError Unit → Scene → Prop where
  | unknown {e : LayoutError} (herror : s.tree.layoutOf container = .error e) :
    Level n s container (.error e) s
  | vetoed {layout : LayoutConfig} (hlayout : s.tree.layoutOf container = .ok layout)
    (hvetoed : s.host.vetoed container .beforeLayout = true) :
    Level n s container (.ok ()) (s.told container .beforeLayout)
  | refused {layout : LayoutConfig} {e : LayoutError} {laid : Scene}
    (hopens : s.Opens layout container (.error e) laid) : Level n s container (.error e) laid
  | stopped {layout : LayoutConfig} {e : LayoutError} {laid after : Scene}
    (hopens : s.Opens layout container (.ok ()) laid)
    (hbelow : laid.run ((laid.tree.visibleChildren container).forM (Step.passOver n)) =
      .ok (.error e, after)) : Level n s container (.error e) after
  | finished {layout : LayoutConfig} {laid after : Scene}
    (hopens : s.Opens layout container (.ok ()) laid)
    (hbelow : laid.run ((laid.tree.visibleChildren container).forM (Step.passOver n)) =
      .ok (.ok (), after)) :
    Level n s container (.ok ()) (after.told container .afterLayout)

theorem level_of_run (h : s.run (Step.passWithin (n + 1) container) = .ok (r, s')) :
    Level n s container r s' := by
  cases hlayout : s.tree.layoutOf container with
  | error e =>
    rw [run_passWithin_refused n hlayout] at h
    cases h
    exact .unknown hlayout
  | ok layout =>
    cases hheard : s.host.vetoed container .beforeLayout with
    | true =>
      rw [run_passWithin_silenced hlayout hheard] at h
      cases h
      exact .vetoed hlayout hheard
    | false =>
      rw [run_passWithin_open hlayout hheard, Step.passOn, run_bind, Length.bind_eq_ok] at h
      obtain ⟨⟨_ | _, laid⟩, harrange, h⟩ := h
      · cases h
        exact .refused ⟨hlayout, hheard, harrange⟩
      · dsimp only at h
        rw [run_bind, run_tree, Length.ok_bind] at h
        dsimp only at h
        rw [run_bind, Length.bind_eq_ok] at h
        obtain ⟨⟨_ | _, after⟩, hbelow, h⟩ := h
        · cases h
          exact .stopped ⟨hlayout, hheard, harrange⟩ hbelow
        · dsimp only at h
          rw [run_bind, run_notify_eq, Length.ok_bind] at h
          cases h
          exact .finished ⟨hlayout, hheard, harrange⟩ hbelow

/-- A pass that is not vetoed has the layout of its container run, and goes on with the containers
that are visible then, unless that is refused. -/
theorem opens_of_run (hlayout : s.tree.layoutOf container = .ok layout)
    (hheard : s.host.vetoed container .beforeLayout = false)
    (h : s.run (Step.passWithin (n + 1) container) = .ok (r, s')) :
    ∃ r₁ laid, s.Opens layout container r₁ laid ∧
      ((∃ e, r₁ = .error e) ∧ s' = laid ∨ r₁ = .ok () ∧ ∃ r₂ after,
        laid.run ((laid.tree.visibleChildren container).forM (Step.passOver n)) =
          .ok (r₂, after) ∧ Silent after s') := by
  have hsame : ∀ {other : LayoutConfig} {r₁ : Except LayoutError Unit} {laid : Scene},
      s.Opens other container r₁ laid → s.Opens layout container r₁ laid := by
    intro other r₁ laid hopens
    have := hopens.layout_eq
    rw [hlayout] at this
    cases this
    exact hopens
  cases level_of_run h with
  | unknown herror =>
    rw [hlayout] at herror
    cases herror
  | vetoed _ hvetoed =>
    rw [hvetoed] at hheard
    cases hheard
  | refused hopens => exact ⟨_, _, hsame hopens, .inl ⟨⟨_, rfl⟩, rfl⟩⟩
  | stopped hopens hbelow => exact ⟨_, _, hsame hopens, .inr ⟨rfl, _, _, hbelow, .refl s'⟩⟩
  | finished hopens hbelow =>
    exact ⟨_, _, hsame hopens, .inr ⟨rfl, _, _, hbelow, silent_told _ container .afterLayout⟩⟩

/-! ## What every pass preserves -/

/-- A property of scenes that lasts when the host is told of a pass and when the layout of a
container runs. -/
structure Lasting (P : Scene → Prop) : Prop where
  told : ∀ {s : Scene} (d : ComponentId) {e : Event}, e = .beforeLayout ∨ e = .afterLayout →
    P s → P (s.told d e)
  opens : ∀ {s laid : Scene} {layout : LayoutConfig} {d : ComponentId}
    {r : Except LayoutError Unit}, P s → s.Opens layout d r laid → P laid

namespace Lasting

variable {P : Scene → Prop} {containers : List ComponentId} {x : ComponentId}

/-- What single steps preserve, several of them do. -/
theorem forM_of {f : ComponentId → Step Unit}
    (hone : ∀ {s s' : Scene} {r : Except LayoutError Unit} (x : ComponentId),
      P s → s.run (f x) = .ok (r, s') → P s')
    (hs : P s) (h : s.run (containers.forM f) = .ok (r, s')) : P s' := by
  induction containers generalizing s with
  | nil =>
    cases h
    exact hs
  | cons x rest ih =>
    rcases run_forM_cons_eq_ok h with ⟨e, hfirst, -⟩ | ⟨mid, hfirst, hrest⟩
    · exact hone x hs hfirst
    · exact ih (hone x hs hfirst) hrest

theorem passOver_of
    (hone : ∀ {s s' : Scene} {r : Except LayoutError Unit} (x : ComponentId),
      P s → s.run (Step.passWithin n x) = .ok (r, s') → P s')
    (x : ComponentId) (hs : P s) (h : s.run (Step.passOver n x) = .ok (r, s')) : P s' := by
  rw [run_passOver] at h
  split at h
  · exact hone x hs h
  · cases h
    exact hs

theorem passWithin (hP : Lasting P) (hs : P s)
    (h : s.run (Step.passWithin n container) = .ok (r, s')) : P s' := by
  induction n generalizing s s' r container with
  | zero => cases h
  | succ n ih =>
    have hbelow : ∀ {laid after : Scene} {r : Except LayoutError Unit} {xs : List ComponentId},
        P laid → laid.run (xs.forM (Step.passOver n)) = .ok (r, after) → P after :=
      forM_of (passOver_of fun _ hs hrun => ih hs hrun)
    cases level_of_run h with
    | unknown => exact hs
    | vetoed => exact hP.told container (.inl rfl) hs
    | refused hopens => exact hP.opens hs hopens
    | stopped hopens hrun => exact hbelow (hP.opens hs hopens) hrun
    | finished hopens hrun =>
      exact hP.told container (.inr rfl) (hbelow (hP.opens hs hopens) hrun)

theorem passOver (hP : Lasting P) (hs : P s) (h : s.run (Step.passOver n x) = .ok (r, s')) :
    P s' :=
  passOver_of (fun _ hs hrun => hP.passWithin hs hrun) x hs h

theorem below (hP : Lasting P) (hs : P s)
    (h : s.run (containers.forM (Step.passOver n)) = .ok (r, s')) : P s' :=
  forM_of (fun _ hs hrun => hP.passOver hs hrun) hs h

theorem pass (hP : Lasting P) (hs : P s) (h : s.run (Step.pass container) = .ok (r, s')) : P s' :=
  hP.passWithin (n := s.tree.size) hs h

theorem passes (hP : Lasting P) (hs : P s) (h : s.run (containers.forM Step.pass) = .ok (r, s')) :
    P s' :=
  forM_of (fun _ hs hrun => hP.pass hs hrun) hs h

end Lasting

/-! ## What every pass leaves as it was -/

/-- What the scenes before and after a pass have in common. -/
structure Undisturbed (s s' : Scene) : Prop where
  host : s'.host = s.host
  timers : s'.timers = s.timers
  shape : s.tree.SameShape s'.tree
  keeps : ∀ i, (s.kept.get? i).isSome → (s'.kept.get? i).isSome

namespace Undisturbed

theorem refl (s : Scene) : Undisturbed s s := ⟨rfl, rfl, .refl s.tree, fun _ h => h⟩

theorem trans (h : Undisturbed s t) (h' : Undisturbed t u) : Undisturbed s u :=
  ⟨h'.host.trans h.host, h'.timers.trans h.timers, h.shape.trans h'.shape,
    fun i hi => h'.keeps i (h.keeps i hi)⟩

end Undisturbed

theorem Writes.undisturbed (h : Writes container s t) : Undisturbed s t :=
  ⟨h.host, h.timers, h.shape, h.keeps⟩

theorem undisturbed_told (s : Scene) (id : ComponentId) (e : Event) :
    Undisturbed s (s.told id e) := by
  refine ⟨host_told .., timers_told .., ?_, fun i hi => by rwa [kept_told]⟩
  rw [tree_told]
  exact .refl s.tree

theorem writes_ready (s : Scene) (layout : LayoutConfig) (container : ComponentId) :
    Writes container s (s.ready layout container) :=
  (Writes.tree container s (Tree.agree_renderChildren s.tree container).toSameShape).trans
    (.kept container _ _)

theorem undisturbed_begun (s : Scene) (layout : LayoutConfig) (container : ComponentId) :
    Undisturbed s (s.begun layout container) :=
  (undisturbed_told s container .beforeLayout).trans (writes_ready _ layout container).undisturbed

theorem Opens.undisturbed (h : s.Opens layout container r t) : Undisturbed s t :=
  (undisturbed_begun s layout container).trans
    (Step.writesOnly_arrange layout _ h.arranged).undisturbed

theorem lasting_undisturbed (s : Scene) : Lasting (Undisturbed s) :=
  ⟨fun d e _ h => h.trans (undisturbed_told _ d e), fun h hopens => h.trans hopens.undisturbed⟩

theorem undisturbed_passWithin (h : s.run (Step.passWithin n container) = .ok (r, s')) :
    Undisturbed s s' :=
  (lasting_undisturbed s).passWithin (.refl s) h

theorem undisturbed_passOver {x : ComponentId} (h : s.run (Step.passOver n x) = .ok (r, s')) :
    Undisturbed s s' :=
  (lasting_undisturbed s).passOver (.refl s) h

theorem undisturbed_below {xs : List ComponentId}
    (h : s.run (xs.forM (Step.passOver n)) = .ok (r, s')) : Undisturbed s s' :=
  (lasting_undisturbed s).below (.refl s) h

theorem run_pass (s : Scene) (container : ComponentId) :
    s.run (Step.pass container) = s.run (Step.passWithin s.tree.size container) := rfl

theorem undisturbed_pass (h : s.run (Step.pass container) = .ok (r, s')) : Undisturbed s s' :=
  (lasting_undisturbed s).pass (.refl s) h

theorem undisturbed_passes {containers : List ComponentId}
    (h : s.run (containers.forM Step.pass) = .ok (r, s')) : Undisturbed s s' :=
  (lasting_undisturbed s).passes (.refl s) h

/-- The scene in which the request that waits for `container` is given up. -/
def relieved (s : Scene) (container : ComponentId) : Scene :=
  { s with timers := s.timers.modify container Debounce.cancel }

theorem run_layout (s : Scene) (container : ComponentId) :
    s.run (Step.layout container) = (s.relieved container).run (Step.pass container) := rfl

/-! ## Passes in the course of others -/

section

variable {P : Scene → ComponentId → Prop} {f : ComponentId → Step Unit} {xs ys : List ComponentId}
  {c x : ComponentId}

theorem run_forM_append (f : ComponentId → Step Unit) (xs ys : List ComponentId) (s : Scene) :
    s.run ((xs ++ ys).forM f) = s.run (xs.forM f) >>= fun r =>
      match r with
      | (.ok (), mid) => mid.run (ys.forM f)
      | (.error e, mid) => .ok (.error e, mid) := by
  induction xs generalizing s with
  | nil => rfl
  | cons x rest ih =>
    rw [List.cons_append, List.forM, List.forM, run_bind, run_bind, bind_assoc]
    refine congrArg _ (funext fun r => ?_)
    obtain ⟨_ | _, mid⟩ := r
    · rfl
    · exact ih mid

/-- The steps `f` over `xs`, one after the other, come to one that begins as `P` says. -/
def Comes (f : ComponentId → Step Unit) (P : Scene → ComponentId → Prop) :
    Scene → List ComponentId → Prop
  | _, [] => False
  | s, x :: rest => P s x ∨ ∃ mid, s.run (f x) = .ok (.ok (), mid) ∧ Comes f P mid rest

/-- What comes late in a list is come to if all before it goes through. -/
theorem comes_append : s.Comes f P (xs ++ ys) ↔
    s.Comes f P xs ∨ ∃ mid, s.run (xs.forM f) = .ok (.ok (), mid) ∧ mid.Comes f P ys := by
  induction xs generalizing s with
  | nil =>
    constructor
    · exact fun h => .inr ⟨s, rfl, h⟩
    · intro h
      rcases h with h | ⟨mid, hmid, h⟩
      · exact h.elim
      · cases hmid
        exact h
  | cons x rest ih =>
    simp only [List.cons_append, Comes, List.forM, run_bind_eq_ok, ih]
    constructor
    · intro h
      rcases h with h | ⟨mid, hx, h | ⟨last, hrest, h⟩⟩
      · exact .inl (.inl h)
      · exact .inl (.inr ⟨mid, hx, h⟩)
      · exact .inr ⟨last, ⟨(), mid, hx, hrest⟩, h⟩
    · intro h
      rcases h with (h | ⟨mid, hx, h⟩) | ⟨last, ⟨_, mid, hx, hrest⟩, h⟩
      · exact .inl h
      · exact .inr ⟨mid, hx, .inl h⟩
      · exact .inr ⟨mid, hx, .inr ⟨last, hrest, h⟩⟩

/-- The step that is come to begins where all before it have left off. -/
theorem Comes.exists (h : s.Comes f P xs) : ∃ front x back mid,
    xs = front ++ x :: back ∧ s.run (front.forM f) = .ok (.ok (), mid) ∧ P mid x := by
  induction xs generalizing s with
  | nil => exact h.elim
  | cons x rest ih =>
    rcases h with h | ⟨mid, hx, h⟩
    · exact ⟨[], x, rest, s, rfl, rfl, h⟩
    · obtain ⟨front, y, back, last, rfl, hfront, hP⟩ := ih h
      refine ⟨x :: front, y, back, last, rfl, ?_, hP⟩
      rw [List.forM, run_bind_eq_ok]
      exact ⟨(), mid, hx, hfront⟩

theorem Comes.intro {front back : List ComponentId} {mid : Scene} (hxs : xs = front ++ x :: back)
    (hfront : s.run (front.forM f) = .ok (.ok (), mid)) (hP : P mid x) : s.Comes f P xs := by
  rw [hxs]
  exact comes_append.2 (.inr ⟨mid, hfront, .inl hP⟩)

/-- In the course of a pass over `x` with `n` levels, a pass begins as `P` says: the pass itself, or
one inside the passes over the children of `x`. -/
def Meets (P : Scene → ComponentId → Prop) : Nat → Scene → ComponentId → Prop
  | 0, s, x => P s x
  | n + 1, s, x => P s x ∨ ∃ layout laid, s.Opens layout x (.ok ()) laid ∧
      laid.Comes (Step.passOver n) (fun mid y => (mid.tree.layout? y).isSome ∧ Meets P n mid y)
        (laid.tree.visibleChildren x)

theorem Meets.self (h : P s x) (n : Nat) : s.Meets P n x := by
  cases n with
  | zero => exact h
  | succ n => exact .inl h

/-- What single levels preserve is there when a pass inside another one begins. -/
theorem Lasting.meets {Q : Scene → Prop} (hQ : Lasting Q) (hs : Q s) (h : s.Meets P n x) :
    ∃ u y, P u y ∧ Q u := by
  induction n generalizing s x with
  | zero => exact ⟨s, x, h, hs⟩
  | succ n ih =>
    rcases h with h | ⟨layout, laid, hopens, hcomes⟩
    · exact ⟨s, x, h, hs⟩
    · obtain ⟨front, y, back, mid, -, hfront, -, hmeets⟩ := hcomes.exists
      exact ih (hQ.below (hQ.opens hs hopens) hfront) hmeets

/-- In the course of a pass over `x`, the pass over `c` begins. -/
def Reaches (c : ComponentId) : Nat → Scene → ComponentId → Prop :=
  Meets fun _ y => y = c

/-- A pass reaches only what is in its container. -/
theorem Reaches.inside (hlinked : s.tree.Linked) (h : s.Reaches c n x) : s.tree.Inside x c := by
  induction n generalizing s x with
  | zero =>
    obtain rfl : x = c := h
    exact s.tree.inside_self x
  | succ n ih =>
    obtain rfl | ⟨layout, laid, hopens, hcomes⟩ := h
    · exact s.tree.inside_self x
    · have hlaid := hopens.undisturbed.shape
      obtain ⟨front, y, back, mid, hchildren, hfront, -, hreaches⟩ := hcomes.exists
      have hshape := hlaid.trans
        (undisturbed_below hfront).shape
      have hin := ih (hshape.linked hlinked) hreaches
      rw [← hshape.inside_eq] at hin
      have hy : y ∈ laid.tree.visibleChildren x := by
        rw [hchildren]
        simp
      have hparent := (hlaid.linked hlinked).parent?_of_visible y hy
      rw [← hlaid.parent?_eq] at hparent
      exact hin.of_child hparent

end

end Trellis.Scene
