import Trellis.Proofs.Dirty.Layouts
import Trellis.Proofs.Passes.Records

/-!
# What passes make dirty

Between two collections of changes a component gets many rectangles: from its parent's layout in one
or two rounds, from every pass that reaches the parent, and from many passes. It becomes dirty in
the course of a pass exactly if the layout of a container that the pass comes to gives it a
rectangle that is new to it at that moment, whatever comes later.

* `Renews`: the layout of one container does so; `Opens.accounts`.
* `accounts_passWithin`, `accounts_passes`: who becomes dirty in the course of passes.
-/
namespace Trellis

/-- Accounts that hold whatever is given for them hold of what is given, if there is anything. -/
theorem Tree.Accounts.of_given {t u : Tree} {i : ComponentId} {α : Type} {given altered : α → Prop}
    (h : ∀ x, given x → t.Accounts u i (altered x))
    (hsome : (∃ x, given x) ∨ u.mark? = t.mark?) :
    t.Accounts u i (∃ x, given x ∧ altered x) := by
  have hdirty : (∃ x, given x ∧ altered x) → i ∈ u.dirtyIds := by
    rintro ⟨x, hx, haltered⟩
    exact (h x hx).dirty.2 (.inr haltered)
  obtain ⟨x, hx⟩ | hsame := hsome
  · refine ⟨⟨fun hi => ?_, ?_⟩, fun hnone => (h x hx).rect fun hx' => hnone ⟨x, hx, hx'⟩⟩
    · exact ((h x hx).dirty.1 hi).imp_right fun haltered => ⟨x, hx, haltered⟩
    · rintro (hi | haltered)
      · exact (h x hx).dirty.2 (.inl hi)
      · exact hdirty haltered
  · have hnone := Accounts.of_same hsame i
    refine ⟨⟨fun hi => .inl ((hnone.dirty.1 hi).resolve_right id), ?_⟩, fun _ => hnone.rect id⟩
    rintro (hi | haltered)
    · exact hnone.dirty.2 (.inl hi)
    · exact hdirty haltered

namespace Scene

variable {s s' laid : Scene} {layout : LayoutConfig} {container i : ComponentId} {n : Nat}
  {r : Except LayoutError Unit} {xs : List ComponentId}

/-- What the layout of a container has been seen to do. -/
structure OwnLayout where
  layout : LayoutConfig
  result : Except LayoutError Unit
  laid : Scene
  placements : List Placement

/-- The layout of `container` runs and writes the placements. -/
structure OwnLayout.Runs (d : OwnLayout) (s : Scene) (container : ComponentId) : Prop where
  opens : s.Opens d.layout container d.result d.laid
  draws : Draws d.layout container (s.arrangement d.layout container)
    (s.begun d.layout container) d.placements d.laid

/-- The layout of `container` gives the component a rectangle that is new to it. -/
def Renews (i : ComponentId) (s : Scene) (container : ComponentId) : Prop :=
  ∃ d : OwnLayout, d.Runs s container ∧ s.tree.Alters i d.placements

theorem mark?_begun (s : Scene) (layout : LayoutConfig) (container : ComponentId) :
    (s.begun layout container).tree.mark? = s.tree.mark? := by
  refine (Tree.mark?_renderChildren _ container).trans ?_
  rw [tree_told]

theorem OwnLayout.Runs.accounts {d : OwnLayout} (h : d.Runs s container) (i : ComponentId) :
    s.tree.Accounts d.laid.tree i (s.tree.Alters i d.placements) := by
  refine Tree.accounts_applyPlacements ?_ i
  rw [h.draws.mark?_eq]
  exact Tree.mark?_applyPlacements_congr (s.mark?_begun d.layout container) d.placements

theorem Opens.accounts (h : s.Opens layout container r laid) (i : ComponentId) :
    s.tree.Accounts laid.tree i (s.Renews i container) := by
  obtain ⟨placements, hdraws⟩ := draws_of_run h.arranged
  -- whichever placements the layout is seen to write, it ends in the one scene that it leaves
  refine .of_given (fun d hd => ?_) (.inl ⟨⟨layout, r, laid, placements⟩, h, hdraws⟩)
  obtain ⟨-, -, hlaid⟩ := h.unique hd.opens
  rw [← hlaid]
  exact hd.accounts i

/-! ## Passes inside passes -/

/-- Steps over single components that account for what is dirty do so one after the other. -/
theorem accounts_forM {f : ComponentId → Step Unit} {P : Scene → ComponentId → Prop}
    (hone : ∀ {s s' : Scene} {r : Except LayoutError Unit} (x : ComponentId),
      s.run (f x) = .ok (r, s') → s.tree.Accounts s'.tree i (P s x))
    (h : s.run (xs.forM f) = .ok (r, s')) : s.tree.Accounts s'.tree i (s.Comes f P xs) := by
  induction xs generalizing s with
  | nil =>
    cases h
    exact .of_same rfl i
  | cons x rest ih =>
    rcases run_forM_cons_eq_ok h with ⟨e, hfirst, -⟩ | ⟨mid, hfirst, hrest⟩
    · refine (hone x hfirst).congr ⟨.inl, fun hcomes => hcomes.resolve_right ?_⟩
      rintro ⟨mid, hmid, -⟩
      rw [hfirst] at hmid
      cases hmid
    · refine ((hone x hfirst).trans (ih hrest)).congr (or_congr_right ⟨fun hcomes => ?_, ?_⟩)
      · exact ⟨mid, hfirst, hcomes⟩
      · rintro ⟨mid', hmid, hcomes⟩
        rw [hfirst] at hmid
        cases hmid
        exact hcomes

/-- A pass whose layout does not run renews nothing. -/
theorem not_meets_of_closed (h : ∀ layout r laid, ¬ s.Opens layout container r laid) :
    ¬ s.Meets (Renews i) (n + 1) container := by
  rintro (⟨d, hd, -⟩ | ⟨layout, laid, hopens, -⟩)
  · exact h _ _ _ hd.opens
  · exact h _ _ _ hopens

theorem meets_of_opens (h : s.Opens layout container (.ok ()) laid) :
    s.Meets (Renews i) (n + 1) container ↔ s.Renews i container ∨
      laid.Comes (Step.passOver n)
        (fun mid y => (mid.tree.layout? y).isSome ∧ mid.Meets (Renews i) n y)
        (laid.tree.visibleChildren container) := by
  refine or_congr_right ⟨?_, fun hcomes => ⟨layout, laid, h, hcomes⟩⟩
  rintro ⟨layout', laid', hopens, hcomes⟩
  obtain ⟨-, -, rfl⟩ := h.unique hopens
  exact hcomes

/-- A pass that does not go on to the containers below renews what its own layout does. -/
theorem meets_of_refused {e : LayoutError} (h : s.Opens layout container (.error e) laid) :
    s.Meets (Renews i) (n + 1) container ↔ s.Renews i container := by
  refine ⟨fun hmeets => hmeets.resolve_right ?_, .inl⟩
  rintro ⟨layout', laid', hopens, -⟩
  obtain ⟨-, hr, -⟩ := h.unique hopens
  cases hr

theorem accounts_passWithin (h : s.run (Step.passWithin n container) = .ok (r, s')) :
    s.tree.Accounts s'.tree i (s.Meets (Renews i) n container) := by
  induction n generalizing s s' r container with
  | zero => cases h
  | succ n ih =>
    -- children that are no containers are passed over, and nothing is renewed in them
    have hbelow : ∀ {laid after : Scene} {r : Except LayoutError Unit} {xs : List ComponentId},
        laid.run (xs.forM (Step.passOver n)) = .ok (r, after) →
        laid.tree.Accounts after.tree i (laid.Comes (Step.passOver n)
          (fun mid y => (mid.tree.layout? y).isSome ∧ mid.Meets (Renews i) n y) xs) := by
      refine accounts_forM fun y hrun => ?_
      rw [run_passOver] at hrun
      split at hrun
      · next hsome => exact (ih hrun).congr (by simp [hsome])
      · next hnone =>
        cases hrun
        exact (Tree.Accounts.of_same rfl i).congr (by simp [hnone])
    cases level_of_run h with
    | unknown herror =>
      refine (Tree.Accounts.of_same rfl i).congr (iff_of_false id (not_meets_of_closed ?_))
      intro layout r laid hopens
      rw [hopens.layout_eq] at herror
      cases herror
    | vetoed hlayout hvetoed =>
      refine (Tree.Accounts.of_same (by rw [tree_told]) i).congr
        (iff_of_false id (not_meets_of_closed ?_))
      intro layout r laid hopens
      rw [hopens.heard] at hvetoed
      cases hvetoed
    | refused hopens => exact (hopens.accounts i).congr (meets_of_refused hopens).symm
    | stopped hopens hrun =>
      exact ((hopens.accounts i).trans (hbelow hrun)).congr (meets_of_opens hopens).symm
    | finished hopens hrun =>
      rw [tree_told]
      exact ((hopens.accounts i).trans (hbelow hrun)).congr (meets_of_opens hopens).symm

/-- In the course of passes over `xs`, one after the other, the layout of a container gives the
component a rectangle that is new to it. -/
def RenewsIn (i : ComponentId) (s : Scene) (xs : List ComponentId) : Prop :=
  s.Comes Step.pass (fun mid x => mid.Meets (Renews i) mid.tree.size x) xs

/-- Who becomes dirty in the course of passes. -/
theorem accounts_passes (h : s.run (xs.forM Step.pass) = .ok (r, s')) :
    s.tree.Accounts s'.tree i (s.RenewsIn i xs) :=
  accounts_forM (fun _ hrun => accounts_passWithin hrun) h

end Scene

end Trellis
