import Trellis.Proofs.Hidden.Turns
import Trellis.Proofs.Requests.Gathering

/-!
# The window that a request waits for

A container's timer gets its window when it is made, for the first request of the container that is
told to wait, and it outlives that request: serving, laying out and cancelling leave the window as
it is. Whether a later request is to wait is read off the settings that the container has then; how
long it waits is not, unless they still give the first window.

* `Windowed`: calls and changes of settings, with the windows that requests to wait found.
* `window_of_windowed`: the timers have the first windows of these.
* `deadline_has_first_window`: what that makes of the deadline of a request.
-/
namespace Trellis

namespace Scene

variable {s₀ s s' : Scene} {log : List (ComponentId × Nat)} {c d : ComponentId} {now window : Nat}

/-- From `s₀`, calls and changes of the tree and of the host have left the scene. The log lists the
requests that were told to wait, with the windows that their containers' settings gave at the time,
oldest first; what is destroyed is taken out of it. -/
inductive Windowed (s₀ : Scene) : List (ComponentId × Nat) → Scene → Prop where
  | start : Windowed s₀ [] s₀
  | gathered {log : List (ComponentId × Nat)} {s s' : Scene} {c : ComponentId} {now window : Nat}
    {r : Except LayoutError Bool} (h : Windowed s₀ log s)
    (hwindow : s.tree.window? c = some window)
    (hrun : s.run (Step.requestLayout c now) = .ok (r, s')) :
    Windowed s₀ (log ++ [(c, window)]) s'
  /-- Requests are not gathered there, or there is no container to lay out. -/
  | immediate {log : List (ComponentId × Nat)} {s s' : Scene} {c : ComponentId} {now : Nat}
    {r : Except LayoutError Bool} (h : Windowed s₀ log s) (hwindow : s.tree.window? c = none)
    (hrun : s.run (Step.requestLayout c now) = .ok (r, s')) : Windowed s₀ log s'
  | served {log : List (ComponentId × Nat)} {s s' : Scene} {call : ServeCall}
    {r : Except LayoutError (List ComponentId)} (h : Windowed s₀ log s)
    (hrun : s.run call.step = .ok (r, s')) : Windowed s₀ log s'
  | laidOut {log : List (ComponentId × Nat)} {s s' : Scene} {c : ComponentId}
    {r : Except LayoutError Unit} (h : Windowed s₀ log s)
    (hrun : s.run (Step.layout c) = .ok (r, s')) : Windowed s₀ log s'
  | destroyed {log : List (ComponentId × Nat)} {s s' : Scene} {c : ComponentId}
    {r : Except LayoutError Unit} (h : Windowed s₀ log s)
    (hrun : s.run (Step.destroy c) = .ok (r, s')) :
    Windowed s₀ (log.filter fun e => !decide (s.tree.Inside c e.1)) s'
  /-- Components are added, moved or get other settings, or the host changes. -/
  | changed {log : List (ComponentId × Nat)} {s : Scene} (t : Tree) (host : Host)
    (h : Windowed s₀ log s) : Windowed s₀ log { s with tree := t, host := host }

/-- The window that the first request of `c` to wait has found. -/
def firstWindow (log : List (ComponentId × Nat)) (c : ComponentId) : Option Nat :=
  (log.find? fun e => e.1 == c).map Prod.snd

theorem firstWindow_append (log more : List (ComponentId × Nat)) (c : ComponentId) :
    firstWindow (log ++ more) c = (firstWindow log c).or (firstWindow more c) := by
  unfold firstWindow
  rw [List.find?_append]
  cases log.find? fun e => e.1 == c <;> rfl

theorem firstWindow_filter (log : List (ComponentId × Nat)) (gone : ComponentId → Prop)
    [DecidablePred gone] (c : ComponentId) :
    firstWindow (log.filter fun e => !decide (gone e.1)) c =
      if gone c then none else firstWindow log c := by
  unfold firstWindow
  rw [List.find?_filter]
  split
  · next hgone =>
    rw [List.find?_eq_none.2, Option.map_none]
    intro e _ he
    obtain ⟨hstays, rfl⟩ : ¬ gone e.1 ∧ e.1 = c := by simpa using he
    exact hstays hgone
  · next hstays =>
    congr 2
    funext e
    by_cases he : e.1 = c
    · simp [he, hstays]
    · simp [he]

/-! ## The window of a timer -/

/-- The window of the timer of `c`. -/
def timerWindow (s : Scene) (c : ComponentId) : Option Nat :=
  (s.timers.get? c).map Debounce.window

theorem timerWindow_layout {r : Except LayoutError Unit}
    (h : s.run (Step.layout d) = .ok (r, s')) (c : ComponentId) :
    s'.timerWindow c = s.timerWindow c := by
  unfold timerWindow
  rw [(timers_layout h).1, IdMap.get?_modify]
  split
  · cases s.timers.get? c <;> rfl
  · rfl

theorem timerWindow_serve {call : ServeCall} {r : Except LayoutError (List ComponentId)}
    (h : s.run call.step = .ok (r, s')) (c : ComponentId) :
    s'.timerWindow c = s.timerWindow c := by
  unfold timerWindow
  rw [ServeCall.timers_step h, IdMap.get?_map]
  cases s.timers.get? c with
  | none => rfl
  | some t =>
    rw [Option.map_some, Option.map_some, Option.map_some, ServeCall.leave]
    split <;> rfl

theorem timerWindow_immediate {r : Except LayoutError Bool} (hwindow : s.tree.window? d = none)
    (h : s.run (Step.requestLayout d now) = .ok (r, s')) (c : ComponentId) :
    s'.timerWindow c = s.timerWindow c := by
  cases hlayout : s.tree.layoutOf d with
  | error e =>
    rw [run_requestLayout_unknown hlayout] at h
    cases h
    rfl
  | ok layout =>
    have hnone : layout.window? = none := by
      rwa [Tree.window?, Tree.layout?_of_layoutOf hlayout, Option.bind_some] at hwindow
    rw [run_requestLayout_immediate hlayout hnone] at h
    obtain ⟨⟨r', mid⟩, hlaid, h⟩ := Length.bind_eq_ok.1 h
    cases h
    exact timerWindow_layout hlaid c

theorem timerWindow_destroy {r : Except LayoutError Unit}
    (h : s.run (Step.destroy d) = .ok (r, s')) (c : ComponentId) :
    s'.timerWindow c = if s.tree.Inside d c then none else s.timerWindow c := by
  unfold timerWindow
  rw [get?_timers_destroy h]
  split <;> rfl

/-- A request of a container that gathers them is told to wait. -/
theorem run_requestLayout_of_window (hwindow : s.tree.window? c = some window) (now : Nat) :
    s.run (Step.requestLayout c now) =
      .ok (.ok false, { s with timers := s.timers.insert c (s.asked c window now) }) := by
  obtain ⟨layout, hlayout, hgathers⟩ := Option.bind_eq_some_iff.1 hwindow
  exact run_requestLayout_gathered (Tree.layoutOf_of_layout? hlayout) hgathers

theorem window_asked (s : Scene) (c : ComponentId) (window now : Nat) :
    (s.asked c window now).window = (s.timerWindow c).getD window := by
  unfold asked timerWindow
  cases s.timers.get? c <;> rfl

theorem window_of_windowed (hfresh : ∀ c, s₀.timers.get? c = none) (h : Windowed s₀ log s)
    (c : ComponentId) : s.timerWindow c = firstWindow log c := by
  induction h with
  | start =>
    unfold timerWindow
    rw [hfresh]
    rfl
  | @gathered log s s' d now window r _ hwindow hrun ih =>
    rw [run_requestLayout_of_window hwindow] at hrun
    cases hrun
    rw [firstWindow_append, ← ih]
    show ((s.timers.insert d (s.asked d window now)).get? c).map Debounce.window = _
    rw [IdMap.get?_insert]
    by_cases hcd : c = d
    · subst hcd
      rw [if_pos rfl, Option.map_some, window_asked]
      simp [firstWindow, Option.or_some]
    · rw [if_neg hcd]
      simp [firstWindow, Ne.symm hcd, timerWindow]
  | immediate _ hwindow hrun ih => rw [timerWindow_immediate hwindow hrun, ih]
  | served _ hrun ih => rw [timerWindow_serve hrun, ih]
  | laidOut _ hrun ih => rw [timerWindow_layout hrun, ih]
  | destroyed _ hrun ih =>
    rw [timerWindow_destroy hrun, ih]
    exact (firstWindow_filter _ _ c).symm
  | changed _ _ _ ih => exact ih

/-! ## Deadlines -/

/-- Where requests are gathered, a request is told to wait, for as long as the first one was that is
on record for the container. This is the window that the container's settings give now exactly if
there is no such request or they gave the same window then. -/
theorem deadline_has_first_window (hfresh : ∀ c, s₀.timers.get? c = none)
    (h : Windowed s₀ log s) (hwindow : s.tree.window? c = some window) (now : Nat) :
    ∃ s', s.run (Step.requestLayout c now) = .ok (.ok false, s') ∧
      s'.deadline c = some (now + (firstWindow log c).getD window) ∧
      (s'.deadline c = some (now + window) ↔
        ∀ first, firstWindow log c = some first → first = window) := by
  have hdeadline : Scene.deadline { s with timers := s.timers.insert c (s.asked c window now) } c =
      some (now + (firstWindow log c).getD window) := by
    rw [← window_of_windowed hfresh h, ← window_asked s c window now, Scene.deadline,
      IdMap.get?_insert, if_pos rfl]
    rfl
  refine ⟨_, run_requestLayout_of_window hwindow now, hdeadline, ?_⟩
  rw [hdeadline]
  cases firstWindow log c with
  | none => simp
  | some first => simp

section

private def bufferedBy (millis : Nat) : LayoutConfig :=
  { kind := .auto, bufferResize := some (.millis millis) }

/-- A pane that gathers requests, fifty milliseconds at a time. -/
private def fiftyPane : Scene :=
  .ofTree (.ofDescription (.node { layout := some (bufferedBy 50) } [])) .standard

/-- A pane that is to gather requests for two hundred milliseconds still does so for fifty. -/
theorem pane_keeps_first_window :
    ∃ s s', fiftyPane.Windowed [(0, 50)] s ∧ s.tree.window? 0 = some 200 ∧
      s.run (Step.requestLayout 0 10) = .ok (.ok false, s') ∧
      s'.deadline 0 = some 60 ∧ s'.deadline 0 ≠ some (10 + 200) := by
  have hfirst : fiftyPane.run (Step.requestLayout 0 0) =
      .ok (.ok false, { fiftyPane with timers := IdMap.empty.insert 0 ⟨50, some 50⟩ }) :=
    run_requestLayout_of_window rfl 0
  have hlog := (Windowed.gathered .start (show fiftyPane.tree.window? 0 = some 50 by rfl)
    hfirst).changed (fiftyPane.tree.setLayout 0 (some (bufferedBy 200))) fiftyPane.host
  have hwindow : (fiftyPane.tree.setLayout 0 (some (bufferedBy 200))).window? 0 = some 200 := rfl
  obtain ⟨s', hrun, hdeadline, hiff⟩ := deadline_has_first_window (fun _ => rfl) hlog hwindow 10
  refine ⟨_, s', hlog, hwindow, hrun, hdeadline, fun hnow => ?_⟩
  exact absurd (hiff.1 hnow 50 rfl) (by decide)

end

end Scene

end Trellis
