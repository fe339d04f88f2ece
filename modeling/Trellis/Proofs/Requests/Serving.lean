import Trellis.Proofs.Histories.Passes
import Trellis.Proofs.Passes.Levels

/-!
# Serving the requests that wait

Both calls that serve requests take all that they serve off the timers at once, and then run the
passes over their containers in ascending order. The first pass that is refused ends the call, and
the requests of the containers behind it are gone although nothing was laid out for them. A
container may be reached all the same, inside a pass over a container that it lies in.

* `run_step`: the two calls differ only in which requests they take.
* `Reached`: the pass over a container begins, on its own or inside another one.
* `reached_or_pending_iff`: exactly which of the requests that are served are not lost.
-/
namespace Trellis

/-- The calls that serve requests. -/
inductive ServeCall where
  | poll (now : Nat)
  | flush
  deriving DecidableEq, Repr

namespace ServeCall

def step : ServeCall → Step (List ComponentId)
  | .poll now => Step.poll now
  | .flush => Step.flush

/-- Whether the call serves the request that waits. -/
def takes (call : ServeCall) (d : Debounce) : Bool :=
  match call with
  | .poll now => d.isDue now
  | .flush => d.isPending

/-- The containers whose requests the call serves, in ascending order. -/
def due (call : ServeCall) (s : Scene) : List ComponentId :=
  (s.timers.filter fun _ d => call.takes d).keys

/-- The timer after the call. -/
def leave (call : ServeCall) (d : Debounce) : Debounce := if call.takes d then d.cancel else d

/-- The scene once the requests are taken, before the first pass. -/
def taken (call : ServeCall) (s : Scene) : Scene :=
  { s with timers := s.timers.map call.leave }

end ServeCall

namespace Scene

variable {s : Scene} {c : ComponentId} {xs : List ComponentId}

/-! ## One pass after another -/

theorem run_passes (s : Scene) (xs : List ComponentId) :
    s.run (Step.passes xs) = s.run (xs.forM Step.pass) >>= fun r =>
      .ok (r.1.map fun _ => xs, r.2) := by
  rw [Step.passes, run_bind]
  refine congrArg _ (funext fun r => ?_)
  obtain ⟨_ | _, mid⟩ := r <;> rfl

/-- Passes over `xs`, one after the other, reach the pass over `c`. -/
def Reached (s : Scene) (xs : List ComponentId) (c : ComponentId) : Prop :=
  s.Comes Step.pass (fun mid x => mid.Reaches c mid.tree.size x) xs

theorem reached_head (s : Scene) (c : ComponentId) (rest : List ComponentId) :
    s.Reached (c :: rest) c :=
  .inl (.self rfl s.tree.size)

theorem Reached.within (hlinked : s.tree.Linked) (h : s.Reached xs c) : s.tree.Within xs c := by
  obtain ⟨front, x, back, mid, rfl, hfront, hreaches⟩ := h.exists
  have hshape := (undisturbed_passes hfront).shape
  have hin := hreaches.inside (hshape.linked hlinked)
  rw [← hshape.inside_eq] at hin
  exact ⟨x, by simp, hin⟩

end Scene

namespace ServeCall

variable {call : ServeCall} {s s' : Scene} {c : ComponentId} {d : Debounce}
  {r : Except LayoutError (List ComponentId)}

/-! ## What the calls do -/

theorem leave_flush : flush.leave = Debounce.cancel := by
  funext d
  obtain ⟨window, _ | deadline⟩ := d <;> rfl

theorem leave_poll (now : Nat) : (poll now).leave = fun d => (d.takeDue now).2 := by
  funext d
  unfold leave takes Debounce.takeDue
  dsimp only
  split <;> rfl

theorem run_step (call : ServeCall) (s : Scene) :
    s.run call.step = (call.taken s).run (Step.passes (call.due s)) := by
  cases call with
  | poll now =>
    unfold taken
    rw [leave_poll]
    rfl
  | flush =>
    unfold taken
    rw [leave_flush]
    rfl

/-- What the passes of a call come to, the call comes to. -/
theorem run_step_eq_ok : s.run call.step = .ok (r, s') ↔
    ∃ r', (call.taken s).run ((call.due s).forM Step.pass) = .ok (r', s') ∧
      r = r'.map fun _ => call.due s := by
  rw [run_step, Scene.run_passes, Length.bind_eq_ok]
  constructor
  · intro ⟨⟨r', last⟩, hrun, h⟩
    cases h
    exact ⟨r', hrun, rfl⟩
  · intro ⟨r', hrun, h⟩
    exact ⟨(r', s'), hrun, by rw [h]⟩

theorem mem_due : c ∈ call.due s ↔ ∃ d, s.timers.get? c = some d ∧ call.takes d = true := by
  unfold due
  rw [IdMap.mem_keys]
  simp [Option.filter_eq_some_iff]

theorem pairwise_due (call : ServeCall) (s : Scene) : (call.due s).Pairwise (· < ·) :=
  IdMap.pairwise_keys _

/-- The passes leave the timers as they find them. -/
theorem timers_step (h : s.run call.step = .ok (r, s')) :
    s'.timers = s.timers.map call.leave := by
  obtain ⟨r', hrun, -⟩ := run_step_eq_ok.1 h
  exact (Scene.undisturbed_passes hrun).timers

theorem isPending_leave (hd : call.takes d = true) : (call.leave d).isPending = false := by
  unfold leave
  rw [if_pos hd]
  rfl

/-- A request that is taken does not wait any more, however the call ends. -/
theorem not_isPending_of_due (hc : c ∈ call.due s) (h : s.run call.step = .ok (r, s')) :
    s'.isPending c = false := by
  obtain ⟨d, hd, htakes⟩ := mem_due.1 hc
  unfold Scene.isPending
  rw [timers_step h, IdMap.get?_map, hd, Option.map_some, Option.any_some]
  exact isPending_leave htakes

/-- A request that is served is not lost, that is, the container is reached or its request waits on,
exactly if the passes over the containers before it go through or reach it themselves. Where one of
them is refused, the call is. -/
theorem reached_or_pending_iff {front back : List ComponentId}
    (hdue : call.due s = front ++ c :: back) (h : s.run call.step = .ok (r, s')) :
    (((call.taken s).Reached (call.due s) c ∨ s'.isPending c = true) ↔
      ((∃ mid, (call.taken s).run (front.forM Step.pass) = .ok (.ok (), mid)) ∨
        (call.taken s).Reached front c)) ∧
    ∀ e mid, (call.taken s).run (front.forM Step.pass) = .ok (.error e, mid) →
      r = .error e := by
  have hc : c ∈ call.due s := by
    rw [hdue]
    simp
  have hgone := not_isPending_of_due hc h
  refine ⟨?_, fun e mid hfront => ?_⟩
  · rw [hgone, hdue]
    unfold Scene.Reached
    rw [Scene.comes_append]
    constructor
    · intro h
      rcases h with (hreached | ⟨mid, hmid, -⟩) | hpending
      · exact .inr hreached
      · exact .inl ⟨mid, hmid⟩
      · cases hpending
    · intro h
      rcases h with ⟨mid, hmid⟩ | hreached
      · exact .inl (.inr ⟨mid, hmid, mid.reached_head c back⟩)
      · exact .inl (.inl hreached)
  · obtain ⟨r', hrun, rfl⟩ := run_step_eq_ok.1 h
    rw [hdue, Scene.run_forM_append, hfront] at hrun
    cases hrun
    rfl

section

/-- Two panes that gather requests, each with one that waits. The first pane wants regions around a
center and has none. -/
private def waitingPanes : Scene :=
  let pane (kind : LayoutKind) : ItemConfig :=
    { layout := some { kind, bufferResize := some (.enabled true) } }
  let timer := (Debounce.idle BufferResize.standardWindow).request 0
  let root : ItemConfig := { layout := some { kind := .auto } }
  { Scene.ofTree (.ofDescription (.node root [.node (pane .border) [], .node (pane .auto) []]))
      .standard with
    timers := (IdMap.empty.insert 1 timer).insert 2 timer }

/-- The pass over the first pane is refused, and the request of the second one is lost. -/
theorem refused_pane_loses_next_request :
    ∃ s', waitingPanes.isPending 2 = true ∧ (poll 100).due waitingPanes = [1, 2] ∧
      waitingPanes.run (poll 100).step = .ok (.error (.missingCenterRegion 1), s') ∧
      ¬ (((poll 100).taken waitingPanes).Reached [1, 2] 2 ∨ s'.isPending 2 = true) := by
  obtain ⟨s, r, s', hs, hrun, hview⟩ := Scene.runs_of_viewLast
    (show waitingPanes.viewLast [] (poll 100).step (fun _ r _ => r) =
      some (.error (.missingCenterRegion 1)) by decide +kernel)
  cases hs
  cases hview
  have hdue : (poll 100).due waitingPanes = [1] ++ 2 :: [] := by decide +kernel
  refine ⟨s', by decide +kernel, hdue, hrun, ?_⟩
  have hlost := (reached_or_pending_iff hdue hrun).1
  rw [hdue] at hlost
  refine fun hkept => (hlost.1 hkept).elim (fun ⟨mid, hmid⟩ => ?_) fun hreached => ?_
  · -- the pass over the first pane does not go through
    have hrefused : ((poll 100).taken waitingPanes).viewAfter ([1].forM Step.pass)
        (fun _ => ()) = none := by decide +kernel
    unfold Scene.viewAfter at hrefused
    rw [hmid] at hrefused
    cases hrefused
  · -- and the second pane is not in it
    have hnested : waitingPanes.tree.Nested := Tree.nested_ofDescription _
    have hin := Scene.Reached.within (s := (poll 100).taken waitingPanes) hnested.linked hreached
    rw [Tree.within_singleton] at hin
    have hsame := hnested.apart (c := 0) (by decide +kernel) (by decide +kernel) hin
      (waitingPanes.tree.inside_self 2)
    cases hsame

end

end ServeCall

end Trellis
