import Trellis.Proofs.Requests.Ancestors
import Trellis.Proofs.Requests.Serving

/-!
# Gathered requests

Timers against a plain log of what was asked and what was done, newest first. In the log, a request
of a container waits if nothing after it has met it: the container was not served, laid out or
destroyed, be it as part of another one. Its deadline is the time of the last such request and the
container's window later.

* `Service.latest`, `Service.deadline`: the last request that waits, and its deadline, by the log.
* `Logged`: the calls that make a log, and the scene that they leave.
* `Tracks`: the timers agree with the log; `Tracks.requestLayout`, ..., `Tracks.destroy`: every call
  keeps them so.
* `serves_of_logged`: so what waits, when it is due and what a call serves is what the log says.
-/
namespace Trellis

/-- What happens to the requests of containers. -/
inductive Service where
  /-- A layout was asked for, and the request was told to wait. -/
  | requested (container : ComponentId) (now : Nat)
  /-- The containers whose requests a call served. -/
  | served (containers : List ComponentId)
  | laidOut (container : ComponentId)
  | destroyed (container : ComponentId)
  deriving DecidableEq, Repr

namespace Tree

/-- How long the requests of a container wait, if they are gathered. -/
def window? (t : Tree) (c : ComponentId) : Option Nat :=
  (t.layout? c).bind LayoutConfig.window?

end Tree

namespace Service

/-- When the request of `c` was made last that still waits. -/
def latest (t : Tree) (c : ComponentId) : List Service → Option Nat
  | [] => none
  | .requested d now :: earlier => if c = d then some now else latest t c earlier
  | .served ds :: earlier => if c ∈ ds then none else latest t c earlier
  | .laidOut d :: earlier => if c = d then none else latest t c earlier
  | .destroyed d :: earlier => if t.Inside d c then none else latest t c earlier

/-- When the request of `c` that waits is to be served. -/
def deadline (t : Tree) (log : List Service) (c : ComponentId) : Option Nat := do
  let asked ← latest t c log
  let window ← t.window? c
  return asked + window

end Service

namespace Scene

variable {s s₀ s' : Scene} {t : Tree} {log : List Service} {c : ComponentId} {now : Nat}
  {layout : LayoutConfig}

/-- From `s₀`, the calls in `log` have left the scene. A call that serves requests has gone through;
any other one may have been refused. -/
inductive Logged (s₀ : Scene) : List Service → Scene → Prop where
  | start : Logged s₀ [] s₀
  | requested {log : List Service} {s s' : Scene} {c : ComponentId} {now : Nat}
    (h : Logged s₀ log s) (hrun : s.run (Step.requestLayout c now) = .ok (.ok false, s')) :
    Logged s₀ (.requested c now :: log) s'
  /-- Where requests are not gathered, the container is laid out at once. -/
  | immediate {log : List Service} {s s' : Scene} {c : ComponentId} {now : Nat}
    {layout : LayoutConfig} {r : Except LayoutError Bool} (h : Logged s₀ log s)
    (hlayout : s.tree.layoutOf c = .ok layout) (hwindow : layout.window? = none)
    (hrun : s.run (Step.requestLayout c now) = .ok (r, s')) :
    Logged s₀ (.laidOut c :: log) s'
  /-- There is no container to lay out. -/
  | unknown {log : List Service} {s s' : Scene} {c : ComponentId} {now : Nat} {e : LayoutError}
    {r : Except LayoutError Bool} (h : Logged s₀ log s) (hlayout : s.tree.layoutOf c = .error e)
    (hrun : s.run (Step.requestLayout c now) = .ok (r, s')) : Logged s₀ log s'
  | served {log : List Service} {s s' : Scene} {call : ServeCall} {ids : List ComponentId}
    (h : Logged s₀ log s) (hrun : s.run call.step = .ok (.ok ids, s')) :
    Logged s₀ (.served ids :: log) s'
  | laidOut {log : List Service} {s s' : Scene} {c : ComponentId} {r : Except LayoutError Unit}
    (h : Logged s₀ log s) (hrun : s.run (Step.layout c) = .ok (r, s')) :
    Logged s₀ (.laidOut c :: log) s'
  | destroyed {log : List Service} {s s' : Scene} {c : ComponentId} {r : Except LayoutError Unit}
    (h : Logged s₀ log s) (hrun : s.run (Step.destroy c) = .ok (r, s')) :
    Logged s₀ (.destroyed c :: log) s'

/-! ## What the calls do to timers -/

/-- The deadline of the timer of `c`. -/
def deadline (s : Scene) (c : ComponentId) : Option Nat :=
  (s.timers.get? c).bind Debounce.deadline

theorem isPending_eq (s : Scene) (c : ComponentId) : s.isPending c = (s.deadline c).isSome := by
  unfold isPending deadline
  cases s.timers.get? c <;> rfl

/-- The timer of a container that is asked for at `now`. -/
def asked (s : Scene) (c : ComponentId) (window now : Nat) : Debounce :=
  ((s.timers.get? c).getD (.idle window)).request now

theorem run_requestLayout_unknown {e : LayoutError} (h : s.tree.layoutOf c = .error e) :
    s.run (Step.requestLayout c now) = .ok (.error e, s) := by
  rw [Step.requestLayout, run_bind, run_layoutConfig, h]
  rfl

theorem run_requestLayout_immediate (hlayout : s.tree.layoutOf c = .ok layout)
    (hwindow : layout.window? = none) :
    s.run (Step.requestLayout c now) = s.run (Step.layout c) >>= fun r =>
      .ok (r.1.map fun _ => true, r.2) := by
  rw [Step.requestLayout, run_bind, run_layoutConfig, hlayout, Length.ok_bind]
  dsimp only
  rw [hwindow]
  dsimp only
  rw [run_bind]
  refine congrArg _ (funext fun r => ?_)
  obtain ⟨_ | _, mid⟩ := r <;> rfl

theorem run_requestLayout_gathered {window : Nat} (hlayout : s.tree.layoutOf c = .ok layout)
    (hwindow : layout.window? = some window) :
    s.run (Step.requestLayout c now) =
      .ok (.ok false, { s with timers := s.timers.insert c (s.asked c window now) }) := by
  rw [Step.requestLayout, run_bind, run_layoutConfig, hlayout, Length.ok_bind]
  dsimp only
  rw [hwindow]
  rfl

/-- A request that is told to wait is for a container that gathers requests. -/
theorem run_requestLayout_eq_false
    (h : s.run (Step.requestLayout c now) = .ok (.ok false, s')) :
    ∃ window, s.tree.window? c = some window ∧
      s' = { s with timers := s.timers.insert c (s.asked c window now) } := by
  cases hlayout : s.tree.layoutOf c with
  | error e =>
    rw [run_requestLayout_unknown hlayout] at h
    cases h
  | ok layout =>
    cases hwindow : layout.window? with
    | none =>
      rw [run_requestLayout_immediate hlayout hwindow] at h
      obtain ⟨⟨_ | _, mid⟩, -, h⟩ := Length.bind_eq_ok.1 h <;> cases h
    | some window =>
      rw [run_requestLayout_gathered hlayout hwindow] at h
      cases h
      refine ⟨window, ?_, rfl⟩
      unfold Tree.window?
      rw [Tree.layout?_of_layoutOf hlayout, Option.bind_some, hwindow]

theorem timers_layout {r : Except LayoutError Unit} (h : s.run (Step.layout c) = .ok (r, s')) :
    s'.timers = s.timers.modify c Debounce.cancel ∧ s.tree.SameShape s'.tree := by
  rw [run_layout] at h
  have hpass := undisturbed_pass h
  exact ⟨hpass.timers, hpass.shape⟩

/-- No request waits any longer for the container that is destroyed, nor for anything in it. -/
theorem get?_timers_destroy {r : Except LayoutError Unit}
    (h : s.run (Step.destroy c) = .ok (r, s')) (i : ComponentId) :
    s'.timers.get? i = if s.tree.Inside c i then none else s.timers.get? i := by
  cases h
  exact Tree.get?_filter_outside s.timers s.tree c i

/-! ## Timers and log -/

/-- The timers agree with the log. -/
structure Tracks (t : Tree) (log : List Service) (s : Scene) : Prop where
  shape : t.SameShape s.tree
  /-- Only containers that gather requests have been asked to wait. -/
  gathers : ∀ c, (Service.latest t c log).isSome → (t.window? c).isSome
  windows : ∀ c d, s.timers.get? c = some d → t.window? c = some d.window
  deadline_eq : ∀ c, s.deadline c = Service.deadline t log c

namespace Tracks

theorem start (hfresh : ∀ c, s₀.timers.get? c = none) : Tracks s₀.tree [] s₀ := by
  refine ⟨.refl _, fun c hc => ?_, fun c d hd => ?_, fun c => ?_⟩
  · cases hc
  · rw [hfresh] at hd
    cases hd
  · unfold Scene.deadline
    rw [hfresh]
    rfl

/-- A call that forgets the requests of some containers, timers and all or not. -/
theorem forget {log' : List Service} (gone : ComponentId → Prop) [DecidablePred gone]
    (h : Tracks t log s) (hshape : t.SameShape s'.tree)
    (hlatest : ∀ c, Service.latest t c log' = if gone c then none else Service.latest t c log)
    (hdeadline : ∀ c, s'.deadline c = if gone c then none else s.deadline c)
    (hwindows : ∀ c d, s'.timers.get? c = some d →
      ∃ d', s.timers.get? c = some d' ∧ d'.window = d.window) : Tracks t log' s' := by
  refine ⟨hshape, fun c hc => ?_, fun c d hd => ?_, fun c => ?_⟩
  · rw [hlatest] at hc
    split at hc
    · cases hc
    · exact h.gathers c hc
  · obtain ⟨d', hd', hwindow⟩ := hwindows c d hd
    rw [h.windows c d' hd', hwindow]
  · unfold Service.deadline
    rw [hdeadline, hlatest]
    split
    · rfl
    · exact h.deadline_eq c

theorem requestLayout (h : Tracks t log s)
    (hrun : s.run (Step.requestLayout c now) = .ok (.ok false, s')) :
    Tracks t (.requested c now :: log) s' := by
  obtain ⟨window, hwindow, rfl⟩ := run_requestLayout_eq_false hrun
  have hwindow' : t.window? c = some window := by
    unfold Tree.window? at hwindow ⊢
    rw [h.shape.layout?_eq, hwindow]
  have hasked : (s.asked c window now).window = window := by
    unfold asked
    cases hd : s.timers.get? c with
    | none => rfl
    | some d =>
      have hsame := h.windows c d hd
      rw [hwindow', Option.some.injEq] at hsame
      exact hsame.symm
  have hnext : (s.asked c window now).deadline = some (now + window) := by
    conv_rhs => rw [← hasked]
    rfl
  refine ⟨h.shape, fun i hi => ?_, fun i d hd => ?_, fun i => ?_⟩
  · by_cases hic : i = c
    · rw [hic, hwindow']
      rfl
    · rw [Service.latest, if_neg hic] at hi
      exact h.gathers i hi
  · rw [IdMap.get?_insert] at hd
    split at hd
    · next hic =>
      cases hd
      rw [hic, hwindow', hasked]
    · exact h.windows i d hd
  · unfold Scene.deadline Service.deadline
    rw [IdMap.get?_insert, Service.latest]
    by_cases hic : i = c
    · rw [if_pos hic, if_pos hic, hic, hwindow', Option.bind_some, hnext]
      rfl
    · rw [if_neg hic, if_neg hic]
      exact h.deadline_eq i

theorem laidOut {r : Except LayoutError Unit} (h : Tracks t log s)
    (hrun : s.run (Step.layout c) = .ok (r, s')) : Tracks t (.laidOut c :: log) s' := by
  obtain ⟨htimers, hshape⟩ := timers_layout hrun
  refine h.forget (· = c) (h.shape.trans hshape) (fun _ => rfl) (fun i => ?_)
    fun i d hd => ?_
  · unfold Scene.deadline
    rw [htimers, IdMap.get?_modify]
    split
    · cases s.timers.get? i <;> rfl
    · rfl
  · rw [htimers, IdMap.get?_modify] at hd
    split at hd
    · obtain ⟨d', hd', rfl⟩ := Option.map_eq_some_iff.1 hd
      exact ⟨d', hd', rfl⟩
    · exact ⟨d, hd, rfl⟩

theorem immediate {r : Except LayoutError Bool} (h : Tracks t log s)
    (hlayout : s.tree.layoutOf c = .ok layout) (hwindow : layout.window? = none)
    (hrun : s.run (Step.requestLayout c now) = .ok (r, s')) :
    Tracks t (.laidOut c :: log) s' := by
  rw [run_requestLayout_immediate hlayout hwindow] at hrun
  obtain ⟨⟨r', mid⟩, hlaid, hrun⟩ := Length.bind_eq_ok.1 hrun
  cases hrun
  exact h.laidOut hlaid

theorem serve {call : ServeCall} {ids : List ComponentId} (h : Tracks t log s)
    (hrun : s.run call.step = .ok (.ok ids, s')) : Tracks t (.served ids :: log) s' := by
  have htimers := ServeCall.timers_step hrun
  obtain ⟨r, hpasses, hr⟩ := ServeCall.run_step_eq_ok.1 hrun
  obtain rfl : ids = call.due s := by
    cases r with
    | error e => cases hr
    | ok _ => exact Except.ok.inj hr
  refine h.forget (· ∈ call.due s) (h.shape.trans (undisturbed_passes hpasses).shape)
    (fun _ => rfl) (fun i => ?_) fun i d hd => ?_
  · unfold Scene.deadline
    rw [htimers, IdMap.get?_map]
    split
    · next hdue =>
      obtain ⟨d, hd, htakes⟩ := ServeCall.mem_due.1 hdue
      rw [hd, Option.map_some, Option.bind_some, ServeCall.leave, if_pos htakes]
      rfl
    · next hnot =>
      cases hd : s.timers.get? i with
      | none => rfl
      | some d =>
        have htakes : ¬ call.takes d = true := fun htakes =>
          hnot (ServeCall.mem_due.2 ⟨d, hd, htakes⟩)
        rw [Option.map_some, Option.bind_some, Option.bind_some, ServeCall.leave, if_neg htakes]
  · rw [htimers, IdMap.get?_map] at hd
    obtain ⟨d', hd', rfl⟩ := Option.map_eq_some_iff.1 hd
    refine ⟨d', hd', ?_⟩
    unfold ServeCall.leave
    split <;> rfl

theorem destroy {r : Except LayoutError Unit} (h : Tracks t log s)
    (hrun : s.run (Step.destroy c) = .ok (r, s')) : Tracks t (.destroyed c :: log) s' := by
  have htimers := get?_timers_destroy hrun
  simp only [← h.shape.inside_eq] at htimers
  refine h.forget (fun i => t.Inside c i) (by cases hrun; exact h.shape) (fun _ => rfl)
    (fun i => ?_) fun i d hd => ?_
  · unfold Scene.deadline
    rw [htimers]
    split <;> rfl
  · rw [htimers] at hd
    split at hd
    · cases hd
    · exact ⟨d, hd, rfl⟩

end Tracks

theorem tracks_of_logged (hfresh : ∀ c, s₀.timers.get? c = none) (h : Logged s₀ log s) :
    Tracks s₀.tree log s := by
  induction h with
  | start => exact .start hfresh
  | requested _ hrun ih => exact ih.requestLayout hrun
  | immediate _ hlayout hwindow hrun ih => exact ih.immediate hlayout hwindow hrun
  | unknown _ hlayout hrun ih =>
    rw [run_requestLayout_unknown hlayout] at hrun
    cases hrun
    exact ih
  | served _ hrun ih => exact ih.serve hrun
  | laidOut _ hrun ih => exact ih.laidOut hrun
  | destroyed _ hrun ih => exact ih.destroy hrun

/-! ## What waits and what is served -/

theorem mem_deadlines {d : Nat} :
    d ∈ s.timers.entries.filterMap (fun e => e.2.deadline) ↔ ∃ c, s.deadline c = some d := by
  rw [List.mem_filterMap]
  constructor
  · intro ⟨⟨c, timer⟩, hmem, hd⟩
    exact ⟨c, by rw [deadline, IdMap.get?_eq_some.2 hmem, Option.bind_some, hd]⟩
  · intro ⟨c, hc⟩
    obtain ⟨timer, htimer, hd⟩ := Option.bind_eq_some_iff.1 hc
    exact ⟨(c, timer), IdMap.get?_eq_some.1 htimer, hd⟩

theorem nextDeadline_eq_none : s.nextDeadline = none ↔ ∀ c, s.deadline c = none := by
  unfold nextDeadline
  rw [List.min?_eq_none_iff, List.eq_nil_iff_forall_not_mem]
  simp only [mem_deadlines, not_exists]
  constructor
  · intro h c
    exact Option.eq_none_iff_forall_not_mem.2 fun d hd => h d c hd
  · intro h d c hc
    rw [h c] at hc
    cases hc

theorem nextDeadline_eq_some {d : Nat} : s.nextDeadline = some d ↔
    (∃ c, s.deadline c = some d) ∧ ∀ c e, s.deadline c = some e → d ≤ e := by
  unfold nextDeadline
  rw [List.min?_eq_some_iff]
  simp only [mem_deadlines, forall_exists_index]
  exact and_congr_right fun _ => forall_comm

theorem mem_due_poll : c ∈ (ServeCall.poll now).due s ↔ ∃ d, s.deadline c = some d ∧ d ≤ now := by
  rw [ServeCall.mem_due]
  unfold deadline ServeCall.takes Debounce.isDue
  cases s.timers.get? c with
  | none => simp
  | some timer => cases h : timer.deadline <;> simp [h]

theorem mem_due_flush : c ∈ ServeCall.flush.due s ↔ ∃ d, s.deadline c = some d := by
  rw [ServeCall.mem_due]
  unfold deadline ServeCall.takes Debounce.isPending
  cases s.timers.get? c with
  | none => simp
  | some timer => cases h : timer.deadline <;> simp [h]

/-- The call, where its passes go through, serves `ids`: these are the containers of `P`, in
ascending order. -/
structure Answers (s : Scene) (call : ServeCall) (P : ComponentId → Prop)
    (ids : List ComponentId) : Prop where
  ascending : ids.Pairwise (· < ·)
  mem : ∀ c, c ∈ ids ↔ P c
  returns : ∀ r s', s.run call.step = .ok (.ok r, s') ↔
    r = ids ∧ (call.taken s).run (ids.forM Step.pass) = .ok (.ok (), s')

theorem answers_due (s : Scene) (call : ServeCall) :
    s.Answers call (· ∈ call.due s) (call.due s) := by
  refine ⟨call.pairwise_due s, fun _ => .rfl, fun r s' => ?_⟩
  rw [ServeCall.run_step_eq_ok]
  constructor
  · intro ⟨r', hrun, hr⟩
    cases r' with
    | error e => cases hr
    | ok u => exact ⟨Except.ok.inj hr, hrun⟩
  · intro ⟨hr, hrun⟩
    exact ⟨.ok (), hrun, by rw [hr]; rfl⟩

/-- What the log says of the requests, the scene shows and the calls do. -/
structure Serves (t : Tree) (log : List Service) (s : Scene) : Prop where
  pending : ∀ c, s.isPending c = (Service.latest t c log).isSome
  /-- Every request that waits has a deadline. -/
  timed : ∀ c asked, Service.latest t c log = some asked →
    ∃ window, t.window? c = some window ∧ Service.deadline t log c = some (asked + window)
  next_none : s.nextDeadline = none ↔ ∀ c, Service.latest t c log = none
  next_some : ∀ d, s.nextDeadline = some d ↔ (∃ c, Service.deadline t log c = some d) ∧
    ∀ c e, Service.deadline t log c = some e → d ≤ e
  poll : ∀ now, ∃ ids,
    s.Answers (.poll now) (fun c => ∃ d, Service.deadline t log c = some d ∧ d ≤ now) ids
  later : ∀ now ids s' d, s.run (Step.poll now) = .ok (.ok ids, s') →
    s'.nextDeadline = some d → now < d
  flush : ∃ ids, s.Answers .flush (fun c => (Service.latest t c log).isSome) ids
  empty : ∀ ids s', s.run Step.flush = .ok (.ok ids, s') → s'.nextDeadline = none

theorem Tracks.isSome_deadline (h : Tracks t log s) (c : ComponentId) :
    (s.deadline c).isSome = (Service.latest t c log).isSome := by
  rw [h.deadline_eq, Service.deadline]
  cases hlatest : Service.latest t c log with
  | none => rfl
  | some asked =>
    obtain ⟨window, hwindow⟩ := Option.isSome_iff_exists.1 (h.gathers c (by rw [hlatest]; rfl))
    rw [hwindow]
    rfl

/-- What waits after a poll is due later. -/
theorem lt_of_deadline_poll {r : Except LayoutError (List ComponentId)} {d : Nat}
    (h : s.run (ServeCall.poll now).step = .ok (r, s')) (hd : s'.deadline c = some d) :
    now < d := by
  obtain ⟨timer, htimer, hd⟩ := Option.bind_eq_some_iff.1 hd
  rw [ServeCall.timers_step h, IdMap.get?_map] at htimer
  obtain ⟨before, -, rfl⟩ := Option.map_eq_some_iff.1 htimer
  unfold ServeCall.leave at hd
  split at hd
  · cases hd
  · next hnot =>
    unfold ServeCall.takes Debounce.isDue at hnot
    simpa [hd] using hnot

theorem deadline_flush {r : Except LayoutError (List ComponentId)}
    (h : s.run ServeCall.flush.step = .ok (r, s')) (c : ComponentId) : s'.deadline c = none := by
  unfold deadline
  rw [ServeCall.timers_step h, IdMap.get?_map, ServeCall.leave_flush]
  cases s.timers.get? c <;> rfl

/-- Timers that are fresh at first serve requests as the log of the calls says. -/
theorem serves_of_logged (hfresh : ∀ c, s₀.timers.get? c = none) (h : Logged s₀ log s) :
    Serves s₀.tree log s := by
  have htracks := tracks_of_logged hfresh h
  have hpending : ∀ c, s.isPending c = (Service.latest s₀.tree c log).isSome := by
    intro c
    rw [isPending_eq, htracks.isSome_deadline]
  constructor
  case pending => exact hpending
  case timed =>
    intro c asked hasked
    obtain ⟨window, hwindow⟩ :=
      Option.isSome_iff_exists.1 (htracks.gathers c (by rw [hasked]; rfl))
    refine ⟨window, hwindow, ?_⟩
    rw [Service.deadline, hasked, hwindow]
    rfl
  case next_none =>
    rw [nextDeadline_eq_none]
    refine forall_congr' fun c => ?_
    rw [← Option.not_isSome_iff_eq_none, htracks.isSome_deadline, Option.not_isSome_iff_eq_none]
  case next_some =>
    intro d
    rw [nextDeadline_eq_some]
    simp only [htracks.deadline_eq]
  case poll =>
    intro now
    have hanswers := s.answers_due (.poll now)
    refine ⟨_, hanswers.ascending, fun c => ?_, hanswers.returns⟩
    rw [mem_due_poll, htracks.deadline_eq]
  case later =>
    intro now ids s' d hrun hd
    obtain ⟨c, hc⟩ := (nextDeadline_eq_some.1 hd).1
    exact lt_of_deadline_poll hrun hc
  case flush =>
    have hanswers := s.answers_due .flush
    refine ⟨_, hanswers.ascending, fun c => ?_, hanswers.returns⟩
    rw [mem_due_flush, ← htracks.isSome_deadline, Option.isSome_iff_exists]
  case empty =>
    intro ids s' hrun
    exact nextDeadline_eq_none.2 (deadline_flush hrun)

section

/-- A pane that gathers requests, fifty milliseconds at a time. -/
private def gatheringPane : Scene :=
  .ofTree (.ofDescription (.node { layout := some { kind := .auto } }
    [.node { layout := some { kind := .auto, bufferResize := some (.millis 50) } } []])) .standard

/-- The pane once it has been asked for `timer`. -/
private def waitingPane (timer : Debounce) : Scene :=
  { gatheringPane with timers := IdMap.empty.insert 1 timer }

/-- It is asked for twice, and polled before the second request is due. -/
private def paneLog : List Service := [.served [], .requested 1 30, .requested 1 0]

private theorem logged_waitingPane :
    gatheringPane.Logged paneLog (waitingPane ⟨50, some 80⟩) := by
  have hfirst : gatheringPane.run (Step.requestLayout 1 0) =
      .ok (.ok false, waitingPane ⟨50, some 50⟩) :=
    run_requestLayout_gathered rfl rfl
  have hsecond : (waitingPane ⟨50, some 50⟩).run (Step.requestLayout 1 30) =
      .ok (.ok false, waitingPane ⟨50, some 80⟩) :=
    run_requestLayout_gathered rfl rfl
  have hpoll : (waitingPane ⟨50, some 80⟩).run (ServeCall.poll 60).step =
      .ok (.ok [], waitingPane ⟨50, some 80⟩) := rfl
  exact .served (.requested (.requested .start hfirst) hsecond) hpoll

/-- The pane waits from the second request on, and then it is served. -/
theorem pane_served_after_last_request :
    ∃ s s', gatheringPane.Logged paneLog s ∧ s.isPending 1 = true ∧
      s.nextDeadline = some 80 ∧ s.run (Step.poll 80) = .ok (.ok [1], s') ∧
      s'.isPending 1 = false := by
  have hserves := serves_of_logged (fun _ => rfl) logged_waitingPane
  have hothers : ∀ c e, Service.deadline gatheringPane.tree paneLog c = some e → 80 ≤ e := by
    intro c e he
    by_cases hc : c = 1
    · subst hc
      cases he
      exact Nat.le_refl 80
    · simp [Service.deadline, paneLog, Service.latest, hc] at he
  obtain ⟨s, r, s', hs, hrun, hview⟩ := runs_of_viewLast
    (show (waitingPane ⟨50, some 80⟩).viewLast [] (Step.poll 80)
        (fun _ r s' => (r, s'.isPending 1)) = some (.ok [1], false) by decide +kernel)
  cases hs
  simp only [Prod.mk.injEq] at hview
  obtain ⟨rfl, hdone⟩ := hview
  exact ⟨_, s', logged_waitingPane, hserves.pending 1, (hserves.next_some 80).2 ⟨⟨1, rfl⟩, hothers⟩,
    hrun, hdone⟩

end

end Scene

end Trellis
