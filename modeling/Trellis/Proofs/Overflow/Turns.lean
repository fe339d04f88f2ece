import Trellis.Proofs.Hidden.Turns
import Trellis.Proofs.Overflow.Changes
import Trellis.Proofs.Requests.Serving

/-!
# The overflow of a line through its turns

Between the passes over a line, children come and go, lines are scrolled, and sizes and hosts
change. None of that makes the handler of the line begin or cease to show an overflow. It may find
out in the next pass that it has nothing to list any longer, and the host is told then.

* `LineTurn`: what may happen; `Endures`: what no turn ends.
* `announced_step`: what was said last is what the handler shows.
* `overflow_changes_alternate`: what the host is told in the course of any turns.
-/
namespace Trellis

/-- What may happen to a line, and around it. -/
inductive LineTurn where
  /-- Something is laid out, gets another size or other settings, or comes, moves or goes. -/
  | other (turn : ChildTurn)
  /-- A line is scrolled, this one or another one. -/
  | scroll (d : ComponentId) (delta : Int)
  /-- Requests that wait are served. -/
  | serve (call : ServeCall)

namespace LineTurn

def step : LineTurn → Step Unit
  | .other turn => turn.step
  | .scroll d delta => do let _ ← Step.scrollBy d delta
  | .serve call => do let _ ← call.step

/-- After the turn, `c` still lines its children up along the axis, and the host still listens. -/
def Keeps (c : ComponentId) (axis : Axis) : LineTurn → Prop
  | .other (.host h) => h.listens = true
  | .other (.configure d settings) =>
    d = c → settings.map LayoutConfig.kind = some axis.lineKind
  | _ => True

end LineTurn

namespace Scene

variable {s₀ s s' : Scene} {c d : ComponentId} {axis : Axis} {turn : LineTurn}
  {r : Except LayoutError Unit}

/-- The scene in which the handler of the line of `d` has moved on. -/
def scrolled (s : Scene) (d : ComponentId) (axis : Axis) (handler : Box.Handler) (delta : Int) :
    Scene :=
  { s with kept := s.kept.insert d (.linear ⟨axis, some (handler.scrollBy delta)⟩) }

/-- Scrolling a line moves its handler, and lays the line out if the handler has got anywhere. -/
theorem run_scrollBy_cases {r : Except LayoutError Bool} {delta : Int}
    (h : s.run (Step.scrollBy d delta) = .ok (r, s')) :
    ((∀ axis handler, s.kept.get? d ≠ some (.linear ⟨axis, some handler⟩)) ∧ s' = s) ∨
      ∃ axis handler, s.kept.get? d = some (.linear ⟨axis, some handler⟩) ∧
        ((handler.scrollBy delta).offset = handler.offset ∧
            s' = s.scrolled d axis handler delta ∨
          (handler.scrollBy delta).offset ≠ handler.offset ∧
            ∃ r₁, (s.scrolled d axis handler delta).run (Step.layout d) = .ok (r₁, s')) := by
  rw [Step.scrollBy, run_bind, run_get, Length.ok_bind] at h
  dsimp only at h
  split at h
  · next axis handler hkept =>
    refine .inr ⟨axis, handler, hkept, ?_⟩
    rw [run_bind, run_keep, Length.ok_bind] at h
    dsimp only at h
    split at h
    · next hstays =>
      cases h
      exact .inl ⟨hstays, rfl⟩
    · next hmoves =>
      refine .inr ⟨hmoves, ?_⟩
      obtain ⟨e, hlayout, -⟩ | ⟨_, laid, hlayout, h⟩ := run_bind_cases h
      · exact ⟨_, hlayout⟩
      · cases h
        exact ⟨_, hlayout⟩
  · next hnone =>
    cases h
    exact .inl ⟨hnone, rfl⟩

/-- No turn ends the property, as long as the layout settings of `c` come to `v` by `f` and the host
is as `H` says. -/
structure Endures {α : Type} (c : ComponentId) (f : LayoutConfig → α) (v : α) (H : Host → Prop)
    (P : Scene → Prop) : Prop where
  lasting : Lasting P
  settings : ∀ {s : Scene}, P s → (s.tree.layout? c).map f = some v
  timers : ∀ {s : Scene} (timers : IdMap Debounce), P s → P { s with timers := timers }
  host : ∀ {s : Scene} {g : Host}, H g → P s → P { s with host := g }
  tree : ∀ {s : Scene} {u : Tree}, (u.layout? c).map f = some v → P s → P { s with tree := u }
  scrolled : ∀ {s : Scene} {d : ComponentId} {axis : Axis} {handler : Box.Handler} (delta : Int),
    s.kept.get? d = some (.linear ⟨axis, some handler⟩) → P s → P (s.scrolled d axis handler delta)

namespace Endures

variable {α : Type} {f : LayoutConfig → α} {v : α} {H : Host → Prop} {P : Scene → Prop}

theorem layout (h : Endures c f v H P) (hs : P s) (hrun : s.run (Step.layout d) = .ok (r, s')) :
    P s' := by
  rw [run_layout] at hrun
  exact h.lasting.pass (h.timers _ hs) hrun

theorem step (h : Endures c f v H P) (hhost : ∀ g, turn = .other (.host g) → H g)
    (hsettings : ∀ settings, turn = .other (.configure c settings) → settings.map f = some v)
    (hs : P s) (hrun : s.run turn.step = .ok (r, s')) : P s' := by
  cases turn with
  | scroll d delta =>
    obtain ⟨_, hscroll, -⟩ := run_void_eq_ok hrun
    rcases run_scrollBy_cases hscroll with
      ⟨-, rfl⟩ | ⟨other, handler, hkept, ⟨-, rfl⟩ | ⟨-, _, hlayout⟩⟩
    · exact hs
    · exact h.scrolled delta hkept hs
    · exact h.layout (h.scrolled delta hkept hs) hlayout
  | serve call =>
    obtain ⟨_, hserve, -⟩ := run_void_eq_ok hrun
    obtain ⟨_, hpasses, -⟩ := ServeCall.run_step_eq_ok.1 hserve
    exact h.lasting.passes (h.timers _ hs) hpasses
  | other turn =>
    cases turn with
    | layout d => exact h.layout hs hrun
    | resize d rect =>
      cases hrun
      refine h.tree ?_ hs
      rw [← (s.tree.sameShape_applyRect d rect).layout?_eq]
      exact h.settings hs
    | host g =>
      cases hrun
      exact h.host (hhost g rfl) hs
    | append parent child =>
      obtain ⟨u, hu, rfl⟩ := run_edit_eq_ok hrun
      obtain ⟨-, -, rfl⟩ := Tree.appendChild_eq_ok hu
      refine h.tree ?_ hs
      rw [← Tree.layout?_congr (s.tree.rearranged_attach parent child).config?_eq]
      exact h.settings hs
    | remove parent child =>
      obtain ⟨u, hu, rfl⟩ := run_edit_eq_ok hrun
      obtain rfl := Tree.removeChild_eq_ok hu
      refine h.tree ?_ hs
      rw [← Tree.layout?_congr (s.tree.rearranged_detach parent child).config?_eq]
      exact h.settings hs
    | create item =>
      cases hrun
      have hlayout : (s.tree.layout? c).isSome := by
        rw [← Option.isSome_map, h.settings hs]
        rfl
      refine h.tree ?_ hs
      rw [Tree.layout?, Tree.get?_alloc, if_neg (Nat.ne_of_lt (Tree.lt_size_of_layout? hlayout))]
      exact h.settings hs
    | configure d settings =>
      cases hrun
      refine h.tree ?_ hs
      rw [Tree.layout?_setLayout]
      split
      · next heq => exact hsettings settings (by rw [heq.1])
      · exact h.settings hs

end Endures

/-- The handler of a line moves on, and shows what it has shown. -/
theorem Announced.scrolled {other : Axis} {handler : Box.Handler} (h : Announced c axis s)
    (hkept : s.kept.get? d = some (.linear ⟨other, some handler⟩)) (delta : Int) :
    Announced c axis (s.scrolled d other handler delta) := by
  unfold Scene.scrolled
  by_cases hd : c = d
  · subst hd
    refine ⟨h.listens, h.kind_eq, fun a ha => ?_, h.alternates, h.last_eq.trans ?_⟩
    · rw [IdMap.get?_insert, if_pos rfl, Option.some.injEq] at ha
      rw [← ha]
      exact h.kept_kind (.linear ⟨other, some handler⟩) hkept
    · rw [isOverflowing, isOverflowing, hkept, IdMap.get?_insert, if_pos rfl]
      exact (handler.isOverflowing_scrollBy delta).symm
  · refine h.of_same h.listens rfl ?_ rfl
    rw [IdMap.get?_insert, if_neg hd]

/-- What was said last is what the handler shows, whatever happens. -/
theorem endures_announced (c : ComponentId) (axis : Axis) :
    Endures c LayoutConfig.kind axis.lineKind (fun h => h.listens = true) (Announced c axis) where
  lasting := lasting_announced c axis
  settings h := h.kind_eq
  timers _ h := h.of_same h.listens rfl rfl rfl
  host hlistens h := h.of_same hlistens rfl rfl rfl
  tree hkind h := h.of_same h.listens (hkind.trans h.kind_eq.symm) rfl rfl
  scrolled delta hkept h := h.scrolled hkept delta

/-- No turn separates what was said last from what the handler shows. -/
theorem announced_step (hkeeps : turn.Keeps c axis) (h : Announced c axis s)
    (hrun : s.run turn.step = .ok (r, s')) : Announced c axis s' := by
  refine (endures_announced c axis).step (fun g heq => ?_) (fun settings heq => ?_) h hrun
  · subst heq
    exact hkeeps
  · subst heq
    exact hkeeps rfl

end Scene

/-- Changes of overflow alternate. In `s₀`, the container `c` lines its children up along the axis
and has not been laid out yet, and nothing was said of its overflow. Then any containers are laid
out, lines are scrolled, requests are served, components come, move, go and get other settings, and
sizes and hosts change, while `c` remains a line and the host listens. What the host is told of the
overflow of `c` begins with `true` and alternates, and what it was told last is what the handler of
`c` shows; that is `false` if it was told nothing. -/
theorem overflow_changes_alternate {s₀ s : Scene} {c : ComponentId} {axis : Axis}
    {turns : List LineTurn} (hlistens : s₀.host.listens = true)
    (hkind : (s₀.tree.layout? c).map LayoutConfig.kind = some axis.lineKind)
    (hfresh : s₀.kept.get? c = none) (hsilent : s₀.overflowChanges c = [])
    (hkeeps : ∀ turn ∈ turns, turn.Keeps c axis)
    (hturns : s₀.after (turns.map LineTurn.step) = .ok s) :
    (false :: s.overflowChanges c).IsChain (· ≠ ·) ∧
      (s.overflowChanges c).getLast?.getD false = s.isOverflowing c := by
  have hstart : s₀.Announced c axis := by
    refine ⟨hlistens, hkind, fun a ha => ?_, ?_, ?_⟩
    · rw [hfresh] at ha
      cases ha
    · rw [hsilent]
      exact .singleton false
    · rw [hsilent, Scene.isOverflowing, hfresh]
      rfl
  have hlast : s.Announced c axis := by
    refine Scene.after_preserves (fun x hx s s' r h hrun => ?_) hstart hturns
    obtain ⟨turn, hturn, rfl⟩ := List.mem_map.1 hx
    exact Scene.announced_step (hkeeps turn hturn) h hrun
  exact ⟨hlast.alternates, hlast.last_eq⟩

section

private def tabLayout : LayoutConfig :=
  { kind := .hbox, overflowHandler := some .menu, triggerSize := 20 }

private def tab : ItemConfig := { width := some 40, height := some 20 }

/-- Four tabs in a row with a menu, and a host that listens. -/
private def tabRow : Scene :=
  .ofTree (.ofDescription (.node { layout := some tabLayout }
    [.node tab [], .node tab [], .node tab [], .node tab []]))
    { Host.standard with listens := true }

/-- The row is laid out in a width for two tabs; the tabs that the menu lists are taken out; then
the row is laid out twice, is scrolled, and is laid out in a width for one tab. -/
private def tabTurns : List LineTurn :=
  [.other (.resize 0 ⟨0, 0, 100, 20⟩), .other (.layout 0), .other (.remove 0 3),
    .other (.remove 0 4), .other (.layout 0), .other (.layout 0), .scroll 0 5,
    .other (.resize 0 ⟨0, 0, 60, 20⟩), .other (.layout 0)]

theorem tab_row_overflows_twice :
    ∃ s, tabRow.after (tabTurns.map LineTurn.step) = .ok s ∧
      s.overflowChanges 0 = [true, false, true] ∧ s.isOverflowing 0 = true := by
  obtain ⟨s, hs, hview⟩ := Scene.after_of_view
    (show (tabRow.after (tabTurns.map LineTurn.step)).toOption.map (·.overflowChanges 0) =
      some [true, false, true] by decide +kernel)
  have hkind : (tabRow.tree.layout? 0).map LayoutConfig.kind = some Axis.horizontal.lineKind := rfl
  have hlast := (overflow_changes_alternate rfl hkind rfl rfl (by simp [tabTurns, LineTurn.Keeps])
    hs).2
  rw [hview] at hlast
  exact ⟨s, hs, hview, hlast.symm⟩

end

end Trellis
