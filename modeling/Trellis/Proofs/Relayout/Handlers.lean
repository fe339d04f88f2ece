import Trellis.Box.Overflow
import Trellis.Proofs.Box.Containment

/-!
# Handlers settle

A line that does not fit sets its handler to work; when the line comes back as the handler wanted
it, there is nothing left to do. A scroller finds the same line and keeps its extent and position. A
menu finds the children that it left: they fit beside its trigger, and the first one behind it does
not.

* `Menu.AtRest`: a menu that has nothing more to hide or to show.
* `Menu.react_fresh`: the first reaction leaves the menu at rest; `Menu.react_of_atRest`: a menu at
  rest does nothing.
* `Handler.react_settles`: after the first reaction of a handler there is nothing left to do.
-/
namespace Trellis.Box

variable {ω : Type} [Weight ω]

open Request (mainMargin)

/-! ## What handlers read off a line -/

/-- The least that children can have on the main axis, margins included. -/
def floors (a : Axis) (boxes : List (Request ω)) : Int :=
  (boxes.map fun r => r.floorMain a + r.mainMargin a).sum

@[simp] theorem floors_nil (a : Axis) : floors a ([] : List (Request ω)) = 0 := rfl

@[simp] theorem floors_cons (a : Axis) (r : Request ω) (boxes : List (Request ω)) :
    floors a (r :: boxes) = r.floorMain a + r.mainMargin a + floors a boxes := rfl

@[simp] theorem floors_append (a : Axis) (boxes others : List (Request ω)) :
    floors a (boxes ++ others) = floors a boxes + floors a others := by
  simp [floors]

@[simp] theorem floors_reverse (a : Axis) (boxes : List (Request ω)) :
    floors a boxes.reverse = floors a boxes := by
  simp [floors, List.sum_reverse]

variable {boxes : List (Request ω)} {items : List ComponentId} {space : Space} {l : Line ω}
  {inner : Int}

structure Line.Reads (items : List ComponentId) (boxes : List (Request ω)) (space : Space)
    (inner : Int) (l : Line ω) : Prop where
  members : l.members = items.zip boxes
  innerMain : l.space.innerMain = .ok inner
  axis : l.space.axis = space.axis
  minimumMain : l.minimumMain = floors space.axis boxes
  isTooNarrow : l.isTooNarrow = decide (inner < floors space.axis boxes)

theorem Line.reads (hl : Line.solve items boxes space = .ok l)
    (hinner : space.innerMain = .ok inner) : l.Reads items boxes space inner := by
  obtain ⟨solution, hsolution, hl⟩ := Length.bind_eq_ok.1 hl
  cases hl
  have hsummary : solution.summary.minimumMain = floors space.axis boxes ∧
      solution.summary.tooNarrow = decide (inner < floors space.axis boxes) := by
    by_cases hne : boxes = []
    · subst hne
      cases hsolution
      have hnonneg := innerMain_nonneg hinner
      have hfits : ¬ inner < 0 := by omega
      refine ⟨rfl, ?_⟩
      simp [Solution.empty, Summary.empty, hfits]
    · obtain ⟨innerMain, _, _, _, _, hinner', -, hsummary, -⟩ := solve_eq_ok hne hsolution
      rw [hinner] at hinner'
      cases hinner'
      have htotals := totals_of_summarize hsummary
      refine ⟨htotals.minimumMain, ?_⟩
      rw [htotals.tooNarrow, htotals.minimumMain]
      rfl
  exact ⟨rfl, hinner, rfl, hsummary.1, hsummary.2⟩

/-! ## Menus -/

namespace Menu

/-- A child behind the menu. -/
def hide (a : Axis) (m : ComponentId × Request ω) : HiddenItem :=
  ⟨m.1, m.2.floorMain a + m.2.mainMargin a⟩

theorem outerFloor_eq_ok {a : Axis} {r : Request ω} {n : Int} (h : r.outerFloor a = .ok n) :
    n = r.floorMain a + r.mainMargin a := by
  obtain ⟨sides, hsides, h⟩ := Length.bind_eq_ok.1 h
  rw [(Length.add_eq_ok.1 h).1, Axis.mainSides_eq_ok hsides]
  rfl

/-- Children are taken until enough has been freed, and not longer. -/
theorem takeUntilFreed_eq_ok {a : Axis} {delta freed : Int}
    {members : List (ComponentId × Request ω)} {taken : List HiddenItem}
    (h : takeUntilFreed a delta freed members = .ok taken) :
    ∃ pre rest, members = pre ++ rest ∧ taken = pre.map (hide a) ∧
      (rest = [] ∨ delta ≤ freed + floors a (pre.map Prod.snd)) ∧
      ∀ init last, pre = init ++ [last] → freed + floors a (init.map Prod.snd) < delta := by
  induction members generalizing freed taken with
  | nil =>
    cases h
    exact ⟨[], [], rfl, rfl, .inl rfl, by simp⟩
  | cons m members ih =>
    obtain ⟨id, r⟩ := m
    unfold takeUntilFreed at h
    split at h
    · next hfreed =>
      cases h
      refine ⟨[], (id, r) :: members, rfl, rfl, .inr ?_, by simp⟩
      simpa using hfreed
    · next hshort =>
      obtain ⟨outer, houter, h⟩ := Length.bind_eq_ok.1 h
      obtain ⟨freed', hfreed', h⟩ := Length.bind_eq_ok.1 h
      obtain ⟨others, hothers, h⟩ := Length.bind_eq_ok.1 h
      cases h
      obtain ⟨pre, rest, rfl, rfl, henough, hlast⟩ := ih hothers
      have houter' := outerFloor_eq_ok houter
      have hfreed'' := (Length.add_eq_ok.1 hfreed').1
      refine ⟨(id, r) :: pre, rest, rfl, by rw [houter']; rfl, ?_, fun init last hpre => ?_⟩
      · refine henough.imp_right fun hle => ?_
        simp only [List.map_cons, floors_cons] at hle ⊢
        omega
      · cases init with
        | nil =>
          simp only [List.map_nil, floors_nil]
          omega
        | cons first init =>
          rw [List.cons_append, List.cons.injEq] at hpre
          obtain ⟨rfl, hpre⟩ := hpre
          have hlt := hlast init last hpre
          simp only [List.map_cons, floors_cons] at hlt ⊢
          omega

/-- The menu has nothing more to hide, and nothing to show beside `boxes`. -/
def AtRest (m : Menu) (a : Axis) (inner : Int) (boxes : List (Request ω)) : Prop :=
  match m.hidden with
  | [] => floors a boxes ≤ inner ∨ floors a boxes + m.triggerSize ≤ inner
  | first :: rest =>
    (boxes = [] ∧ inner < m.triggerSize) ∨
      (floors a boxes + m.triggerSize ≤ inner ∧
        inner < floors a boxes + first.outer + if rest.isEmpty then 0 else m.triggerSize)

theorem excess_eq_ok (hl : l.Reads items boxes space inner) {m : Menu} {delta : Int}
    (h : m.excess l = .ok delta) : delta = floors space.axis boxes + m.triggerSize - inner := by
  simp only [excess, hl.innerMain, hl.minimumMain, Length.bind_eq_ok] at h
  obtain ⟨needed, hneeded, inner', hinner, h⟩ := h
  cases hinner
  rw [(Length.sub_eq_ok.1 h).1, (Length.add_eq_ok.1 hneeded).1]

/-- An end of the line is hidden, which frees enough unless it is the whole line, and no more than
is needed. -/
theorem hideTrailing_eq_ok {m n : Menu} {o : Outcome} {delta : Int}
    (h : m.hideTrailing l delta = .ok (n, o)) :
    ∃ shown gone, l.members = shown ++ gone ∧
      n = ⟨m.triggerSize, gone.map (hide l.space.axis) ++ m.hidden⟩ ∧
      o.hide = gone.map Prod.fst ∧ o.reveal = [] ∧ (o.recalculate = false → o.hide = []) ∧
      (shown = [] ∨ delta ≤ floors l.space.axis (gone.map Prod.snd)) ∧
      ∀ first rest, gone = first :: rest → floors l.space.axis (rest.map Prod.snd) < delta := by
  obtain ⟨taken, htaken, h⟩ := Length.bind_eq_ok.1 h
  cases h
  obtain ⟨pre, rest, hsplit, rfl, henough, hlast⟩ := takeUntilFreed_eq_ok htaken
  refine ⟨rest.reverse, pre.reverse, ?_, by rw [List.map_reverse], ?_, rfl, ?_, ?_, ?_⟩
  · rw [← List.reverse_reverse l.members, hsplit, List.reverse_append]
  · simp only [List.map_reverse, List.map_map]
    rfl
  · intro hnone
    simpa using hnone
  · refine henough.imp (fun hnone => ?_) fun hle => ?_
    · rw [hnone, List.reverse_nil]
    · rwa [Int.zero_add, ← floors_reverse, ← List.map_reverse] at hle
  · intro first others hgone
    have hpre : pre = others.reverse ++ [first] := by
      rw [← List.reverse_reverse pre, hgone, List.reverse_cons]
    have hlt := hlast _ _ hpre
    rwa [Int.zero_add, List.map_reverse, floors_reverse] at hlt

/-- With no children on the line there is nothing to hide. -/
theorem hideTrailing_nil (hl : l.Reads items [] space inner) (m : Menu) (delta : Int) :
    m.hideTrailing l delta = .ok (m, .nothing) := by
  simp only [hideTrailing, hl.members, List.zip_nil_right, List.reverse_nil, takeUntilFreed]
  rfl

theorem handle_of_atRest (hl : l.Reads items boxes space inner) {m n : Menu} {o : Outcome}
    (hrest : m.AtRest space.axis inner boxes) (hnarrow : inner < floors space.axis boxes)
    (h : m.handle l = .ok (n, o)) : n = m ∧ o = .nothing := by
  obtain ⟨delta, hdelta, h⟩ := Length.bind_eq_ok.1 h
  have hdelta := excess_eq_ok hl hdelta
  unfold AtRest at hrest
  split at h
  · cases h
    exact ⟨rfl, rfl⟩
  · next hpositive =>
    split at hrest
    · omega
    · rcases hrest with ⟨rfl, -⟩ | ⟨hfits, -⟩
      · rw [hideTrailing_nil hl] at h
        cases h
        exact ⟨rfl, rfl⟩
      · omega

theorem clear_of_atRest (hl : l.Reads items boxes space inner) {m n : Menu} {o : Outcome}
    (hrest : m.AtRest space.axis inner boxes) (h : m.clear l = .ok (n, o)) :
    n = m ∧ o = .nothing := by
  obtain ⟨trigger, hidden⟩ := m
  unfold clear at h
  cases hidden with
  | nil =>
    cases h
    exact ⟨rfl, rfl⟩
  | cons first rest =>
    rw [if_neg (by simp)] at h
    obtain ⟨delta, hdelta, h⟩ := Length.bind_eq_ok.1 h
    have hdelta := excess_eq_ok hl hdelta
    split at h
    · next hpositive =>
      rcases hrest with ⟨rfl, -⟩ | ⟨hfits, -⟩
      · rw [hideTrailing_nil hl] at h
        cases h
        exact ⟨rfl, rfl⟩
      · omega
    · next hsmall =>
      rcases hrest with ⟨rfl, htrigger⟩ | ⟨-, hfirst⟩
      · simp only [floors_nil] at hdelta
        dsimp only at htrigger
        omega
      · -- the first hidden child does not fit, so that none is shown
        simp only [hl.innerMain, hl.minimumMain, countFitting, Length.ok_bind,
          Length.bind_eq_ok] at h
        obtain ⟨count, ⟨withItem, hwith, needed, hneeded, hcount⟩, h⟩ := h
        have hwith := (Length.add_eq_ok.1 hwith).1
        have hneeded := (Length.add_eq_ok.1 hneeded).1
        rw [if_pos (by rw [hneeded, hwith]; exact hfirst)] at hcount
        cases hcount
        cases h
        exact ⟨rfl, rfl⟩

theorem react_of_atRest (hl : l.Reads items boxes space inner) {m : Menu} {n : Handler}
    {o : Outcome} (hrest : m.AtRest space.axis inner boxes)
    (h : (Handler.menu m).react l = .ok (n, o)) : n = .menu m ∧ o = .nothing := by
  unfold Handler.react Handler.handle Handler.clear at h
  rw [hl.isTooNarrow] at h
  split at h
  · next hnarrow =>
    obtain ⟨⟨m', o'⟩, hhandle, h⟩ := Length.map_eq_ok.1 h
    cases h
    obtain ⟨rfl, rfl⟩ := handle_of_atRest hl hrest (by simpa using hnarrow) hhandle
    exact ⟨rfl, rfl⟩
  · obtain ⟨⟨m', o'⟩, hclear, h⟩ := Length.map_eq_ok.1 h
    cases h
    obtain ⟨rfl, rfl⟩ := clear_of_atRest hl hrest hclear
    exact ⟨rfl, rfl⟩

/-- Children were hidden until the others fit beside the trigger, and not longer. -/
theorem atRest_of_hidden {a : Axis} {trigger delta : Int} {shown : List (Request ω)}
    {gone : List (ComponentId × Request ω)} (hinner : 0 ≤ inner)
    (hnarrow : inner < floors a shown + floors a (gone.map Prod.snd))
    (hdelta : delta = floors a shown + floors a (gone.map Prod.snd) + trigger - inner)
    (henough : shown = [] ∨ delta ≤ floors a (gone.map Prod.snd))
    (hlast : ∀ first rest, gone = first :: rest → floors a (rest.map Prod.snd) < delta) :
    AtRest ⟨trigger, gone.map (hide a)⟩ a inner shown := by
  cases gone with
  | nil =>
    simp only [List.map_nil, floors_nil] at hdelta henough
    refine henough.imp (fun hnone => ?_) fun hle => ?_
    · rw [hnone, floors_nil]
      exact hinner
    · dsimp only
      omega
  | cons first rest =>
    have hrest := hlast first rest rfl
    simp only [List.map_cons, floors_cons] at hnarrow hdelta henough
    simp only [AtRest, List.map_cons]
    by_cases hfreed : delta ≤ first.2.floorMain a + first.2.mainMargin a +
        floors a (rest.map Prod.snd)
    · refine .inr ⟨by omega, ?_⟩
      simp only [hide]
      cases rest with
      | nil =>
        simp only [List.map_nil, floors_nil] at hnarrow
        simp only [List.map_nil, List.isEmpty_nil, if_true]
        omega
      | cons second rest =>
        rw [if_neg (by simp)]
        omega
    · -- all children are hidden, and the trigger alone is too long
      have hnone := henough.resolve_right hfreed
      rw [hnone, floors_nil] at hdelta
      exact .inl ⟨hnone, by omega⟩

/-- What a menu hides first is an end of the line, and then it is at rest. -/
theorem react_fresh (hl : l.Reads items boxes space inner) (hlength : items.length = boxes.length)
    (hinner : 0 ≤ inner) {trigger : Int} {n : Handler} {o : Outcome}
    (h : (Handler.menu (.fresh trigger)).react l = .ok (n, o)) :
    ∃ m k, n = .menu m ∧ m.hidden.map HiddenItem.id = items.drop k ∧ o.hide = items.drop k ∧
      o.reveal = [] ∧ (o.recalculate = false → o.hide = []) ∧
      m.AtRest space.axis inner (boxes.take k) := by
  have hnothing : (floors space.axis boxes ≤ inner ∨ floors space.axis boxes + trigger ≤ inner) →
      (n, o) = (.menu (.fresh trigger), .nothing) →
      ∃ m k, n = .menu m ∧ m.hidden.map HiddenItem.id = items.drop k ∧ o.hide = items.drop k ∧
        o.reveal = [] ∧ (o.recalculate = false → o.hide = []) ∧
        m.AtRest space.axis inner (boxes.take k) := by
    rintro hfits ⟨⟩
    refine ⟨.fresh trigger, items.length, rfl, by simp [fresh], by simp [Outcome.nothing], rfl,
      fun _ => rfl, ?_⟩
    rw [hlength, List.take_length]
    exact hfits
  unfold Handler.react Handler.handle Handler.clear at h
  rw [hl.isTooNarrow] at h
  split at h
  · next hnarrow =>
    have hnarrow : inner < floors space.axis boxes := by simpa using hnarrow
    obtain ⟨⟨m, o'⟩, hhandle, h⟩ := Length.map_eq_ok.1 h
    cases h
    obtain ⟨delta, hdelta, hhandle⟩ := Length.bind_eq_ok.1 hhandle
    have hdelta := excess_eq_ok hl hdelta
    simp only [fresh] at hdelta
    split at hhandle
    · next hsmall =>
      cases hhandle
      exact hnothing (.inr (by omega)) rfl
    · next hpositive =>
      obtain ⟨shown, gone, hmembers, rfl, hhide, hreveal, hstill, henough, hlast⟩ :=
        hideTrailing_eq_ok hhandle
      rw [hl.members] at hmembers
      rw [hl.axis] at henough hlast
      have hitems : items = shown.map Prod.fst ++ gone.map Prod.fst := by
        rw [← List.map_append, ← hmembers, List.map_fst_zip (Nat.le_of_eq hlength)]
      have hboxes : boxes = shown.map Prod.snd ++ gone.map Prod.snd := by
        rw [← List.map_append, ← hmembers, List.map_snd_zip (Nat.le_of_eq hlength.symm)]
      have hdrop : items.drop shown.length = gone.map Prod.fst := by
        rw [hitems, List.drop_left' (by simp)]
      have htake : boxes.take shown.length = shown.map Prod.snd := by
        rw [hboxes, List.take_left' (by simp)]
      refine ⟨_, shown.length, rfl, ?_, hhide.trans hdrop.symm, hreveal, hstill, ?_⟩
      · simp only [fresh, List.append_nil, List.map_map, hdrop]
        rfl
      · rw [hboxes, floors_append] at hnarrow hdelta
        rw [htake]
        simp only [fresh, List.append_nil, hl.axis]
        refine atRest_of_hidden hinner hnarrow hdelta (henough.imp_left fun hnone => ?_) hlast
        rw [hnone]
        rfl
  · next hfits =>
    obtain ⟨⟨m, o'⟩, hclear, h⟩ := Length.map_eq_ok.1 h
    cases h
    cases hclear
    exact hnothing (.inl (by simpa using hfits)) rfl

end Menu

/-! ## Scrollers -/

theorem Scroll.clampTo_clampTo (extent position : Int) :
    clampTo extent (clampTo extent position) = clampTo extent position := by
  unfold clampTo
  omega

theorem Scroll.clear_clear (s : Scroll) : s.clear.1.clear = (s.clear.1, .nothing) := by
  unfold clear
  cases hover : s.overflowing <;> simp [fresh, hover]

theorem Scroll.react_again {s : Scroll} {n n' : Handler} {o o' : Outcome}
    (h : (Handler.scroll s).react l = .ok (n, o)) (h' : n.react l = .ok (n', o')) :
    n' = n ∧ o' = .nothing := by
  unfold Handler.react at h h'
  cases hnarrow : l.isTooNarrow with
  | false =>
    rw [hnarrow] at h h'
    simp only [Bool.false_eq_true, if_false, Handler.clear] at h h'
    cases h
    simp only [Scroll.clear_clear] at h'
    cases h'
    exact ⟨rfl, rfl⟩
  | true =>
    rw [hnarrow] at h h'
    simp only [if_true, Handler.handle] at h h'
    obtain ⟨⟨s₁, o₁⟩, hhandle, h⟩ := Length.map_eq_ok.1 h
    cases h
    simp only at h'
    obtain ⟨⟨s₂, o₂⟩, hhandle', h'⟩ := Length.map_eq_ok.1 h'
    cases h'
    simp only [Scroll.handle, Length.bind_eq_ok] at hhandle hhandle'
    obtain ⟨inner, hinner, buttons, hbuttons, viewport, hviewport, extent, hextent, hhandle⟩ :=
      hhandle
    cases hhandle
    obtain ⟨inner', hinner', buttons', hbuttons', viewport', hviewport', extent', hextent',
      hhandle'⟩ := hhandle'
    rw [hinner] at hinner'
    cases hinner'
    rw [hbuttons] at hbuttons'
    cases hbuttons'
    rw [hviewport] at hviewport'
    cases hviewport'
    rw [hextent] at hextent'
    cases hextent'
    cases hhandle'
    refine ⟨?_, rfl⟩
    rw [Scroll.clampTo_clampTo]

namespace Handler

theorem outcome_scroll {s : Scroll} {n : Handler} {o : Outcome}
    (h : (Handler.scroll s).react l = .ok (n, o)) :
    o.hide = [] ∧ o.reveal = [] ∧ n.hiddenItems = [] := by
  unfold react at h
  split at h
  · obtain ⟨⟨s₁, o₁⟩, hhandle, h⟩ := Length.map_eq_ok.1 h
    cases h
    simp only [Scroll.handle, Length.bind_eq_ok] at hhandle
    obtain ⟨_, _, _, _, _, _, _, _, hhandle⟩ := hhandle
    cases hhandle
    exact ⟨rfl, rfl, rfl⟩
  · cases h
    unfold Scroll.clear
    split <;> exact ⟨rfl, rfl, rfl⟩

/-! ## Handlers of either kind -/

/-- A handler that has hidden nothing yet hides an end of the line, and once the line comes back
without it, there is nothing left to do. -/
theorem react_settles {handler n : Handler} {o : Outcome} (hnone : handler.hiddenItems = [])
    (hl : Line.solve items boxes space = .ok l) (hlength : items.length = boxes.length)
    (h : handler.react l = .ok (n, o)) :
    o.reveal = [] ∧ (o.recalculate = false → o.hide = []) ∧ n.hiddenItems = o.hide ∧
      ∃ k, o.hide = items.drop k ∧ ∀ l₂ n₂ o₂,
        Line.solve (items.take k) (boxes.take k) space = .ok l₂ → n.react l₂ = .ok (n₂, o₂) →
          n₂ = n ∧ o₂ = .nothing := by
  cases handler with
  | menu m =>
    obtain ⟨trigger, hidden⟩ := m
    obtain rfl : hidden = [] := List.map_eq_nil_iff.1 hnone
    by_cases hempty : boxes = []
    · -- a line without children is not too narrow, whatever its space
      subst hempty
      cases hl
      cases h
      refine ⟨rfl, fun _ => rfl, rfl, items.length, by simp [Outcome.nothing],
        fun l₂ n₂ o₂ hl₂ h₂ => ?_⟩
      rw [List.take_nil] at hl₂
      cases hl₂
      cases h₂
      exact ⟨rfl, rfl⟩
    · obtain ⟨inner, hinner⟩ : ∃ inner, space.innerMain = .ok inner := by
        obtain ⟨solution, hsolution, -⟩ := Length.bind_eq_ok.1 hl
        obtain ⟨inner, _, _, _, _, hinner, -⟩ := solve_eq_ok hempty hsolution
        exact ⟨inner, hinner⟩
      obtain ⟨m, k, rfl, hhidden, hhide, hreveal, hstill, hrest⟩ :=
        Menu.react_fresh (Line.reads hl hinner) hlength (innerMain_nonneg hinner) h
      refine ⟨hreveal, hstill, hhidden.trans hhide.symm, k, hhide, fun l₂ n₂ o₂ hl₂ h₂ => ?_⟩
      exact Menu.react_of_atRest (Line.reads hl₂ hinner) hrest h₂
  | scroll s =>
    obtain ⟨hhide, hreveal, hitems⟩ := outcome_scroll h
    refine ⟨hreveal, fun _ => hhide, by rw [hitems, hhide], items.length, by simp [hhide],
      fun l₂ n₂ o₂ hl₂ h₂ => ?_⟩
    rw [List.take_length, hlength, List.take_length, hl] at hl₂
    cases hl₂
    exact Scroll.react_again h h₂

/-- A handler hides children of the line, which it then lists first, and shows the first ones that
it has hidden. -/
theorem react_eq_ok {handler n : Handler} {o : Outcome} (h : handler.react l = .ok (n, o)) :
    (∀ id ∈ o.hide, id ∈ l.items) ∧ ∃ k, o.reveal = handler.hiddenItems.take k ∧
      n.hiddenItems = o.hide ++ handler.hiddenItems.drop k := by
  cases handler with
  | scroll s =>
    obtain ⟨hhide, hreveal, hitems⟩ := outcome_scroll h
    exact ⟨by simp [hhide], 0, hreveal, by rw [hitems, hhide]; rfl⟩
  | menu m =>
    have htrailing : ∀ {delta m' o}, m.hideTrailing l delta = .ok (m', o) →
        (∀ id ∈ o.hide, id ∈ l.items) ∧ o.reveal = [] ∧
          (Handler.menu m').hiddenItems = o.hide ++ (Handler.menu m).hiddenItems := by
      intro delta m' o htrailing
      obtain ⟨shown, gone, hmembers, rfl, hhide, hreveal, -⟩ := Menu.hideTrailing_eq_ok htrailing
      refine ⟨fun id hid => ?_, hreveal, ?_⟩
      · rw [hhide] at hid
        obtain ⟨member, hmember, rfl⟩ := List.mem_map.1 hid
        have hmem : member ∈ l.members := by
          rw [hmembers]
          exact List.mem_append_right shown hmember
        exact (List.of_mem_zip (show (member.1, member.2) ∈ l.items.zip l.requests from hmem)).1
      · rw [hhide, hiddenItems, List.map_append, List.map_map]
        rfl
    unfold react Handler.handle Handler.clear at h
    split at h
    · obtain ⟨⟨m', o'⟩, hhandle, h⟩ := Length.map_eq_ok.1 h
      cases h
      obtain ⟨delta, -, hhandle⟩ := Length.bind_eq_ok.1 hhandle
      split at hhandle
      · cases hhandle
        exact ⟨by simp [Outcome.nothing], 0, rfl, rfl⟩
      · obtain ⟨hhide, hreveal, hitems⟩ := htrailing hhandle
        exact ⟨hhide, 0, hreveal, hitems⟩
    · obtain ⟨⟨m', o'⟩, hclear, h⟩ := Length.map_eq_ok.1 h
      cases h
      unfold Menu.clear at hclear
      split at hclear
      · cases hclear
        exact ⟨by simp [Outcome.nothing], 0, rfl, rfl⟩
      · obtain ⟨delta, -, hclear⟩ := Length.bind_eq_ok.1 hclear
        split at hclear
        · obtain ⟨hhide, hreveal, hitems⟩ := htrailing hclear
          exact ⟨hhide, 0, hreveal, hitems⟩
        · obtain ⟨inner, -, hclear⟩ := Length.bind_eq_ok.1 hclear
          obtain ⟨count, -, hclear⟩ := Length.bind_eq_ok.1 hclear
          cases hclear
          exact ⟨by simp, count, List.map_take, List.map_drop⟩

/-- A handler hides children of the line, and shows those that it has hidden. -/
theorem react_mem {handler n : Handler} {o : Outcome} (h : handler.react l = .ok (n, o)) :
    (∀ id ∈ o.hide, id ∈ l.items) ∧ ∀ id ∈ o.reveal, id ∈ handler.hiddenItems := by
  obtain ⟨hhide, k, hreveal, -⟩ := react_eq_ok h
  refine ⟨hhide, fun id hid => ?_⟩
  rw [hreveal] at hid
  exact List.mem_of_mem_take hid

/-- A handler lists what it hides, and goes on listing what it does not show. -/
theorem hiddenItems_react {handler n : Handler} {o : Outcome} (h : handler.react l = .ok (n, o)) :
    (∀ id ∈ o.hide, id ∈ n.hiddenItems) ∧
      ∀ id ∈ handler.hiddenItems, id ∉ o.reveal → id ∈ n.hiddenItems := by
  obtain ⟨-, k, hreveal, hitems⟩ := react_eq_ok h
  rw [hitems, hreveal]
  refine ⟨fun id hid => List.mem_append_left _ hid, fun id hid hnot => List.mem_append_right _ ?_⟩
  rw [← List.take_append_drop k handler.hiddenItems, List.mem_append] at hid
  exact hid.resolve_left hnot

theorem mem_hiddenItems_retain {handler : Handler} {children : List ComponentId}
    {id : ComponentId} :
    id ∈ (handler.retain children).hiddenItems ↔ id ∈ handler.hiddenItems ∧ id ∈ children := by
  cases handler with
  | menu m =>
    simp only [retain, Menu.retain, hiddenItems, List.mem_map, List.mem_filter]
    constructor
    · rintro ⟨item, ⟨hitem, hchild⟩, rfl⟩
      exact ⟨⟨item, hitem, rfl⟩, by simpa using hchild⟩
    · rintro ⟨⟨item, hitem, rfl⟩, hchild⟩
      exact ⟨item, ⟨hitem, by simpa using hchild⟩, rfl⟩
  | scroll s => simp [retain, hiddenItems]

theorem retain_eq_self {handler : Handler} {children : List ComponentId}
    (h : ∀ id ∈ handler.hiddenItems, id ∈ children) : handler.retain children = handler := by
  cases handler with
  | scroll s => rfl
  | menu m =>
    have hall : m.hidden.filter (fun item => children.contains item.id) = m.hidden := by
      rw [List.filter_eq_self]
      intro item hitem
      simpa using h item.id (List.mem_map_of_mem hitem)
    show Handler.menu { m with hidden := _ } = .menu m
    rw [hall]

end Handler

/-! ## Lines in what a handler leaves -/

omit [Weight ω] in
theorem place_available (space : Space) (available : Size) (innerCross maxCross offset : Int)
    (members : List (Int × Request ω)) :
    place { space with available } innerCross maxCross offset members =
      place space innerCross maxCross offset members := by
  induction members generalizing offset with
  | nil => rfl
  | cons member members ih =>
    simp only [place, ih]
    rfl

/-- Only the inner lengths of the available space matter. -/
theorem solve_available {available : Size} {solution solution' : Solution}
    (hmain : ∀ m n, space.innerMain = .ok m → Space.innerMain { space with available } = .ok n →
      m = n)
    (hcross : ∀ m n, space.innerCross = .ok m → Space.innerCross { space with available } = .ok n →
      m = n)
    (h : solve boxes space = .ok solution)
    (h' : solve boxes { space with available } = .ok solution') : solution' = solution := by
  by_cases hne : boxes = []
  · subst hne
    cases h
    cases h'
    rfl
  · unfold solve at h h'
    rw [if_neg (by simpa using hne)] at h h'
    simp only [Length.bind_eq_ok, place_available] at h h'
    obtain ⟨innerMain, hinner, innerCross, hinnerCross, summary, hsummary, lengths, hlengths, used,
      hused, free, hfree, start, hstart, rects, hrects, h⟩ := h
    obtain ⟨innerMain', hinner', innerCross', hinnerCross', summary', hsummary', lengths',
      hlengths', used', hused', free', hfree', start', hstart', rects', hrects', h'⟩ := h'
    obtain rfl := hmain _ _ hinner hinner'
    obtain rfl := hcross _ _ hinnerCross hinnerCross'
    rw [hsummary] at hsummary'
    cases hsummary'
    rw [hlengths] at hlengths'
    cases hlengths'
    rw [hused] at hused'
    cases hused'
    rw [hfree] at hfree'
    cases hfree'
    rw [hstart] at hstart'
    cases hstart'
    rw [hrects] at hrects'
    cases hrects'
    cases h
    cases h'
    rfl

end Trellis.Box
