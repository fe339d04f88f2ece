import Mathlib.Data.List.Chain
import Trellis.Proofs.Menu.Turns
import Trellis.Proofs.Passes.Levels

/-!
# What the host is told of overflow

The handler of a line reacts once in a pass, and the host is told exactly if the reaction, together
with what the handler has forgotten before it, has changed whether the line overflows. Nothing else
in a pass touches the handler of the line or speaks of its overflow, so that what was said last of a
line is what its handler shows.

* `overflowChanges`: what the host was told of the overflow of a container.
* `Announced`: changes alternate, and the last one is what the handler shows.
* `Announced.arranged`: the layout of the line keeps it so; `lasting_announced`: so do passes.
-/
namespace Trellis

/-! ## Handlers -/

/-- Scrolling moves the children, and that is all. -/
theorem Box.Handler.isOverflowing_scrollBy (h : Box.Handler) (delta : Int) :
    (h.scrollBy delta).isOverflowing = h.isOverflowing := by
  cases h <;> rfl

namespace Arrangement

/-- The line overflows, as its handler has it; without a handler it never does. -/
def isOverflowing : Arrangement → Bool
  | .linear ⟨_, some handler⟩ => handler.isOverflowing
  | _ => false

theorem isOverflowing_fresh (layout : LayoutConfig) : (fresh layout).isOverflowing = false := by
  unfold fresh
  cases layout.kind <;> cases layout.overflowHandler <;> try rfl
  all_goals (rename_i handler; cases handler <;> rfl)

theorem eq_linear {a : Arrangement} {axis : Axis} (h : a.kind = axis.lineKind) :
    ∃ overflow, a = .linear ⟨axis, overflow⟩ := by
  cases a with
  | linear l =>
    obtain ⟨other, overflow⟩ := l
    refine ⟨overflow, ?_⟩
    cases axis <;> cases other <;> first | rfl | cases h
  | anchored a =>
    obtain ⟨mode, _, _⟩ := a
    cases axis <;> cases mode <;> cases h
  | _ => cases axis <;> cases h

end Arrangement

/-! ## Alternating values -/

/-- One more value after values that alternate, unless it is the last one again. -/
theorem alternates_append {values : List Bool} {shown : Bool} (next : Bool)
    (h : (false :: values).IsChain (· ≠ ·)) (hlast : values.getLast?.getD false = shown) :
    (false :: (values ++ if next ≠ shown then [next] else [])).IsChain (· ≠ ·) ∧
      (values ++ if next ≠ shown then [next] else []).getLast?.getD false = next := by
  split
  · next hne =>
    refine ⟨?_, by simp⟩
    rw [← List.cons_append, List.isChain_append]
    refine ⟨h, .singleton next, fun x hx y hy => ?_⟩
    rw [List.getLast?_cons, Option.mem_some_iff, hlast] at hx
    rw [List.head?_cons, Option.mem_some_iff] at hy
    rw [← hx, ← hy]
    exact Ne.symm hne
  · next hsame =>
    rw [List.append_nil]
    exact ⟨h, hlast.trans (not_not.1 hsame).symm⟩

namespace Scene

variable {s s' t : Scene} {c d : ComponentId} {axis : Axis} {layout : LayoutConfig}
  {r : Except LayoutError Unit}

/-! ## What has been said -/

/-- What an entry of the record says of the overflow of `c`. -/
def overflowChange? (c : ComponentId) : ComponentId × Event → Option Bool
  | (id, .overflowChange overflowing) => if id = c then some overflowing else none
  | _ => none

/-- What the host was told of the overflow of `c`, oldest first. -/
def overflowChanges (s : Scene) (c : ComponentId) : List Bool :=
  s.events.filterMap (overflowChange? c)

/-- What is kept for `c` has it that its line overflows. -/
def isOverflowing (s : Scene) (c : ComponentId) : Bool :=
  (s.kept.get? c).any Arrangement.isOverflowing

theorem overflowChanges_told (s : Scene) (d : ComponentId) {e : Event}
    (he : e = .beforeLayout ∨ e = .afterLayout) (c : ComponentId) :
    (s.told d e).overflowChanges c = s.overflowChanges c := by
  unfold told overflowChanges
  split
  · rcases he with rfl | rfl <;> simp [overflowChange?]
  · rfl

/-- What a layout says of its own container is nothing about others. -/
theorem Writes.overflowChanges_eq (h : Writes d s t) (hne : d ≠ c) :
    t.overflowChanges c = s.overflowChanges c := by
  obtain ⟨flips, hflips⟩ := h.flips
  have hnone : (flips.map fun b => (d, Event.overflowChange b)).filterMap (overflowChange? c) =
      [] := by
    rw [List.filterMap_eq_nil_iff]
    intro e he
    obtain ⟨b, -, rfl⟩ := List.mem_map.1 he
    exact if_neg hne
  unfold overflowChanges
  rw [hflips, List.filterMap_append, hnone, List.append_nil]

/-- The changes that the host was told of alternate, beginning with one that says that the line of
`c` overflows, and the last one is what its handler shows. -/
structure Announced (c : ComponentId) (axis : Axis) (s : Scene) : Prop where
  listens : s.host.listens = true
  kind_eq : (s.tree.layout? c).map LayoutConfig.kind = some axis.lineKind
  kept_kind : ∀ a, s.kept.get? c = some a → a.kind = axis.lineKind
  alternates : (false :: s.overflowChanges c).IsChain (· ≠ ·)
  last_eq : (s.overflowChanges c).getLast?.getD false = s.isOverflowing c

namespace Announced

/-- Nothing was said of the container, and its handler is the same. -/
theorem of_same (h : Announced c axis s) (hlistens : t.host.listens = true)
    (hkind : (t.tree.layout? c).map LayoutConfig.kind = (s.tree.layout? c).map LayoutConfig.kind)
    (hkept : t.kept.get? c = s.kept.get? c)
    (hchanges : t.overflowChanges c = s.overflowChanges c) : Announced c axis t := by
  refine ⟨hlistens, hkind.trans h.kind_eq, ?_, ?_, ?_⟩
  · rw [hkept]
    exact h.kept_kind
  · rw [hchanges]
    exact h.alternates
  · rw [hchanges, h.last_eq, isOverflowing, isOverflowing, hkept]

theorem told (h : Announced c axis s) (d : ComponentId) {e : Event}
    (he : e = .beforeLayout ∨ e = .afterLayout) : Announced c axis (s.told d e) :=
  h.of_same (by rw [host_told, h.listens]) (by rw [tree_told]) (by rw [kept_told])
    (overflowChanges_told s d he c)

/-- Another container is laid out. -/
theorem of_writes (h : Announced c axis s) (hne : d ≠ c) (hwrites : Writes d s t) :
    Announced c axis t :=
  h.of_same (by rw [hwrites.host, h.listens]) (by rw [hwrites.shape.layout?_eq])
    (hwrites.others c (Ne.symm hne)) (hwrites.overflowChanges_eq hne)

/-- What is kept for the line when its layout runs shows the same. -/
theorem ready (h : Announced c axis s) (hlayout : s.tree.layoutOf c = .ok layout) :
    Announced c axis (s.ready layout c) := by
  have hkind : layout.kind = axis.lineKind := by
    have := h.kind_eq
    rw [Tree.layout?_of_layoutOf hlayout] at this
    exact Option.some.inj this
  have hshows : (s.arrangement layout c).isOverflowing = s.isOverflowing c := by
    unfold isOverflowing
    cases hkept : s.kept.get? c with
    | none =>
      rw [arrangement_of_unused hkept, Arrangement.isOverflowing_fresh]
      rfl
    | some a =>
      rw [arrangement_of_kept hkept ((h.kept_kind a hkept).trans hkind.symm)]
      rfl
  have hkept := s.kept_ready_self layout c
  refine ⟨h.listens, ?_, fun a ha => ?_, h.alternates, ?_⟩
  · rw [← h.kind_eq]
    exact congrArg _
      (congrFun (s.tree.agree_renderChildren c).toSameShape.layout?_eq.symm c)
  · rw [hkept, Option.some.injEq] at ha
    rw [← ha, kind_arrangement, hkind]
  · unfold isOverflowing
    rw [hkept, Option.any_some, hshows]
    exact h.last_eq

/-- The layout of the line itself. -/
theorem arranged {overflow : Option Box.Handler} (h : Announced c axis s)
    (hkept : s.kept.get? c = some (.linear ⟨axis, overflow⟩))
    (hrun : s.run (Lines.arrange layout c ⟨axis, overflow⟩) = .ok (r, s')) :
    Announced c axis s' := by
  have hwrites := Step.writesOnly_linear layout ⟨axis, overflow⟩ hrun
  cases overflow with
  | none =>
    obtain ⟨-, _, _, _, -, -, -, hplaces, hevents⟩ := run_linear_of_none rfl hrun
    refine h.of_same (by rw [hwrites.host, h.listens]) (by rw [hwrites.shape.layout?_eq])
      (by rw [hplaces.kept]) ?_
    unfold overflowChanges
    rw [hevents]
  | some handler =>
    -- `next` is compared with the handler as it was kept, before it forgot children that have left
    obtain ⟨-, _, _, next, _, _, _, _, hhandles⟩ := run_linear_of_handler rfl hrun
    have hnext : s'.kept.get? c = some (.linear ⟨axis, some next⟩) := by
      rw [hhandles.places.kept, reacted, IdMap.get?_insert, if_pos rfl]
    have hchanges : s'.overflowChanges c = s.overflowChanges c ++
        if next.isOverflowing ≠ handler.isOverflowing then [next.isOverflowing] else [] := by
      unfold overflowChanges
      rw [hhandles.events_eq, if_pos h.listens, List.filterMap_append, flips]
      split <;> simp [overflowChange?]
    have hlast : (s.overflowChanges c).getLast?.getD false = handler.isOverflowing := by
      rw [h.last_eq, isOverflowing, hkept]
      rfl
    obtain ⟨halternates, hshown⟩ :=
      alternates_append next.isOverflowing h.alternates hlast
    refine ⟨by rw [hwrites.host, h.listens], ?_, fun a ha => ?_, ?_, ?_⟩
    · rw [← h.kind_eq, hwrites.shape.layout?_eq]
    · rw [hnext, Option.some.injEq] at ha
      rw [← ha]
      cases axis <;> rfl
    · rw [hchanges]
      exact halternates
    · rw [hchanges, hshown, isOverflowing, hnext]
      rfl

theorem opens (h : Announced c axis s) (hopens : s.Opens layout d r t) : Announced c axis t := by
  have htold := h.told d (.inl rfl)
  by_cases hd : d = c
  · -- the line itself: what is kept for it is of its kind, so its handler is the one of before
    subst hd
    have hlayout : (s.told d .beforeLayout).tree.layoutOf d = .ok layout := by
      rw [tree_told, hopens.layout_eq]
    have hready : Announced d axis (s.begun layout d) := htold.ready hlayout
    have hkept : (s.begun layout d).kept.get? d = some (s.arrangement layout d) := by
      rw [begun, kept_ready_self]
      exact congrArg some (arrangement_congr (by rw [kept_told]))
    obtain ⟨overflow, ha⟩ := Arrangement.eq_linear (hready.kept_kind _ hkept)
    have hrun := hopens.arranged
    rw [ha] at hkept hrun
    exact hready.arranged hkept hrun
  · exact (htold.of_writes hd (writes_ready _ layout d)).of_writes hd
      (Step.writesOnly_arrange layout _ hopens.arranged)

end Announced

theorem lasting_announced (c : ComponentId) (axis : Axis) : Lasting (Announced c axis) :=
  ⟨fun d _ he h => h.told d he, fun h hopens => h.opens hopens⟩

end Scene

end Trellis
