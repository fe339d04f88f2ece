import Trellis.Layout.Member

/-!
# What layouts leave in the tree

* `get?_modifyState`, `get?_applyRect`: what one change writes, and that it writes nothing else.
* `rect_applyPlacements`: a component that is placed has the rectangle of one of its placements.
-/
namespace Trellis.Tree

theorem get?_modifyState (t : Tree) (id i : ComponentId) (f : ComponentState → ComponentState) :
    (t.modifyState id f).get? i =
      if id = i then (t.get? i).map fun c => { c with state := f c.state } else t.get? i :=
  get?_modify t id i _

/-- The rectangles of all components, in the order of their ids. -/
def rects (t : Tree) : List Rect := t.components.toList.map fun c => c.state.rect

theorem get?_of_rects {t : Tree} {id : ComponentId} {r : Rect} (h : t.rects[id]? = some r) :
    ∃ c, t.get? id = some c ∧ c.state.rect = r := by
  rw [rects, List.getElem?_map, Option.map_eq_some_iff] at h
  obtain ⟨c, hc, hr⟩ := h
  exact ⟨c, by rwa [get?, ← Array.getElem?_toList], hr⟩

/-- The settings of a component. -/
def config? (t : Tree) (id : ComponentId) : Option ItemConfig := (t.get? id).map (·.config)

/-- Layouts change no settings. -/
@[simp] theorem config?_modifyState (t : Tree) (id : ComponentId)
    (f : ComponentState → ComponentState) : (t.modifyState id f).config? = t.config? := by
  funext i
  rw [config?, config?, get?_modifyState]
  split
  · rw [Option.map_map]
    rfl
  · rfl

@[simp] theorem config?_applyPlacements (t : Tree) (placements : List Placement) :
    (t.applyPlacements placements).config? = t.config? := by
  induction placements generalizing t with
  | nil => rfl
  | cons p rest ih => exact (ih _).trans (config?_modifyState ..)

theorem get_eq_ok {t : Tree} {id : ComponentId} {c : Component} :
    t.get id = .ok c ↔ t.get? id = some c := by
  unfold get
  cases t.get? id <;> simp

/-- A visible child is there. -/
theorem exists_of_mem_visibleChildren {t : Tree} {container id : ComponentId}
    (h : id ∈ t.visibleChildren container) : ∃ c, t.get? id = some c := by
  have hvisible := (List.mem_filter.1 h).2
  unfold isVisible at hvisible
  cases hc : t.get? id with
  | none =>
    rw [hc] at hvisible
    cases hvisible
  | some c => exact ⟨c, rfl⟩

theorem get?_applyRect (t : Tree) (id i : ComponentId) (rect : Rect) :
    (t.applyRect id rect).get? i =
      if id = i then (t.get? i).map fun c => { c with state :=
        { c.state with rect, sized := true, dirty := c.state.dirty || t.wouldChange id rect } }
      else t.get? i :=
  get?_modifyState t id i _

/-- A component that is placed has the rectangle of its last placement, and one that is not placed
is as it was. -/
theorem get?_applyPlacements (placements : List Placement) {t : Tree} {id : ComponentId}
    {c : Component} (hc : t.get? id = some c) :
    ∃ d, (t.applyPlacements placements).get? id = some d ∧
      d.config = c.config ∧ ((d = c ∧ ∀ p ∈ placements, p.id ≠ id) ∨
        ∃ p ∈ placements, p.id = id ∧ d.state.rect = p.rect) := by
  induction placements generalizing t c with
  | nil => exact ⟨c, hc, rfl, .inl ⟨rfl, by simp⟩⟩
  | cons p rest ih =>
    have hnext := get?_applyRect t p.id id p.rect
    rw [hc] at hnext
    by_cases heq : p.id = id
    · rw [if_pos heq] at hnext
      obtain ⟨d, hd, hconfig, hcases⟩ := ih hnext
      refine ⟨d, hd, hconfig, .inr ?_⟩
      rcases hcases with ⟨rfl, -⟩ | ⟨q, hq, hqid, hrect⟩
      · exact ⟨p, by simp, heq, rfl⟩
      · exact ⟨q, by simp [hq], hqid, hrect⟩
    · rw [if_neg heq] at hnext
      obtain ⟨d, hd, hconfig, hcases⟩ := ih hnext
      refine ⟨d, hd, hconfig, ?_⟩
      rcases hcases with ⟨rfl, hnone⟩ | ⟨q, hq, hqid, hrect⟩
      · exact .inl ⟨rfl, by simpa [heq] using hnone⟩
      · exact .inr ⟨q, by simp [hq], hqid, hrect⟩

theorem rect_applyPlacements {placements : List Placement} {t : Tree} {id : ComponentId}
    {c : Component} (hc : t.get? id = some c) (hid : id ∈ placements.map Placement.id) :
    ∃ d, (t.applyPlacements placements).get? id = some d ∧ d.config = c.config ∧
      ∃ p ∈ placements, p.id = id ∧ d.state.rect = p.rect := by
  obtain ⟨d, hd, hconfig, ⟨-, hnone⟩ | hplaced⟩ := get?_applyPlacements placements hc
  · obtain ⟨p, hp, rfl⟩ := List.mem_map.1 hid
    exact absurd rfl (hnone p hp)
  · exact ⟨d, hd, hconfig, hplaced⟩

end Trellis.Tree
