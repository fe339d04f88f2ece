import Mathlib.Data.Finset.Card
import Mathlib.Data.Nat.Find
import Trellis.IdMap
import Trellis.Proofs.Relayout.Nesting

/-!
# Ancestors

The ancestors of a component are found by going up as many steps as there are components. That finds
all of them, even where components contain one another: on a shortest way up no component is met
twice.

* `above`: the component some steps up; `exists_above_le`: as many steps as components are enough.
* `isDescendantOf_iff`: being a descendant is being inside, but not the container itself.
* `get?_filter_outside`: what is kept of a map without the container and its descendants.
-/
namespace Trellis.Tree

variable {t : Tree} {a c i : ComponentId} {j k : Nat}

/-- The component `k` steps up from `i`. -/
def above (t : Tree) : Nat → ComponentId → Option ComponentId
  | 0, i => some i
  | k + 1, i => (t.parent? i).bind (t.above k)

theorem above_add (t : Tree) (j k : Nat) (i : ComponentId) :
    t.above (j + k) i = (t.above j i).bind (t.above k) := by
  induction j generalizing i with
  | zero => rw [Nat.zero_add]; rfl
  | succ j ih =>
    rw [Nat.succ_add, above, above, Option.bind_assoc]
    exact congrArg _ (funext ih)

theorem inside_iff_above : t.Inside c i ↔ ∃ k, t.above k i = some c := by
  constructor
  · intro h
    induction h using Relation.ReflTransGen.head_induction_on with
    | refl => exact ⟨0, rfl⟩
    | head hparent _ ih =>
      obtain ⟨k, hk⟩ := ih
      exact ⟨k + 1, by rw [above, hparent, Option.bind_some, hk]⟩
  · intro ⟨k, hk⟩
    induction k generalizing i with
    | zero =>
      cases hk
      exact t.inside_self _
    | succ k ih =>
      obtain ⟨p, hp, hk⟩ := Option.bind_eq_some_iff.1 hk
      exact .head hp (ih hk)

theorem lt_size_of_parent? {p : ComponentId} (h : t.parent? i = some p) : i < t.size := by
  obtain ⟨d, hd, -⟩ := Option.bind_eq_some_iff.1 h
  exact (Array.getElem?_eq_some_iff.1 hd).1

/-- Before the last step of a way up, every component has a parent. -/
theorem exists_above (h : t.above k i = some c) (hj : j < k) :
    ∃ x, t.above j i = some x ∧ x < t.size := by
  obtain ⟨m, rfl⟩ := Nat.exists_eq_add_of_lt hj
  rw [Nat.add_assoc, above_add] at h
  obtain ⟨x, hx, h⟩ := Option.bind_eq_some_iff.1 h
  obtain ⟨p, hp, -⟩ := Option.bind_eq_some_iff.1 h
  exact ⟨x, hx, lt_size_of_parent? hp⟩

/-- As many steps up as there are components are enough. -/
theorem exists_above_le (h : t.above (k + 1) i = some c) :
    ∃ k, k < t.size ∧ t.above (k + 1) i = some c := by
  classical
  have hex : ∃ k, t.above (k + 1) i = some c := ⟨k, h⟩
  have hfind := Nat.find_spec hex
  refine ⟨Nat.find hex, ?_, hfind⟩
  -- where a component is met twice, the way between can be left out
  have hdistinct : ∀ {j l}, j < l → l < Nat.find hex + 1 → t.above j i ≠ t.above l i := by
    intro j l hjl hl heq
    obtain ⟨m, hm⟩ := Nat.exists_eq_add_of_lt hl
    have hshort : t.above (j + m + 1) i = some c := by
      rw [hm, Nat.add_assoc, above_add, ← heq, ← above_add] at hfind
      rwa [Nat.add_assoc]
    exact Nat.find_min hex (by omega) hshort
  have hcard := Finset.card_le_card_of_injOn (s := .range (Nat.find hex + 1))
    (t := .range t.size) (fun j => (t.above j i).getD 0) ?_ ?_
  · rwa [Finset.card_range, Finset.card_range] at hcard
  · intro j hj
    obtain ⟨x, hx, hlt⟩ := exists_above hfind (by simpa using hj)
    simpa [hx] using hlt
  · intro j hj l hl heq
    obtain ⟨x, hx, -⟩ := exists_above hfind (j := j) (by simpa using hj)
    obtain ⟨y, hy, -⟩ := exists_above hfind (j := l) (by simpa using hl)
    have hsame : t.above j i = t.above l i := by
      simp only [hx, hy, Option.getD_some] at heq
      rw [hx, hy, heq]
    rcases Nat.lt_trichotomy j l with hjl | hjl | hlj
    · exact absurd hsame (hdistinct hjl (by simpa using hl))
    · exact hjl
    · exact absurd hsame.symm (hdistinct hlj (by simpa using hj))

theorem mem_ancestorsWithin {n : Nat} :
    a ∈ t.ancestorsWithin n (some i) ↔ ∃ k < n, t.above k i = some a := by
  induction n generalizing i with
  | zero => simp [ancestorsWithin]
  | succ n ih =>
    rw [ancestorsWithin, List.mem_cons]
    constructor
    · intro h
      rcases h with rfl | h
      · exact ⟨0, Nat.succ_pos n, rfl⟩
      · cases hp : t.parent? i with
        | none =>
          rw [hp] at h
          cases n <;> cases h
        | some p =>
          rw [hp, ih] at h
          obtain ⟨k, hk, h⟩ := h
          exact ⟨k + 1, Nat.succ_lt_succ hk, by rw [above, hp, Option.bind_some, h]⟩
    · intro ⟨k, hk, h⟩
      cases k with
      | zero =>
        cases h
        exact .inl rfl
      | succ k =>
        obtain ⟨p, hp, h⟩ := Option.bind_eq_some_iff.1 h
        rw [hp, ih]
        exact .inr ⟨k, Nat.lt_of_succ_lt_succ hk, h⟩

theorem isDescendantOf_iff : t.isDescendantOf i c = true ↔
    ∃ p, t.parent? i = some p ∧ t.Inside c p := by
  unfold isDescendantOf ancestors
  rw [List.contains_iff_mem]
  constructor
  · intro h
    cases hp : t.parent? i with
    | none =>
      rw [hp] at h
      cases hsize : t.size <;> rw [hsize] at h <;> cases h
    | some p =>
      rw [hp, mem_ancestorsWithin] at h
      obtain ⟨k, -, h⟩ := h
      exact ⟨p, rfl, inside_iff_above.2 ⟨k, h⟩⟩
  · intro ⟨p, hp, h⟩
    obtain ⟨k, hk⟩ := inside_iff_above.1 h
    obtain ⟨m, hm, habove⟩ := exists_above_le (i := i) (c := c) (k := k)
      (by rw [above, hp, Option.bind_some, hk])
    rw [above, hp, Option.bind_some] at habove
    rw [hp, mem_ancestorsWithin]
    exact ⟨m, hm, habove⟩

/-- A component is inside a container if it is the container or a descendant of it. -/
theorem inside_iff : t.Inside c i ↔ i = c ∨ t.isDescendantOf i c = true := by
  rw [isDescendantOf_iff]
  exact Relation.ReflTransGen.cases_head_iff

instance (t : Tree) (c i : ComponentId) : Decidable (t.Inside c i) :=
  decidable_of_iff _ inside_iff.symm

/-- A map without a container and its descendants has the values of all that is not inside. -/
theorem get?_filter_outside {α : Type} (m : IdMap α) (t : Tree) (c i : ComponentId) :
    (m.filter fun id _ => id != c && !t.isDescendantOf id c).get? i =
      if t.Inside c i then none else m.get? i := by
  rw [IdMap.get?_filter]
  by_cases hin : t.Inside c i
  · have hgone : (i != c && !t.isDescendantOf i c) = false := by
      simpa [Decidable.imp_iff_not_or] using inside_iff.1 hin
    cases m.get? i <;> simp [hin, hgone, Option.filter]
  · have hlives : (i != c && !t.isDescendantOf i c) = true := by
      simpa using mt inside_iff.2 hin
    cases m.get? i <;> simp [hin, hlives, Option.filter]

end Trellis.Tree
