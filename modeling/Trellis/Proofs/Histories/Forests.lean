import Trellis.Proofs.Relayout.Agreement
import Trellis.Proofs.Relayout.Nesting

/-!
# Trees whose components are moved

A component that is taken out of its parent, or put into another one, keeps its settings and what
layouts wrote about it; children and parents go on agreeing. A *forest* is a tree in which no
component is in itself. It stays one as long as no container is put into a component that lies in
it.

* `Rearranged`: the trees differ at most in which component is in which.
* `Linked.detach`, `Linked.attach`, `Forest.detach`, `Forest.attach`: one component is moved.
* `inside_of_detach`, `inside_of_attach`: a container is in nothing that it was not in before.
-/
namespace Trellis

/-- The component without its place in the tree. -/
def Component.loose (c : Component) : Component := { c with parent := none, children := [] }

namespace Tree

variable {t u v : Tree} {c i p x : ComponentId}

/-! ## What moving keeps -/

/-- The trees hold the same components, perhaps in other places. -/
def Rearranged (t u : Tree) : Prop :=
  ∀ i, (t.get? i).map Component.loose = (u.get? i).map Component.loose

namespace Rearranged

theorem refl (t : Tree) : Rearranged t t := fun _ => rfl

theorem trans (h : Rearranged t u) (h' : Rearranged u v) : Rearranged t v :=
  fun i => (h i).trans (h' i)

/-- What does not depend on places is the same. -/
theorem eq_at {α : Type} (h : Rearranged t u) {g : Option Component → α}
    (hg : ∀ o, g (o.map Component.loose) = g o) (i : ComponentId) :
    g (t.get? i) = g (u.get? i) := by
  rw [← hg, h i, hg]

end Rearranged

theorem rearranged_modify (t : Tree) (i : ComponentId) {f : Component → Component}
    (hf : ∀ c, (f c).loose = c.loose) : Rearranged t (t.modify i f) := by
  intro j
  rw [get?_modify]
  split
  · rw [Option.map_map]
    cases t.get? j <;> simp [hf]
  · rfl

theorem rearranged_detach (t : Tree) (p x : ComponentId) : Rearranged t (t.detach p x) := by
  unfold detach
  split
  · refine (rearranged_modify t p ?_).trans (rearranged_modify _ x ?_) <;>
    · intro d
      rfl
  · exact .refl t

/-- The tree once `x` is taken away from the parent it has. -/
def freed (t : Tree) (x : ComponentId) : Tree :=
  match t.parent? x with
  | some old => t.detach old x
  | none => t

theorem size_detach (t : Tree) (p x : ComponentId) : (t.detach p x).size = t.size := by
  unfold detach
  split
  · rw [size_modify, size_modify]
  · rfl

theorem size_freed (t : Tree) (x : ComponentId) : (t.freed x).size = t.size := by
  unfold freed
  split
  · exact size_detach t _ x
  · rfl

theorem rearranged_freed (t : Tree) (x : ComponentId) : Rearranged t (t.freed x) := by
  unfold freed
  split
  · exact rearranged_detach t _ x
  · exact .refl t

theorem rearranged_attach (t : Tree) (p x : ComponentId) : Rearranged t (t.attach p x) := by
  refine (rearranged_freed t x).trans ?_
  refine (rearranged_modify _ p ?_).trans (rearranged_modify _ x ?_) <;>
  · intro d
    rfl

/-! ## One component is moved -/

theorem get?_detach (hmem : x ∈ t.children p) (i : ComponentId) :
    (t.detach p x).get? i = (t.get? i).map fun d => { d with
      parent := if x = i then none else d.parent
      children := if p = i then d.children.erase x else d.children } := by
  unfold detach
  rw [if_pos (by simpa using hmem), get?_modify, get?_modify]
  by_cases hx : x = i <;> by_cases hp : p = i <;> cases t.get? i <;> simp [hx, hp]

theorem detach_eq_self (hmem : x ∉ t.children p) : t.detach p x = t := by
  unfold detach
  rw [if_neg (by simpa using hmem)]

theorem parent?_detach (t : Tree) (p x i : ComponentId) :
    (t.detach p x).parent? i = if x = i ∧ x ∈ t.children p then none else t.parent? i := by
  by_cases hmem : x ∈ t.children p
  · unfold parent?
    rw [get?_detach hmem]
    simp only [hmem, and_true]
    by_cases hx : x = i <;> cases t.get? i <;> simp [hx]
  · rw [detach_eq_self hmem, if_neg fun h => hmem h.2]

theorem children_detach (t : Tree) (p x i : ComponentId) :
    (t.detach p x).children i = if p = i then (t.children i).erase x else t.children i := by
  by_cases hmem : x ∈ t.children p
  · unfold children
    rw [get?_detach hmem]
    by_cases hp : p = i <;> cases t.get? i <;> simp [hp]
  · rw [detach_eq_self hmem]
    by_cases hp : p = i
    · subst hp
      rw [if_pos rfl, List.erase_of_not_mem hmem]
    · rw [if_neg hp]

theorem appendChild_eq_ok (h : t.appendChild p x = .ok u) :
    p < t.size ∧ x < t.size ∧ u = t.attach p x := by
  have hlt : ∀ {i d}, t.get i = .ok d → i < t.size := by
    intro i d hd
    exact (Array.getElem?_eq_some_iff.1 (get_eq_ok.1 hd)).1
  obtain ⟨d, hd, h⟩ := Length.bind_eq_ok.1 h
  obtain ⟨e, he, h⟩ := Length.bind_eq_ok.1 h
  cases h
  exact ⟨hlt hd, hlt he, rfl⟩

theorem removeChild_eq_ok (h : t.removeChild p x = .ok u) : u = t.detach p x := by
  obtain ⟨d, -, h⟩ := Length.bind_eq_ok.1 h
  cases h
  rfl

namespace Linked

theorem congr (h : t.Linked) (hparent : u.parent? = t.parent?)
    (hchildren : u.children = t.children) : u.Linked :=
  ⟨by rw [hparent, hchildren]; exact h.mem_children, by rw [hchildren]; exact h.nodup⟩

theorem alloc (h : t.Linked) (item : ItemConfig) : (t.alloc item).Linked :=
  h.congr (t.parent?_alloc item) (t.children_alloc item)

theorem exists_child (h : t.Linked) (hi : i ∈ t.children c) : ∃ d, t.get? i = some d := by
  obtain ⟨d, hd, -⟩ := Option.bind_eq_some_iff.1 ((h.mem_children c i).1 hi)
  exact ⟨d, hd⟩

theorem detach (h : t.Linked) (p x : ComponentId) : (t.detach p x).Linked := by
  constructor
  · intro c i
    rw [children_detach, parent?_detach]
    by_cases hp : p = c
    · subst hp
      rw [if_pos rfl, (h.nodup p).mem_erase_iff, h.mem_children]
      by_cases hx : x = i
      · subst hx
        by_cases hmem : x ∈ t.children p
        · simp [hmem]
        · simpa [hmem] using fun hparent => hmem ((h.mem_children p x).2 hparent)
      · simp [hx, Ne.symm hx]
    · rw [if_neg hp, h.mem_children]
      by_cases hx : x = i ∧ x ∈ t.children p
      · obtain ⟨rfl, hmem⟩ := hx
        have hparent := (h.mem_children p x).1 hmem
        simp [hmem, hparent, hp]
      · rw [if_neg hx]
  · intro c
    rw [children_detach]
    split
    · exact (h.nodup c).erase x
    · exact h.nodup c

theorem freed (h : t.Linked) (x : ComponentId) : (t.freed x).Linked := by
  unfold Tree.freed
  split
  · exact h.detach _ x
  · exact h

theorem parent?_freed (h : t.Linked) (x i : ComponentId) :
    (t.freed x).parent? i = if x = i then none else t.parent? i := by
  unfold Tree.freed
  split
  · next old hold =>
    have hmem := (h.mem_children old x).2 hold
    simp [parent?_detach, hmem]
  · next hfree =>
    by_cases hx : x = i
    · subst hx
      rw [if_pos rfl, hfree]
    · rw [if_neg hx]

theorem children_freed (h : t.Linked) (x c : ComponentId) :
    (t.freed x).children c = (t.children c).erase x := by
  unfold Tree.freed
  split
  · next old hold =>
    rw [children_detach]
    split
    · rfl
    · next hne =>
      refine (List.erase_of_not_mem fun hmem => hne ?_).symm
      rw [h.mem_children, hold] at hmem
      exact Option.some.inj hmem
  · next hfree =>
    refine (List.erase_of_not_mem fun hmem => ?_).symm
    rw [h.mem_children, hfree] at hmem
    cases hmem

theorem attach_eq (h : t.Linked) (p x : ComponentId) :
    t.attach p x = (t.freed x).attach p x := by
  have hfree : (t.freed x).parent? x = none := by
    rw [h.parent?_freed, if_pos rfl]
  conv =>
    rhs
    rw [Tree.attach, hfree]
  rfl

theorem parent?_attach (h : t.Linked) (hx : x < t.size) (i : ComponentId) :
    (t.attach p x).parent? i = if x = i then some p else t.parent? i := by
  have hfree : (t.freed x).parent? x = none := by
    rw [h.parent?_freed, if_pos rfl]
  rw [h.attach_eq, Tree.parent?_attach hfree (by rwa [size_freed]), h.parent?_freed]
  split <;> rfl

/-- The component leaves the children that it was among, and becomes the last one of its parent. -/
theorem children_attach (h : t.Linked) (hp : p < t.size) (c : ComponentId) :
    (t.attach p x).children c =
      if p = c then (t.children c).erase x ++ [x] else (t.children c).erase x := by
  have hfree : (t.freed x).parent? x = none := by
    rw [h.parent?_freed, if_pos rfl]
  rw [h.attach_eq, Tree.children_attach hfree (by rwa [size_freed]), h.children_freed]

theorem attach (h : t.Linked) (hp : p < t.size) (hx : x < t.size) : (t.attach p x).Linked := by
  have hfreed := h.freed x
  have hnew : ∀ c, x ∉ (t.freed x).children c := by
    intro c hmem
    rw [hfreed.mem_children, h.parent?_freed, if_pos rfl] at hmem
    cases hmem
  have hchildren : ∀ c, (t.attach p x).children c =
      if p = c then (t.freed x).children c ++ [x] else (t.freed x).children c := by
    intro c
    rw [h.children_attach hp, h.children_freed]
  constructor
  · intro c i
    rw [hchildren, h.parent?_attach hx]
    have hother := h.parent?_freed x i
    by_cases hxi : x = i
    · subst hxi
      by_cases hpc : p = c <;> simp [hpc, hnew]
    · rw [if_neg hxi] at hother ⊢
      rw [← hother, ← hfreed.mem_children]
      by_cases hpc : p = c <;> simp [hpc, Ne.symm hxi]
  · intro c
    rw [hchildren]
    split
    · refine List.nodup_append.2 ⟨hfreed.nodup c, by simp, fun i hi j hj heq => ?_⟩
      rw [heq, List.mem_singleton.1 hj] at hi
      exact hnew c hi
    · exact hfreed.nodup c

end Linked

/-! ## Forests -/

/-- No component is in itself: every parent is less deep than its children. -/
structure Forest (t : Tree) : Prop extends Linked t where
  grounded : ∃ depth : ComponentId → Nat, ∀ c i, t.parent? i = some c → depth c < depth i

theorem Nested.forest (h : t.Nested) : t.Forest := ⟨h.linked, id, h.older⟩

theorem SameShape.linked {t u : Tree} (h : t.SameShape u) (hlinked : t.Linked) : u.Linked :=
  hlinked.congr h.parent?_eq.symm h.children_eq.symm

theorem SameShape.forest {t u : Tree} (h : t.SameShape u) (hforest : t.Forest) :
    u.Forest := by
  obtain ⟨depth, hdepth⟩ := hforest.grounded
  exact ⟨h.linked hforest.toLinked, depth, by rw [← h.parent?_eq]; exact hdepth⟩

theorem inside_of_detach (h : (t.detach p x).Inside c i) : t.Inside c i := by
  induction h with
  | refl => exact .refl
  | tail _ hparent ih =>
    rw [parent?_detach] at hparent
    split at hparent
    · cases hparent
    · exact ih.tail hparent

/-- A container is in the same components as before, unless it is in the one that is moved. -/
theorem inside_of_attach (h : t.Linked) (hx : x < t.size) (hapart : ¬ t.Inside x c)
    (hin : (t.attach p x).Inside i c) : t.Inside i c := by
  induction hin with
  | refl => exact .refl
  | tail _ hparent ih =>
    rw [h.parent?_attach hx, if_neg] at hparent
    · exact ih.tail hparent
    · rintro rfl
      exact hapart ih

namespace Forest

/-- A container is not in its child. -/
theorem not_inside_child (h : t.Forest) (hx : t.parent? x = some c) : ¬ t.Inside x c := by
  obtain ⟨depth, hdepth⟩ := h.grounded
  have hle : ∀ {c i}, t.Inside c i → depth c ≤ depth i := by
    intro c i hin
    induction hin with
    | refl => exact Nat.le_refl _
    | tail _ hparent ih =>
      have hlt := hdepth _ _ hparent
      omega
  intro hin
  have hlt := hdepth c x hx
  have hge := hle hin
  omega

/-- No component is inside two children of one container. -/
theorem apart (h : t.Forest) {y : ComponentId} (hx : t.parent? x = some c)
    (hy : t.parent? y = some c) (hi : t.Inside x i) (hi' : t.Inside y i) : x = y :=
  apart_of h.not_inside_child hx hy hi hi'

theorem detach (h : t.Forest) (p x : ComponentId) : (t.detach p x).Forest := by
  obtain ⟨depth, hdepth⟩ := h.grounded
  refine ⟨h.toLinked.detach p x, depth, fun c i hparent => hdepth c i ?_⟩
  rw [parent?_detach] at hparent
  split at hparent
  · cases hparent
  · exact hparent

/-- Putting a component into one that is not in it: whatever is in it becomes deeper. -/
theorem attach (h : t.Forest) (hp : p < t.size) (hx : x < t.size) (hapart : ¬ t.Inside x p) :
    (t.attach p x).Forest := by
  classical
  obtain ⟨depth, hdepth⟩ := h.grounded
  refine ⟨h.toLinked.attach hp hx,
    fun i => depth i + if t.Inside x i then depth p + 1 else 0, fun c i hparent => ?_⟩
  rw [h.toLinked.parent?_attach hx] at hparent
  by_cases hxi : x = i
  · subst hxi
    rw [if_pos rfl, Option.some.injEq] at hparent
    subst hparent
    simp only [if_neg hapart, if_pos (t.inside_self x)]
    omega
  · rw [if_neg hxi] at hparent
    have hlt := hdepth c i hparent
    have hsame : t.Inside x i ↔ t.Inside x c := by
      constructor
      · intro hin
        obtain rfl | ⟨j, hj, hjx⟩ := Relation.ReflTransGen.cases_head hin
        · exact absurd rfl hxi
        · rw [hparent, Option.some.injEq] at hj
          rwa [hj]
      · intro hin
        exact Relation.ReflTransGen.head hparent hin
    simp only [hsame]
    omega

end Forest

end Tree

end Trellis
