import Mathlib.Logic.Relation
import Trellis.Tree

/-!
# Components inside one another

In a tree made from a description, the children of a component are the components whose parent it
is, and a parent is older than its children. So what is inside one child of a container is apart
from what is inside another.

* `nested_ofDescription`: a tree made from a description is nested.
* `Linked`: what is left of that when components are moved.
* `Inside`: a component is the container or one of those in it, at any depth.
* `Nested.apart`: no component is inside two children of one container.
-/
namespace Trellis.Tree

structure Nested (t : Tree) : Prop where
  mem_children : ∀ c i, i ∈ t.children c ↔ t.parent? i = some c
  older : ∀ c i, t.parent? i = some c → c < i
  nodup : ∀ c, (t.children c).Nodup

/-- Children and parents agree, however the components have been moved. -/
structure Linked (t : Tree) : Prop where
  mem_children : ∀ c i, i ∈ t.children c ↔ t.parent? i = some c
  nodup : ∀ c, (t.children c).Nodup

theorem Nested.linked {t : Tree} (h : t.Nested) : t.Linked := ⟨h.mem_children, h.nodup⟩

theorem Linked.nodup_visibleChildren {t : Tree} (h : t.Linked) (c : ComponentId) :
    (t.visibleChildren c).Nodup :=
  (h.nodup c).filter _

theorem Linked.parent?_of_visible {t : Tree} (h : t.Linked) {c : ComponentId} :
    ∀ x ∈ t.visibleChildren c, t.parent? x = some c := fun x hx =>
  (h.mem_children c x).1 (List.mem_filter.1 hx).1

/-! ## Trees made from descriptions -/

section

variable {t : Tree}

theorem get?_alloc (t : Tree) (config : ItemConfig) (i : ComponentId) :
    (t.alloc config).get? i = if i = t.size then some (.fresh config) else t.get? i := by
  unfold alloc
  cases config.itemId <;> exact Array.getElem?_push

theorem get?_size (t : Tree) : t.get? t.size = none := by simp [get?, size]

theorem get?_alloc_of_isSome (t : Tree) (item : ItemConfig) {i : ComponentId}
    (h : (t.get? i).isSome) : (t.alloc item).get? i = t.get? i := by
  rw [get?_alloc, if_neg]
  rintro rfl
  rw [get?_size] at h
  cases h

theorem parent?_alloc (t : Tree) (config : ItemConfig) :
    (t.alloc config).parent? = t.parent? := by
  funext i
  unfold parent?
  rw [get?_alloc]
  split
  · next h =>
    subst h
    rw [get?_size]
    rfl
  · rfl

theorem children_alloc (t : Tree) (config : ItemConfig) :
    (t.alloc config).children = t.children := by
  funext i
  unfold children
  rw [get?_alloc]
  split
  · next h =>
    subst h
    rw [get?_size]
    rfl
  · rfl

theorem exists_get?_of_lt {i : ComponentId} (h : i < t.size) : ∃ c, t.get? i = some c :=
  ⟨t.components[i], Array.getElem?_eq_getElem h⟩

/-- A component without a parent that becomes the last child of `parent`. -/
theorem get?_attach {parent child : ComponentId} (hfree : t.parent? child = none)
    (i : ComponentId) : (t.attach parent child).get? i =
      (t.get? i).map fun c => { c with
        parent := if child = i then some parent else c.parent
        children := if parent = i then c.children ++ [child] else c.children } := by
  unfold attach
  rw [hfree, get?_modify, get?_modify]
  by_cases hc : child = i <;> by_cases hp : parent = i <;> cases t.get? i <;> simp [hc, hp]

theorem parent?_attach {parent child : ComponentId} (hfree : t.parent? child = none)
    (hchild : child < t.size) (i : ComponentId) :
    (t.attach parent child).parent? i = if child = i then some parent else t.parent? i := by
  unfold parent?
  rw [get?_attach hfree]
  by_cases hc : child = i
  · subst hc
    obtain ⟨c, hc⟩ := exists_get?_of_lt hchild
    simp [hc]
  · cases t.get? i <;> simp [hc]

theorem children_attach {parent child : ComponentId} (hfree : t.parent? child = none)
    (hparent : parent < t.size) (i : ComponentId) : (t.attach parent child).children i =
      if parent = i then t.children i ++ [child] else t.children i := by
  unfold children
  rw [get?_attach hfree]
  by_cases hp : parent = i
  · subst hp
    obtain ⟨c, hc⟩ := exists_get?_of_lt hparent
    simp [hc]
  · cases t.get? i <;> simp [hp]

theorem size_attach {parent child : ComponentId} (hfree : t.parent? child = none) :
    (t.attach parent child).size = t.size := by
  unfold attach
  simp [hfree]

theorem Nested.attach_alloc (h : t.Nested) {parent : ComponentId} (hparent : parent < t.size)
    (item : ItemConfig) : ((t.alloc item).attach parent t.size).Nested := by
  have hnone : t.parent? t.size = none := by
    rw [parent?, get?_size]
    rfl
  have hfree : (t.alloc item).parent? t.size = none := by rwa [parent?_alloc]
  have hnew : ∀ c, t.size ∉ t.children c := by
    intro c hmem
    rw [h.mem_children, hnone] at hmem
    cases hmem
  have hparent? : ∀ i, ((t.alloc item).attach parent t.size).parent? i =
      if t.size = i then some parent else t.parent? i := by
    intro i
    rw [parent?_attach hfree (by simp), parent?_alloc]
  have hchildren : ∀ c, ((t.alloc item).attach parent t.size).children c =
      if parent = c then t.children c ++ [t.size] else t.children c := by
    intro c
    rw [children_attach hfree (by rw [size_alloc]; exact Nat.lt_succ_of_lt hparent), children_alloc]
  refine ⟨fun c i => ?_, fun c i => ?_, fun c => ?_⟩
  · rw [hchildren, hparent?]
    by_cases hi : t.size = i <;> by_cases hc : parent = c
    · simp [hi, hc]
    · subst hi
      simp [hc, hnew]
    · simp [hi, hc, Ne.symm hi, h.mem_children]
    · simp [hi, hc, h.mem_children]
  · rw [hparent?]
    split
    · next hi =>
      rintro ⟨⟩
      rwa [← hi]
    · exact h.older c i
  · rw [hchildren]
    split
    · refine List.nodup_append.2 ⟨h.nodup c, by simp, fun i hi j hj heq => ?_⟩
      rw [heq, List.mem_singleton.1 hj] at hi
      exact hnew c hi
    · exact h.nodup c

end

mutual

theorem nested_add {t : Tree} (h : t.Nested) {parent : ComponentId} (hparent : parent < t.size)
    (d : Description) : (t.add parent d).Nested ∧ t.size ≤ (t.add parent d).size := by
  cases d with
  | node item children =>
    have hsize : ((t.alloc item).attach parent t.size).size = t.size + 1 := by
      rw [size_attach, size_alloc]
      rw [parent?_alloc, parent?, get?_size]
      rfl
    obtain ⟨hall, hle⟩ := nested_addAll (h.attach_alloc hparent item)
      (by rw [hsize]; exact Nat.lt_succ_self t.size) children
    exact ⟨hall, by rw [add]; omega⟩

theorem nested_addAll {t : Tree} (h : t.Nested) {parent : ComponentId} (hparent : parent < t.size)
    (ds : List Description) : (t.addAll parent ds).Nested ∧ t.size ≤ (t.addAll parent ds).size := by
  cases ds with
  | nil => exact ⟨h, Nat.le_refl _⟩
  | cons d rest =>
    obtain ⟨hd, hle⟩ := nested_add h hparent d
    obtain ⟨hrest, hle'⟩ := nested_addAll hd (Nat.lt_of_lt_of_le hparent hle) rest
    exact ⟨hrest, Nat.le_trans hle hle'⟩

end

/-- What holds of a tree still holds once components are added or attached. -/
structure Extends (P : Tree → Prop) : Prop where
  alloc : ∀ {t : Tree} (item : ItemConfig), P t → P (t.alloc item)
  attach : ∀ {t : Tree} (parent child : ComponentId), P t → P (t.attach parent child)

mutual

theorem Extends.add {P : Tree → Prop} (hP : Extends P) {t : Tree} (h : P t)
    (parent : ComponentId) (d : Description) : P (t.add parent d) := by
  cases d with
  | node item children =>
    rw [Tree.add]
    exact hP.addAll (hP.attach parent t.size (hP.alloc item h)) t.size children

theorem Extends.addAll {P : Tree → Prop} (hP : Extends P) {t : Tree} (h : P t)
    (parent : ComponentId) (ds : List Description) : P (t.addAll parent ds) := by
  cases ds with
  | nil => exact h
  | cons d rest =>
    rw [Tree.addAll]
    exact hP.addAll (hP.add h parent d) parent rest

end

theorem Extends.ofDescription {P : Tree → Prop} (hP : Extends P) (hempty : P empty)
    (d : Description) : P (ofDescription d) :=
  hP.addAll (hP.alloc d.item hempty) 0 d.children

theorem nested_ofItem (item : ItemConfig) : (ofItem item).Nested := by
  have hchildren : ∀ c, (ofItem item).children c = [] := by
    intro c
    rw [ofItem, children_alloc]
    simp [children, empty, get?]
  have hparent : ∀ i, (ofItem item).parent? i = none := by
    intro i
    rw [ofItem, parent?_alloc]
    simp [parent?, empty, get?]
  exact ⟨by simp [hchildren, hparent], by simp [hparent], by simp [hchildren]⟩

theorem nested_ofDescription (d : Description) : (ofDescription d).Nested :=
  (nested_addAll (nested_ofItem d.item) (by simp [ofItem]) d.children).1

/-! ## Inside a container -/

/-- `i` is the container or in it, at any depth. -/
def Inside (t : Tree) (container i : ComponentId) : Prop :=
  Relation.ReflTransGen (fun i j => t.parent? i = some j) i container

variable {t : Tree} {c i x y : ComponentId}

theorem inside_self (t : Tree) (c : ComponentId) : t.Inside c c := .refl

theorem Inside.of_child (h : t.Inside x i) (hx : t.parent? x = some c) : t.Inside c i := h.tail hx

/-- Where no container is in its child, no component is inside two children of one container. -/
theorem apart_of (hself : ∀ {x}, t.parent? x = some c → ¬ t.Inside x c)
    (hx : t.parent? x = some c) (hy : t.parent? y = some c) (hi : t.Inside x i)
    (hi' : t.Inside y i) : x = y := by
  have hup : Relator.RightUnique fun i j => t.parent? i = some j := by
    intro i j k hj hk
    exact Option.some.inj (hj.symm.trans hk)
  -- one of them is inside the other, since both are above `i`; a step up from it is `c`
  have hstep : ∀ {x y}, t.parent? x = some c → t.parent? y = some c → t.Inside y x → x = y := by
    intro x y hx hy hxy
    rcases Relation.ReflTransGen.cases_head hxy with heq | ⟨z, hz, hzy⟩
    · exact heq
    · rw [hx, Option.some.injEq] at hz
      subst hz
      exact absurd hzy (hself hy)
  rcases Relation.ReflTransGen.total_of_right_unique hup hi hi' with hxy | hyx
  · exact hstep hx hy hxy
  · exact (hstep hy hx hyx).symm

namespace Nested

theorem exists_child (h : t.Nested) (hi : i ∈ t.children c) : ∃ d, t.get? i = some d := by
  have hparent := (h.mem_children c i).1 hi
  obtain ⟨d, hd, -⟩ := Option.bind_eq_some_iff.1 hparent
  exact ⟨d, hd⟩

theorem le_of_inside (h : t.Nested) (hi : t.Inside c i) : c ≤ i := by
  induction hi with
  | refl => exact Nat.le_refl i
  | tail _ hparent ih =>
    exact Nat.le_trans (Nat.le_of_lt (h.older _ _ hparent)) ih

/-- A container is not in its child. -/
theorem not_inside_child (h : t.Nested) (hx : t.parent? x = some c) : ¬ t.Inside x c := by
  intro hc
  exact Nat.not_lt_of_le (h.le_of_inside hc) (h.older c x hx)

theorem apart (h : t.Nested) (hx : t.parent? x = some c) (hy : t.parent? y = some c)
    (hi : t.Inside x i) (hi' : t.Inside y i) : x = y :=
  apart_of h.not_inside_child hx hy hi hi'

end Nested

end Trellis.Tree
