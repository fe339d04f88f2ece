import Mathlib.Data.List.Nodup
import Trellis.Proofs.Passes.Frame
import Trellis.Proofs.Requests.Ancestors

/-!
# What a host is told of passes

A pass over a container that the host does not veto is told of before and after, and in between the
passes over the visible containers in it, in source order. So much depends on the tree only.

* `Tree.traceWithin`: that trace, with a bound on nesting; `Tree.trace`: with a bound that no trace
  of a forest comes to (`Tree.Forest.trace_eq`).
* `Tree.traceWithin_congr`: it depends on what is visible inside the container.
* `Tree.Forest.of_mem_traceWithin`, `Tree.Forest.nodup_traceWithin`: who is told of, and that it is
  once.
-/
namespace Trellis

/-- Whether the event is about the layout of a container. -/
def Event.isLayout : Event → Bool
  | .beforeLayout | .afterLayout => true
  | _ => false

namespace Tree

/-- The visible children that are containers, in source order. -/
def innerContainers (t : Tree) (x : ComponentId) : List ComponentId :=
  (t.visibleChildren x).filter fun y => (t.layout? y).isSome

/-- What the host is told of a pass over a container whose components nest less than `n` deep. -/
def traceWithin (t : Tree) (vetoed : ComponentId → Bool) :
    (n : Nat) → ComponentId → List (ComponentId × Event)
  | 0, _ => []
  | n + 1, x =>
    if vetoed x then [(x, .beforeLayout)]
    else (x, .beforeLayout) :: (t.innerContainers x).flatMap (t.traceWithin vetoed n) ++
      [(x, .afterLayout)]

/-- What the host is told of a pass over a container. -/
def trace (t : Tree) (vetoed : ComponentId → Bool) (x : ComponentId) :
    List (ComponentId × Event) :=
  t.traceWithin vetoed (t.size + 1) x

variable {t u : Tree} {vetoed : ComponentId → Bool} {c i x y z : ComponentId} {n m : Nat}

/-! ## Visible containers -/

theorem parent?_of_innerContainers (h : t.Linked) (hy : y ∈ t.innerContainers x) :
    t.parent? y = some x :=
  (h.mem_children x y).1 (List.mem_filter.1 (List.mem_filter.1 hy).1).1

theorem lt_size_of_innerContainers (hy : y ∈ t.innerContainers x) : y < t.size :=
  lt_size_of_layout? (List.mem_filter.1 hy).2

theorem isVisible_of_innerContainers (hy : y ∈ t.innerContainers x) : t.isVisible y = true :=
  (List.mem_filter.1 (List.mem_filter.1 hy).1).2

theorem nodup_innerContainers (h : t.Linked) (x : ComponentId) : (t.innerContainers x).Nodup :=
  ((h.nodup x).filter _).filter _

/-- Only children that were hidden or shown make a difference. -/
theorem SameShape.visibleChildren_eq (h : t.SameShape u)
    (hvisible : ∀ y ∈ t.children x, u.isVisible y = t.isVisible y) :
    u.visibleChildren x = t.visibleChildren x := by
  unfold visibleChildren
  rw [← h.children_eq]
  exact List.filter_congr hvisible

theorem SameShape.innerContainers_eq (h : t.SameShape u)
    (hvisible : ∀ y ∈ t.children x, u.isVisible y = t.isVisible y) :
    u.innerContainers x = t.innerContainers x := by
  unfold innerContainers
  rw [h.visibleChildren_eq hvisible, h.layout?_eq]

/-! ## The bound on nesting -/

/-- How many components are in a container, itself included. -/
def population (t : Tree) (x : ComponentId) : Nat :=
  ((Finset.range t.size).filter fun i => t.Inside x i).card

theorem population_le_size (t : Tree) (x : ComponentId) : t.population x ≤ t.size := by
  have hle := Finset.card_filter_le (Finset.range t.size) fun i => t.Inside x i
  rwa [Finset.card_range] at hle

theorem population_pos (hx : x < t.size) : 0 < t.population x := by
  refine Finset.card_pos.2 ⟨x, ?_⟩
  rw [Finset.mem_filter, Finset.mem_range]
  exact ⟨hx, t.inside_self x⟩

/-- Fewer components are in a child than in its container. -/
theorem Forest.population_lt (h : t.Forest) (hy : t.parent? y = some x) :
    t.population y < t.population x := by
  obtain ⟨d, hd, -⟩ : ∃ d, t.get? x = some d ∧ y ∈ d.children := by
    have hmem := (h.mem_children x y).2 hy
    unfold children at hmem
    cases hd : t.get? x with
    | none =>
      rw [hd] at hmem
      cases hmem
    | some d =>
      rw [hd] at hmem
      exact ⟨d, rfl, hmem⟩
  have hx : x < t.size := (Array.getElem?_eq_some_iff.1 hd).1
  refine Finset.card_lt_card (Finset.ssubset_iff_of_subset (fun i hi => ?_) |>.2 ⟨x, ?_, ?_⟩)
  · rw [Finset.mem_filter] at hi ⊢
    exact ⟨hi.1, hi.2.of_child hy⟩
  · rw [Finset.mem_filter, Finset.mem_range]
    exact ⟨hx, t.inside_self x⟩
  · rw [Finset.mem_filter]
    exact fun hin => h.not_inside_child hy hin.2

/-- A bound that counts the components in a container is enough. -/
theorem Forest.traceWithin_of_le (h : t.Forest) (hx : x < t.size) (hn : t.population x ≤ n)
    (hm : n ≤ m) : t.traceWithin vetoed m x = t.traceWithin vetoed n x := by
  induction n generalizing x m with
  | zero => exact absurd (Nat.lt_of_lt_of_le (population_pos hx) hn) (Nat.lt_irrefl 0)
  | succ n ih =>
    obtain ⟨m, rfl⟩ := Nat.exists_eq_add_of_le' (Nat.le_trans n.succ_pos hm)
    have hinner : (t.innerContainers x).flatMap (t.traceWithin vetoed m) =
        (t.innerContainers x).flatMap (t.traceWithin vetoed n) := by
      refine List.flatMap_congr fun y hy => ?_
      have hlt := h.population_lt (parent?_of_innerContainers h.toLinked hy)
      exact ih (lt_size_of_innerContainers hy) (by omega) (Nat.le_of_succ_le_succ hm)
    rw [traceWithin, traceWithin, hinner]

/-- The trace of a container is made of those of the visible containers in it. -/
theorem Forest.trace_eq (h : t.Forest) (vetoed : ComponentId → Bool) (x : ComponentId) :
    t.trace vetoed x = if vetoed x then [(x, .beforeLayout)]
      else (x, .beforeLayout) :: (t.innerContainers x).flatMap (t.trace vetoed) ++
        [(x, .afterLayout)] := by
  have hinner : (t.innerContainers x).flatMap (t.traceWithin vetoed t.size) =
      (t.innerContainers x).flatMap (t.trace vetoed) := by
    refine List.flatMap_congr fun y hy => ?_
    exact (h.traceWithin_of_le (lt_size_of_innerContainers hy) (t.population_le_size y)
      (Nat.le_succ t.size)).symm
  rw [trace, traceWithin, hinner]

/-! ## What a trace depends on and what is in it -/

/-- Only what is visible inside the container makes a difference. -/
theorem traceWithin_congr (h : t.SameShape u) (hlinked : t.Linked)
    (hvisible : ∀ z i, t.Inside x z → t.parent? i = some z → u.isVisible i = t.isVisible i) :
    u.traceWithin vetoed n x = t.traceWithin vetoed n x := by
  induction n generalizing x with
  | zero => rfl
  | succ n ih =>
    have hinner : u.innerContainers x = t.innerContainers x :=
      h.innerContainers_eq fun y hy =>
        hvisible x y (t.inside_self x) ((hlinked.mem_children x y).1 hy)
    have hbelow : (t.innerContainers x).flatMap (u.traceWithin vetoed n) =
        (t.innerContainers x).flatMap (t.traceWithin vetoed n) := by
      refine List.flatMap_congr fun y hy => ih fun z i hz hi => hvisible z i ?_ hi
      exact hz.of_child (parent?_of_innerContainers hlinked hy)
    rw [traceWithin, traceWithin, hinner, hbelow]

/-- Two components are not in one another. -/
theorem Forest.inside_antisymm (h : t.Forest) (hxy : t.Inside x y) (hyx : t.Inside y x) :
    y = x := by
  rcases Relation.ReflTransGen.cases_head hxy with heq | ⟨p, hp, hpx⟩
  · exact heq
  · exact absurd (hpx.trans hyx) (h.not_inside_child hp)

/-- What is on the way from a container to something in one of its children is the container, or in
that child. -/
theorem Forest.between (h : t.Forest) (hy : t.parent? y = some x) (hi : t.Inside y i)
    (hxz : t.Inside x z) (hz : t.Inside z i) : z = x ∨ t.Inside y z := by
  have hup : Relator.RightUnique fun i j => t.parent? i = some j := by
    intro i j k hj hk
    exact Option.some.inj (hj.symm.trans hk)
  rcases Relation.ReflTransGen.total_of_right_unique hup hi hz with hyz | hzy
  · rcases Relation.ReflTransGen.cases_head hyz with rfl | ⟨p, hp, hpz⟩
    · exact .inr (t.inside_self y)
    · rw [hy, Option.some.injEq] at hp
      subst hp
      exact .inl (h.inside_antisymm hxz hpz)
  · exact .inr hzy

/-- The host is told of what is in the container, and of what it vetoes only that it is about to be
laid out. All containers on the way there are visible, and none of them is vetoed. -/
theorem Forest.of_mem_traceWithin (h : t.Forest) {e : Event}
    (he : (y, e) ∈ t.traceWithin vetoed n x) :
    t.Inside x y ∧ (vetoed y = true → e = .beforeLayout) ∧
      ∀ z, t.Inside x z → t.Inside z y → (z ≠ y → vetoed z = false) ∧
        (z ≠ x → t.isVisible z = true) := by
  induction n generalizing x with
  | zero => cases he
  | succ n ih =>
    have hown : y = x → ∀ z, t.Inside x z → t.Inside z y → (z ≠ y → vetoed z = false) ∧
        (z ≠ x → t.isVisible z = true) := by
      rintro rfl z hxz hzy
      have heq := h.inside_antisymm hxz hzy
      exact ⟨fun hne => absurd heq hne, fun hne => absurd heq hne⟩
    rw [traceWithin] at he
    split at he
    · rw [List.mem_singleton, Prod.mk.injEq] at he
      obtain ⟨rfl, rfl⟩ := he
      exact ⟨t.inside_self y, fun _ => rfl, hown rfl⟩
    · next hheard =>
      simp only [List.mem_append, List.mem_cons, List.mem_flatMap, Prod.mk.injEq, List.not_mem_nil,
        or_false] at he
      rcases he with (⟨rfl, rfl⟩ | ⟨child, hchild, he⟩) | ⟨rfl, rfl⟩
      · exact ⟨t.inside_self y, fun _ => rfl, hown rfl⟩
      · have hparent := parent?_of_innerContainers h.toLinked hchild
        obtain ⟨hin, hveto, hway⟩ := ih he
        refine ⟨hin.of_child hparent, hveto, fun z hxz hzy => ?_⟩
        rcases h.between hparent hin hxz hzy with rfl | hz
        · exact ⟨fun _ => by simpa using hheard, fun hne => absurd rfl hne⟩
        · refine ⟨(hway z hz hzy).1, fun _ => ?_⟩
          by_cases heq : z = child
          · rw [heq]
            exact isVisible_of_innerContainers hchild
          · exact (hway z hz hzy).2 heq
      · exact ⟨t.inside_self y, fun hvetoed => absurd hvetoed hheard, hown rfl⟩

/-- The host is told of nothing twice. -/
theorem Forest.nodup_traceWithin (h : t.Forest) : (t.traceWithin vetoed n x).Nodup := by
  induction n generalizing x with
  | zero => exact .nil
  | succ n ih =>
    have hbelow : ∀ {e}, (x, e) ∉ (t.innerContainers x).flatMap (t.traceWithin vetoed n) := by
      intro e he
      obtain ⟨y, hy, he⟩ := List.mem_flatMap.1 he
      have hparent := parent?_of_innerContainers h.toLinked hy
      exact h.not_inside_child hparent (h.of_mem_traceWithin he).1
    have hchildren : ((t.innerContainers x).flatMap (t.traceWithin vetoed n)).Nodup := by
      refine List.nodup_flatMap.2 ⟨fun _ _ => ih, ?_⟩
      refine (nodup_innerContainers h.toLinked x).pairwise_of_forall_ne fun y hy z hz hne => ?_
      rintro ⟨i, e⟩ hyi hzi
      exact hne (h.apart (parent?_of_innerContainers h.toLinked hy)
        (parent?_of_innerContainers h.toLinked hz) (h.of_mem_traceWithin hyi).1
        (h.of_mem_traceWithin hzi).1)
    rw [traceWithin]
    split
    · exact List.nodup_singleton _
    · refine List.nodup_append.2 ⟨List.nodup_cons.2 ⟨hbelow, hchildren⟩, by simp, ?_⟩
      rintro ⟨i, e⟩ hi _ hlast rfl
      rw [List.mem_singleton] at hlast
      cases hlast
      rw [List.mem_cons] at hi
      rcases hi with hi | hi
      · cases hi
      · exact hbelow hi

end Tree

end Trellis
