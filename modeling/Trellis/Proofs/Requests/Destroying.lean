import Trellis.Engine
import Trellis.Proofs.Histories.Links
import Trellis.Proofs.Requests.Ancestors

/-!
# What is forgotten with a container

When a container is destroyed, what is kept for it and for everything in it is forgotten. What is in
it is found by going up from every component for which something is kept, not by going down its list
of children. In a tree without a cycle every way up ends, and since parents and children agree, both
ways find the same components, however often components have been moved.

* `Acyclic`: no component is in itself; `above_eq_none`: then every way up ends.
* `TreeEdit.AllApart`: no edit puts a component into one that lies in it; `Forest.edited`: such
  edits make no cycle.
* `Linked.inside_iff_reaches`: going up and going down find the same components.
* `destroy_forgets_inside`: what is forgotten, in a tree that has been edited in any such way.
-/
namespace Trellis

namespace Tree

variable {t u : Tree} {c i p x : ComponentId}

/-- No component is in itself. -/
def Acyclic (t : Tree) : Prop := ∀ c i, t.parent? i = some c → ¬ t.Inside i c

theorem Forest.acyclic (h : t.Forest) : t.Acyclic := fun _ _ hparent => h.not_inside_child hparent

/-- Going up as many steps as there are components, and one more, leads out of the tree: a component
that is met twice would be in itself. -/
theorem above_eq_none (h : t.Acyclic) (i : ComponentId) : t.above (t.size + 1) i = none := by
  classical
  cases hlast : t.above (t.size + 1) i with
  | none => rfl
  | some c =>
    obtain ⟨j, hj, l, hl, hne, heq⟩ := Finset.exists_ne_map_eq_of_card_lt_of_maps_to
      (s := .range (t.size + 1)) (t := .range t.size) (by simp)
      (f := fun j => (t.above j i).getD 0) (fun j hj => by
        obtain ⟨x, hx, hlt⟩ := exists_above hlast (by simpa using hj)
        simpa [hx] using hlt)
    obtain ⟨x, hx, -⟩ := exists_above hlast (j := j) (by simpa using hj)
    obtain ⟨y, hy, -⟩ := exists_above hlast (j := l) (by simpa using hl)
    simp only [hx, hy, Option.getD_some] at heq
    subst heq
    have hmet : ∀ {j l}, j < l → t.above j i = some x → t.above l i ≠ some x := by
      intro j l hlt hj hl
      obtain ⟨m, rfl⟩ := Nat.exists_eq_add_of_lt hlt
      rw [Nat.add_assoc, above_add, hj, Option.bind_some, above] at hl
      obtain ⟨c, hparent, hback⟩ := Option.bind_eq_some_iff.1 hl
      exact h c x hparent (inside_iff_above.2 ⟨m, hback⟩)
    rcases Nat.lt_or_gt_of_ne hne with hlt | hgt
    · exact absurd hy (hmet hlt hx)
    · exact absurd hx (hmet hgt hy)

/-! ## Edits without a cycle -/

theorem Linked.of_apply {e : TreeEdit} (h : t.Linked) (he : e.apply t = .ok u) : u.Linked := by
  cases e with
  | alloc item =>
    cases he
    exact h.alloc item
  | append parent child =>
    obtain ⟨hp, hx, rfl⟩ := appendChild_eq_ok he
    exact h.attach hp hx
  | remove parent child =>
    rw [removeChild_eq_ok he]
    exact h.detach parent child

theorem Linked.of_edited {edits : List TreeEdit} (h : t.Linked) (hedits : t.edited edits = .ok u) :
    u.Linked := by
  induction edits generalizing t with
  | nil =>
    cases hedits
    exact h
  | cons e rest ih =>
    rw [Tree.edited, List.foldlM_cons] at hedits
    obtain ⟨mid, hmid, hrest⟩ := Length.bind_eq_ok.1 hedits
    exact ih (h.of_apply hmid) hrest

theorem Forest.alloc (h : t.Forest) (item : ItemConfig) : (t.alloc item).Forest := by
  obtain ⟨depth, hdepth⟩ := h.grounded
  exact ⟨h.toLinked.alloc item, depth, by rwa [parent?_alloc]⟩

end Tree

namespace TreeEdit

/-- The edit puts no component into one that lies in it. -/
def Apart (t : Tree) : TreeEdit → Prop
  | .append parent child => ¬ t.Inside child parent
  | _ => True

/-- No edit puts a component into one that lies in it when its turn comes. -/
def AllApart (t : Tree) : List TreeEdit → Prop
  | [] => True
  | e :: rest => e.Apart t ∧ ∀ u ∈ (e.apply t).toOption, AllApart u rest

instance (t : Tree) (e : TreeEdit) : Decidable (e.Apart t) :=
  match e with
  | .append parent child => inferInstanceAs (Decidable (¬ t.Inside child parent))
  | .alloc _ | .remove _ _ => .isTrue trivial

instance decidableAllApart (t : Tree) : (edits : List TreeEdit) → Decidable (AllApart t edits)
  | [] => .isTrue trivial
  | e :: rest =>
    have (u : Tree) := decidableAllApart u rest
    inferInstanceAs (Decidable (e.Apart t ∧ ∀ u ∈ (e.apply t).toOption, AllApart u rest))

end TreeEdit

namespace Tree

variable {t u : Tree} {c i p x : ComponentId}

theorem Forest.of_apply {e : TreeEdit} (h : t.Forest) (hapart : e.Apart t)
    (he : e.apply t = .ok u) : u.Forest := by
  cases e with
  | alloc item =>
    cases he
    exact h.alloc item
  | append parent child =>
    obtain ⟨hp, hx, rfl⟩ := appendChild_eq_ok he
    exact h.attach hp hx hapart
  | remove parent child =>
    rw [removeChild_eq_ok he]
    exact h.detach parent child

/-- Edits that put nothing into what lies in it make no cycle. -/
theorem Forest.edited {edits : List TreeEdit} (h : t.Forest) (hapart : TreeEdit.AllApart t edits)
    (hedits : t.edited edits = .ok u) : u.Forest := by
  induction edits generalizing t with
  | nil =>
    cases hedits
    exact h
  | cons e rest ih =>
    rw [Tree.edited, List.foldlM_cons] at hedits
    obtain ⟨mid, hmid, hrest⟩ := Length.bind_eq_ok.1 hedits
    exact ih (h.of_apply hapart.1 hmid) (hapart.2 mid (by simp [hmid, Except.toOption])) hrest

/-! ## Down the lists of children -/

/-- `i` is found by going down from `c`, from children to their children. -/
def Reaches (t : Tree) (c i : ComponentId) : Prop :=
  Relation.ReflTransGen (fun p x => x ∈ t.children p) c i

theorem Linked.inside_iff_reaches (h : t.Linked) : t.Inside c i ↔ t.Reaches c i := by
  have hstep : (fun p x => x ∈ t.children p) = Function.swap fun x p => t.parent? x = some p := by
    funext p x
    exact propext (h.mem_children p x)
  rw [Reaches, hstep, Relation.reflTransGen_swap]
  rfl

end Tree

/-- A container is destroyed in a tree that is made from a description and edited, and has no cycle.
Whatever is kept, and whatever waits: the container and every component from which it is found by
going up, which are those found by going down from it, lose what is kept for them and the requests
that wait for them. All other components keep theirs, nothing else changes, and every way up
ends. -/
theorem destroy_forgets_inside {d : Description} {edits : List TreeEdit} {t : Tree}
    (hedits : (Tree.ofDescription d).edited edits = .ok t) (hacyclic : t.Acyclic) {s : Scene}
    (htree : s.tree = t) (c : ComponentId) :
    ∃ s', s.run (Step.destroy c) = .ok (.ok (), s') ∧
      s' = { s with kept := s'.kept, timers := s'.timers } ∧
      ∀ i, t.above (t.size + 1) i = none ∧ (t.Inside c i ↔ t.Reaches c i) ∧
        s'.kept.get? i = (if t.Inside c i then none else s.kept.get? i) ∧
        s'.timers.get? i = (if t.Inside c i then none else s.timers.get? i) := by
  subst htree
  have hlinked := (Tree.nested_ofDescription d).linked.of_edited hedits
  refine ⟨_, rfl, rfl, fun i => ⟨Tree.above_eq_none hacyclic i, hlinked.inside_iff_reaches, ?_, ?_⟩⟩
  · exact Tree.get?_filter_outside s.kept s.tree c i
  · exact Tree.get?_filter_outside s.timers s.tree c i

section

/-- A page with a bar, which has two buttons, and a pane. -/
private def lentPage : Description :=
  .node {} [.node {} [.node {} [], .node {} []], .node {} []]

/-- The pane is put into the first button and gets a label; the second button is taken out of the
bar. -/
private def paneMoves : List TreeEdit :=
  [.append 2 4, .alloc {}, .append 4 5, .remove 1 3]

/-- Something that is kept for each of the six components. -/
private def forEach {α : Type} (v : α) : IdMap α :=
  (List.range 6).foldl (fun m i => m.insert i v) .empty

/-- With the bar, what is kept for the first button, the pane and its label is forgotten. -/
theorem movedPane_forgotten :
    TreeEdit.AllApart (.ofDescription lentPage) paneMoves ∧
      ∃ t s', (Tree.ofDescription lentPage).edited paneMoves = .ok t ∧ t.Acyclic ∧
        { Scene.ofTree t .standard with
          kept := forEach .auto, timers := forEach (.idle 16) }.run (Step.destroy 1) =
            .ok (.ok (), s') ∧
        (List.range 6).filter (fun i => (s'.kept.get? i).isSome) = [0, 3] ∧
        (List.range 6).filter (fun i => (s'.timers.get? i).isSome) = [0, 3] := by
  have hapart : TreeEdit.AllApart (.ofDescription lentPage) paneMoves := by decide +kernel
  have hview : ((Tree.ofDescription lentPage).edited paneMoves).toOption.map
      (fun t => (List.range 6).filter fun i => ¬ t.Inside 1 i) = some [0, 3] := by
    decide +kernel
  obtain ⟨t, ht, houtside⟩ := Option.map_eq_some_iff.1 hview
  have hedits : (Tree.ofDescription lentPage).edited paneMoves = .ok t := by
    revert ht
    cases (Tree.ofDescription lentPage).edited paneMoves <;> simp [Except.toOption]
  have hacyclic := ((Tree.nested_ofDescription lentPage).forest.edited hapart hedits).acyclic
  obtain ⟨s', hrun, -, hleft⟩ := destroy_forgets_inside hedits hacyclic
    (s := { Scene.ofTree t .standard with kept := forEach .auto, timers := forEach (.idle 16) })
    rfl 1
  have hkept : ∀ i ∈ List.range 6, ((forEach Arrangement.auto).get? i).isSome := by decide
  have htimers : ∀ i ∈ List.range 6, ((forEach (Debounce.idle 16)).get? i).isSome := by decide
  refine ⟨hapart, t, s', hedits, hacyclic, hrun, ?_, ?_⟩
  · rw [← houtside]
    refine List.filter_congr fun i hi => ?_
    rw [(hleft i).2.2.1]
    by_cases hin : t.Inside 1 i <;> simp [hin, hkept i hi]
  · rw [← houtside]
    refine List.filter_congr fun i hi => ?_
    rw [(hleft i).2.2.2]
    by_cases hin : t.Inside 1 i <;> simp [hin, htimers i hi]

end

end Trellis
