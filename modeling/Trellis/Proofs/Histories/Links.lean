import Mathlib.Data.List.Nodup
import Trellis.Proofs.Histories.Forests

/-!
# Parents and children agree

Who is in whom is noted twice: every component knows its parent, and every parent lists its
children. A tree is edited by adding components, putting them into others and taking them out again.
However often a component is moved, and whatever it is put into, the two notes say the same.

* `TreeEdit`: one edit; `Tree.edited`: one edit after another.
* `Linked.edit`: no edit of components that are there fails, and none makes the notes disagree.
* `edits_keep_links`: what that comes to for every list of edits.
-/
namespace Trellis

/-- What a tree is edited by. -/
inductive TreeEdit where
  /-- A component is added that is in no other. -/
  | alloc (item : ItemConfig)
  | append (parent child : ComponentId)
  | remove (parent child : ComponentId)

namespace TreeEdit

def apply (t : Tree) : TreeEdit → Checked Tree
  | .alloc item => .ok (t.alloc item)
  | .append parent child => t.appendChild parent child
  | .remove parent child => t.removeChild parent child

/-- The components that the edit is about. -/
def subjects : TreeEdit → List ComponentId
  | .alloc _ => []
  | .append parent child | .remove parent child => [parent, child]

/-- How many components the edit adds. -/
def added : TreeEdit → Nat
  | .alloc _ => 1
  | _ => 0

/-- Every edit is about components that are there when its turn comes, in a tree that has `n`
components at first. -/
def AllThere : (n : Nat) → List TreeEdit → Prop
  | _, [] => True
  | n, e :: rest => (∀ id ∈ e.subjects, id < n) ∧ AllThere (n + e.added) rest

instance decidableAllThere : (n : Nat) → (edits : List TreeEdit) → Decidable (AllThere n edits)
  | _, [] => .isTrue trivial
  | n, e :: rest =>
    have := decidableAllThere (n + e.added) rest
    inferInstanceAs (Decidable ((∀ id ∈ e.subjects, id < n) ∧ AllThere (n + e.added) rest))

end TreeEdit

namespace Tree

/-- The tree after one edit after another. -/
def edited (t : Tree) (edits : List TreeEdit) : Checked Tree := edits.foldlM TreeEdit.apply t

variable {t : Tree} {e : TreeEdit} {p x : ComponentId}

theorem get_of_lt {i : ComponentId} (h : i < t.size) : ∃ c, t.get i = .ok c := by
  obtain ⟨c, hc⟩ := exists_get?_of_lt h
  exact ⟨c, get_eq_ok.2 hc⟩

theorem appendChild_of_lt (hp : p < t.size) (hx : x < t.size) :
    t.appendChild p x = .ok (t.attach p x) := by
  obtain ⟨c, hc⟩ := get_of_lt hp
  obtain ⟨d, hd⟩ := get_of_lt hx
  rw [appendChild, hc, hd]
  rfl

theorem removeChild_of_lt (hp : p < t.size) : t.removeChild p x = .ok (t.detach p x) := by
  obtain ⟨c, hc⟩ := get_of_lt hp
  rw [removeChild, hc]
  rfl

namespace Linked

theorem size_attach (h : t.Linked) (p x : ComponentId) : (t.attach p x).size = t.size := by
  have hfree : (t.freed x).parent? x = none := by
    rw [h.parent?_freed, if_pos rfl]
  rw [h.attach_eq, Tree.size_attach hfree, size_freed]

/-- An edit of components that are there. -/
theorem edit (h : t.Linked) (he : ∀ id ∈ e.subjects, id < t.size) :
    ∃ u, e.apply t = .ok u ∧ u.Linked ∧ u.size = t.size + e.added := by
  cases e with
  | alloc item => exact ⟨_, rfl, h.alloc item, t.size_alloc item⟩
  | append parent child =>
    have hp : parent < t.size := he parent (by simp [TreeEdit.subjects])
    have hx : child < t.size := he child (by simp [TreeEdit.subjects])
    exact ⟨_, appendChild_of_lt hp hx, h.attach hp hx, h.size_attach parent child⟩
  | remove parent child =>
    have hp : parent < t.size := he parent (by simp [TreeEdit.subjects])
    exact ⟨_, removeChild_of_lt hp, h.detach parent child, t.size_detach parent child⟩

theorem edited (h : t.Linked) {edits : List TreeEdit} (hedits : TreeEdit.AllThere t.size edits) :
    ∃ u, t.edited edits = .ok u ∧ u.Linked := by
  induction edits generalizing t with
  | nil => exact ⟨t, rfl, h⟩
  | cons e rest ih =>
    obtain ⟨he, hrest⟩ := hedits
    obtain ⟨mid, hmid, hlinked, hsize⟩ := h.edit he
    rw [← hsize] at hrest
    obtain ⟨u, hu, hlast⟩ := ih hlinked hrest
    refine ⟨u, ?_, hlast⟩
    rw [Tree.edited, List.foldlM_cons, hmid]
    exact hu

theorem count_children (h : t.Linked) (p x : ComponentId) :
    (t.children p).count x = if t.parent? x = some p then 1 else 0 := by
  rw [(h.nodup p).count]
  simp only [h.mem_children]

end Linked

/-- A tree that is made from a description is edited in any way, each edit being about components
that are there. Then no edit fails, and a component is among the children of its parent once, and
among those of no other component. -/
theorem edits_keep_links {d : Description} {edits : List TreeEdit}
    (hedits : TreeEdit.AllThere (ofDescription d).size edits) :
    ∃ t, (ofDescription d).edited edits = .ok t ∧
      ∀ p x, (t.children p).count x = if t.parent? x = some p then 1 else 0 := by
  obtain ⟨t, ht, hlinked⟩ := (nested_ofDescription d).linked.edited hedits
  exact ⟨t, ht, hlinked.count_children⟩

section

/-- A page with a bar that has two buttons. -/
private def barredPage : Description := .node {} [.node {} [.node {} [], .node {} []]]

/-- The bar gets a third button. The first one is put into the page, twice, and then into the third
one; the second one is put into itself and taken out of the bar, which it is not in any more. -/
private def buttonMoves : List TreeEdit :=
  [.alloc {}, .append 1 4, .append 0 2, .append 0 2, .append 4 2, .append 3 3, .remove 1 3]

theorem moved_buttons_keep_links :
    TreeEdit.AllThere (ofDescription barredPage).size buttonMoves ∧
      ∃ t, (ofDescription barredPage).edited buttonMoves = .ok t ∧
        [t.children 0, t.children 1, t.children 3, t.children 4] = [[1], [4], [3], [2]] ∧
        ∀ p x, (t.children p).count x = if t.parent? x = some p then 1 else 0 := by
  have hthere : TreeEdit.AllThere (ofDescription barredPage).size buttonMoves := by decide +kernel
  obtain ⟨t, ht, hlinks⟩ := edits_keep_links hthere
  have hview : ((ofDescription barredPage).edited buttonMoves).toOption.map
      (fun t => [t.children 0, t.children 1, t.children 3, t.children 4]) =
        some [[1], [4], [3], [2]] := by
    decide +kernel
  rw [ht] at hview
  exact ⟨hthere, t, ht, Option.some.inj hview, hlinks⟩

end

end Tree

end Trellis
