import Trellis.Proofs.Relayout.Passes

/-!
# Which components are dirty

A component becomes dirty when it is given a rectangle that is new to it: its first one, or another
one than it has. It stays dirty until changes are taken, even if it gets the old rectangle back.

* `Mark`: what is known of a component's rectangle; `Mark.alters`: one of several rectangles that
  are written in turn is new.
* `mark?_modifyState`, `mark?_setHidden`, ...: what leaves that as it is.
* `Tree.Alters`: a placement is new to a component; `Tree.Accounts`: that is how it becomes dirty,
  and else its rectangle stays.
* `accounts_applyPlacements`: any placements account for what is dirty after them.
-/
namespace Trellis

/-! ## Rectangles written in turn -/

/-- What is known of a component's rectangle. -/
structure Mark where
  sized : Bool
  rect : Rect
  dirty : Bool
  deriving DecidableEq, Repr

def ComponentState.mark (s : ComponentState) : Mark := ⟨s.sized, s.rect, s.dirty⟩

namespace Mark

/-- The rectangle is the first one, or another one than the component has. -/
def isNew (m : Mark) (r : Rect) : Bool := !m.sized || m.rect != r

def write (m : Mark) (r : Rect) : Mark := ⟨true, r, m.dirty || m.isNew r⟩

/-- One of the rectangles that are written in turn is new when it is written. -/
def alters : Mark → List Rect → Bool
  | _, [] => false
  | m, r :: rest => m.isNew r || (m.write r).alters rest

theorem dirty_foldl_write (m : Mark) (rects : List Rect) :
    (rects.foldl write m).dirty = (m.dirty || m.alters rects) := by
  induction rects generalizing m with
  | nil => simp [alters]
  | cons r rest ih =>
    rw [List.foldl_cons, ih, alters, write]
    exact Bool.or_assoc ..

/-- Rectangles of which none is new leave the one that the component has. -/
theorem rect_foldl_write {m : Mark} {rects : List Rect} (h : m.alters rects = false) :
    (rects.foldl write m).rect = m.rect := by
  induction rects generalizing m with
  | nil => rfl
  | cons r rest ih =>
    rw [alters, Bool.or_eq_false_iff, isNew, Bool.or_eq_false_iff, bne_eq_false_iff_eq] at h
    rw [List.foldl_cons, ih h.2]
    exact h.1.2.symm

end Mark

namespace Tree

variable {t u v : Tree} {i : ComponentId} {placements : List Placement}

def mark? (t : Tree) (i : ComponentId) : Option Mark := (t.get? i).map (·.state.mark)

/-- The rectangle of a component. -/
def rect? (t : Tree) (i : ComponentId) : Option Rect := (t.get? i).map fun c => c.state.rect

theorem rect?_eq (t : Tree) (i : ComponentId) : t.rect? i = (t.mark? i).map Mark.rect := by
  rw [rect?, mark?, Option.map_map]
  rfl

theorem rect?_congr (h : u.mark? = t.mark?) : u.rect? = t.rect? := by
  funext i
  rw [rect?_eq, rect?_eq, h]

theorem mem_dirtyIds : i ∈ t.dirtyIds ↔ (t.mark? i).any Mark.dirty = true := by
  rw [dirtyIds, List.mem_filter, List.mem_range, mark?]
  cases hi : t.get? i with
  | none => simp
  | some c =>
    obtain ⟨hlt, -⟩ := Array.getElem?_eq_some_iff.1 hi
    rw [Option.any_some, Option.map_some, Option.any_some]
    exact and_iff_right hlt

/-- Dirty components are listed in ascending order, each of them once. -/
theorem pairwise_dirtyIds (t : Tree) : t.dirtyIds.Pairwise (· < ·) :=
  List.pairwise_lt_range.filter _

theorem mark?_modifyState {f : ComponentState → ComponentState} (hf : ∀ s, (f s).mark = s.mark)
    (t : Tree) (id : ComponentId) : (t.modifyState id f).mark? = t.mark? := by
  funext i
  rw [mark?, get?_modifyState]
  split
  · rw [Option.map_map]
    exact congrArg (Option.map · _) (funext fun c => hf c.state)
  · rfl

theorem mark?_foldl {α : Type} {g : Tree → α → Tree} (h : ∀ t x, (g t x).mark? = t.mark?)
    (xs : List α) (t : Tree) : (xs.foldl g t).mark? = t.mark? := by
  induction xs generalizing t with
  | nil => rfl
  | cons x xs ih => exact (ih (g t x)).trans (h t x)

theorem mark?_setHidden (t : Tree) (id : ComponentId) (hidden : Bool) :
    (t.setHidden id hidden).mark? = t.mark? :=
  mark?_modifyState (f := fun s => { s with hidden }) (fun _ => rfl) t id

theorem mark?_setHiddens (t : Tree) (ids : List ComponentId) (hidden : ComponentId → Bool) :
    (ids.foldl (fun t id => t.setHidden id (hidden id)) t).mark? = t.mark? :=
  mark?_foldl (fun t id => mark?_setHidden t id (hidden id)) ids t

theorem mark?_renderChildren (t : Tree) (container : ComponentId) :
    (t.renderChildren container).mark? = t.mark? :=
  mark?_foldl (g := fun t id => t.modifyState id fun s => { s with rendered := true })
    (fun t id => mark?_modifyState (f := fun s => { s with rendered := true }) (fun _ => rfl) t id)
    (t.children container) t

theorem mark?_applyRect (t : Tree) (id i : ComponentId) (r : Rect) :
    (t.applyRect id r).mark? i =
      if id = i then (t.mark? i).map (·.write r) else t.mark? i := by
  rw [mark?, get?_applyRect]
  split
  · next heq =>
    subst heq
    rw [mark?, wouldChange]
    cases t.get? id <;> rfl
  · rfl

/-- The rectangles that placements give to a component, in turn. -/
def rectsFor (i : ComponentId) (placements : List Placement) : List Rect :=
  (placements.filter (·.id = i)).map Placement.rect

theorem mark?_applyPlacements (t : Tree) (placements : List Placement) (i : ComponentId) :
    (t.applyPlacements placements).mark? i =
      (t.mark? i).map fun m => (rectsFor i placements).foldl Mark.write m := by
  induction placements generalizing t with
  | nil => exact Option.map_id'.symm
  | cons p rest ih =>
    rw [applyPlacements, List.foldl_cons]
    refine (ih (t.applyRect p.id p.rect)).trans ?_
    rw [mark?_applyRect, rectsFor, rectsFor]
    by_cases heq : p.id = i
    · rw [if_pos heq, Option.map_map, List.filter_cons_of_pos (by simpa using heq)]
      rfl
    · rw [if_neg heq, List.filter_cons_of_neg (by simpa using heq)]

/-- Placements write the same to trees of which the same is known. -/
theorem mark?_applyPlacements_congr (h : t.mark? = u.mark?) (placements : List Placement) :
    (t.applyPlacements placements).mark? = (u.applyPlacements placements).mark? := by
  funext i
  rw [mark?_applyPlacements, mark?_applyPlacements, h]

theorem applyPlacements_append (t : Tree) (placements more : List Placement) :
    t.applyPlacements (placements ++ more) =
      (t.applyPlacements placements).applyPlacements more :=
  List.foldl_append

/-- One of the placements gives the component its first rectangle, or another one than it has. -/
def Alters (t : Tree) (i : ComponentId) (placements : List Placement) : Prop :=
  (t.mark? i).any (·.alters (rectsFor i placements)) = true

/-- From `t` to `u` the component has become dirty exactly if it is `altered`, and otherwise its
rectangle is what it was. -/
structure Accounts (t u : Tree) (i : ComponentId) (altered : Prop) : Prop where
  dirty : i ∈ u.dirtyIds ↔ i ∈ t.dirtyIds ∨ altered
  rect : ¬ altered → u.rect? i = t.rect? i

theorem accounts_applyPlacements (h : u.mark? = (t.applyPlacements placements).mark?)
    (i : ComponentId) : t.Accounts u i (t.Alters i placements) := by
  have hmark : u.mark? i = (t.mark? i).map fun m => (rectsFor i placements).foldl Mark.write m := by
    rw [h, mark?_applyPlacements]
  unfold Alters
  constructor
  · rw [mem_dirtyIds, mem_dirtyIds, hmark]
    cases t.mark? i with
    | none => simp
    | some m => simp [Mark.dirty_foldl_write]
  · rw [rect?_eq, rect?_eq, hmark]
    cases t.mark? i with
    | none => exact fun _ => rfl
    | some m =>
      intro hsame
      rw [Option.any_some, Bool.not_eq_true] at hsame
      exact congrArg some (Mark.rect_foldl_write hsame)

namespace Accounts

variable {altered more : Prop}

theorem of_same (h : u.mark? = t.mark?) (i : ComponentId) : t.Accounts u i False :=
  ⟨by rw [mem_dirtyIds, mem_dirtyIds, h, or_false], fun _ => by rw [rect?_congr h]⟩

theorem congr (h : t.Accounts u i altered) (heq : altered ↔ more) : t.Accounts u i more :=
  propext heq ▸ h

theorem trans (h : t.Accounts u i altered) (h' : u.Accounts v i more) :
    t.Accounts v i (altered ∨ more) := by
  refine ⟨by rw [h'.dirty, h.dirty, or_assoc], fun hnone => ?_⟩
  rw [not_or] at hnone
  rw [h'.rect hnone.2, h.rect hnone.1]

end Accounts

end Tree

end Trellis
