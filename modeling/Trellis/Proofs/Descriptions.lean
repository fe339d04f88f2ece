import Mathlib.Data.List.Basic
import Trellis.Proofs.Histories.Shown
import Trellis.Proofs.Requests.Ancestors

/-!
# A tree holds all that was described

A description is written into the tree one component after the other, each with its settings before
those in it. What is in the tree while that is going on is known exactly: the components that were
there, of which one has more children, and behind them the new ones in preorder. So nothing of the
description is lost, and it can be read back.

* `Description.arena`: the components that a description becomes.
* `toList_add`, `toList_addAll`: what adding a description leaves in the tree.
* `Tree.describe`: the description of a component and those in it, read off the tree.
* `Registered`: names stand for the component that was given them last.
* `ofDescription_presents`: what is true of the tree that a description becomes.
-/
namespace Trellis

/-- The component with more children. -/
def Component.adopt (ids : List ComponentId) (c : Component) : Component :=
  { c with children := c.children ++ ids }

namespace Description

mutual

/-- The settings of all components described, in preorder. -/
def items : Description → List ItemConfig
  | .node item children => item :: itemsAll children

def itemsAll : List Description → List ItemConfig
  | [] => []
  | d :: rest => d.items ++ itemsAll rest

end

/-- The ids of components that are written one behind the other from `next` on, each with those in
it. -/
def starts (next : ComponentId) : List Description → List ComponentId
  | [] => []
  | d :: rest => next :: starts (next + d.size) rest

mutual

/-- The components that a description becomes, written from `id` on. -/
def arena (parent : Option ComponentId) (id : ComponentId) : Description → List Component
  | .node item children =>
    { Component.fresh item with parent := parent, children := starts (id + 1) children } ::
      arenaAll id (id + 1) children

def arenaAll (parent next : ComponentId) : List Description → List Component
  | [] => []
  | d :: rest => arena (some parent) next d ++ arenaAll parent (next + d.size) rest

end

mutual

theorem length_arena (parent : Option ComponentId) (id : ComponentId) (d : Description) :
    (d.arena parent id).length = d.size := by
  cases d with
  | node item children =>
    rw [arena, List.length_cons, length_arenaAll, size, Nat.add_comm]

theorem length_arenaAll (parent next : ComponentId) (ds : List Description) :
    (arenaAll parent next ds).length = sizes ds := by
  cases ds with
  | nil => rfl
  | cons d rest => rw [arenaAll, List.length_append, length_arena, length_arenaAll, sizes]

end

mutual

/-- The components have the settings described, and no layout has touched them. -/
theorem map_arena (parent : Option ComponentId) (id : ComponentId) (d : Description) :
    (d.arena parent id).map (fun c => (c.config, c.state)) =
      d.items.map fun item => (item, { hidden := item.hidden }) := by
  cases d with
  | node item children =>
    rw [arena, List.map_cons, map_arenaAll, items, List.map_cons]
    rfl

theorem map_arenaAll (parent next : ComponentId) (ds : List Description) :
    (arenaAll parent next ds).map (fun c => (c.config, c.state)) =
      (itemsAll ds).map fun item => (item, { hidden := item.hidden }) := by
  cases ds with
  | nil => rfl
  | cons d rest =>
    rw [arenaAll, List.map_append, map_arena, map_arenaAll, itemsAll, List.map_append]

end

end Description

open Description (starts arena arenaAll sizes)

namespace Tree

variable {t : Tree} {c i j parent id next : ComponentId} {name : String}

/-! ## Writing a description -/

theorem modify_append_of_lt {xs : List Component} {i : Nat} (h : i < xs.length)
    (ys : List Component) (f : Component → Component) :
    (xs ++ ys).modify i f = xs.modify i f ++ ys := by
  rw [List.modify_eq_take_cons_drop h,
    List.modify_eq_take_cons_drop (by rw [List.length_append]; omega),
    List.take_append_of_le_length (Nat.le_of_lt h), List.drop_append_of_le_length h,
    List.getElem_append_left h, List.append_assoc, List.cons_append]

theorem modify_append_singleton {xs : List Component} {i : Nat} (h : xs.length = i)
    (x : Component) (f : Component → Component) : (xs ++ [x]).modify i f = xs ++ [f x] := by
  subst h
  rw [List.modify_eq_take_cons_drop (by simp)]
  simp

theorem modify_adopt (xs : List Component) (i : Nat) (ids more : List ComponentId) :
    (xs.modify i (.adopt ids)).modify i (.adopt more) = xs.modify i (.adopt (ids ++ more)) := by
  rw [List.modify_modify_eq]
  refine congrArg (xs.modify i) (funext fun c => ?_)
  simp [Component.adopt]

theorem modify_adopt_nil (xs : List Component) (i : Nat) : xs.modify i (.adopt []) = xs := by
  have hid : Component.adopt [] = id := funext fun c => by simp [Component.adopt]
  rw [hid, List.modify_id]

theorem getElem?_toList (t : Tree) (i : ComponentId) : t.components.toList[i]? = t.get? i :=
  Array.getElem?_toList

theorem toList_alloc (t : Tree) (item : ItemConfig) :
    (t.alloc item).components.toList = t.components.toList ++ [.fresh item] := by
  unfold alloc
  cases item.itemId <;> exact Array.toList_push

theorem toList_attach {child : ComponentId} (hfree : t.parent? child = none) :
    (t.attach parent child).components.toList =
      (t.components.toList.modify parent (.adopt [child])).modify child
        fun c => { c with parent := some parent } := by
  unfold attach
  rw [hfree]
  exact Array.toList_modify.trans (congrArg (List.modify · child _) Array.toList_modify)

theorem length_modify_adopt (t : Tree) (parent : ComponentId) (ids : List ComponentId) :
    (t.components.toList.modify parent (.adopt ids)).length = t.size :=
  List.length_modify ..

theorem toList_attach_alloc (t : Tree) (hparent : parent < t.size) (item : ItemConfig) :
    ((t.alloc item).attach parent t.size).components.toList =
      t.components.toList.modify parent (.adopt [t.size]) ++
        [{ Component.fresh item with parent := some parent }] := by
  have hfree : (t.alloc item).parent? t.size = none := by
    rw [parent?_alloc, parent?, get?_size]
    rfl
  rw [toList_attach hfree, toList_alloc, modify_append_of_lt hparent,
    modify_append_singleton (length_modify_adopt ..)]

theorem size_attach_alloc (t : Tree) (parent : ComponentId) (item : ItemConfig) :
    ((t.alloc item).attach parent t.size).size = t.size + 1 := by
  rw [size_attach, size_alloc]
  rw [parent?_alloc, parent?, get?_size]
  rfl

mutual

/-- Adding a description makes one more child, and its components follow those that are there. -/
theorem toList_add (t : Tree) {parent : ComponentId} (hparent : parent < t.size)
    (d : Description) : (t.add parent d).components.toList =
      t.components.toList.modify parent (.adopt [t.size]) ++ d.arena (some parent) t.size := by
  cases d with
  | node item children =>
    have hsize := t.size_attach_alloc parent item
    have hnew : t.size < ((t.alloc item).attach parent t.size).size := by
      rw [hsize]
      exact Nat.lt_succ_self t.size
    rw [add, toList_addAll _ hnew, hsize, t.toList_attach_alloc hparent item,
      modify_append_singleton (length_modify_adopt ..), List.append_assoc]
    rfl

theorem toList_addAll (t : Tree) {parent : ComponentId} (hparent : parent < t.size)
    (ds : List Description) : (t.addAll parent ds).components.toList =
      t.components.toList.modify parent (.adopt (starts t.size ds)) ++
        arenaAll parent t.size ds := by
  cases ds with
  | nil =>
    rw [starts, modify_adopt_nil, arenaAll, List.append_nil]
    rfl
  | cons d rest =>
    have hfirst := t.toList_add hparent d
    have hsize : (t.add parent d).size = t.size + d.size := by
      rw [size, ← Array.length_toList, hfirst, List.length_append, List.length_modify,
        Description.length_arena]
      rfl
    have hstill : parent < (t.add parent d).size := by
      rw [hsize]
      exact Nat.lt_add_right _ hparent
    rw [addAll, toList_addAll _ hstill, hsize, hfirst,
      modify_append_of_lt (by rw [List.length_modify]; exact hparent), modify_adopt,
      List.append_assoc]
    rfl

end

theorem toList_ofDescription (d : Description) :
    (ofDescription d).components.toList = d.arena none 0 := by
  cases d with
  | node item children =>
    have hroot : 0 < (ofItem item).size := by
      rw [ofItem, size_alloc]
      exact Nat.succ_pos _
    show ((ofItem item).addAll 0 children).components.toList = _
    rw [toList_addAll _ hroot, ofItem, size_alloc, toList_alloc]
    rfl

/-! ## Reading a description -/

/-- The description of a component whose components nest less than `n` deep: its settings, and the
descriptions of its children in their order. -/
def describeWithin (t : Tree) : (n : Nat) → ComponentId → Option Description
  | 0, _ => none
  | n + 1, id => do
    let c ← t.get? id
    let children ← c.children.mapM (t.describeWithin n)
    return .node c.config children

/-- The description of a component and those in it. -/
def describe (t : Tree) (id : ComponentId) : Option Description := t.describeWithin t.size id

/-- A component and those in it, each before its children, if they nest less than `n` deep. -/
def preorderWithin (t : Tree) : (n : Nat) → ComponentId → List ComponentId
  | 0, _ => []
  | n + 1, id => id :: (t.children id).flatMap (t.preorderWithin n)

def preorder (t : Tree) (id : ComponentId) : List ComponentId := t.preorderWithin t.size id

/-- The components are found in the tree from `first` on. -/
def Holds (t : Tree) (first : ComponentId) (cs : List Component) : Prop :=
  ∀ (k : Nat) c, cs[k]? = some c → t.get? (first + k) = some c

theorem Holds.head {x : Component} {cs : List Component} (h : t.Holds id (x :: cs)) :
    t.get? id = some x :=
  h 0 x rfl

theorem Holds.tail {x : Component} {cs : List Component} (h : t.Holds id (x :: cs)) :
    t.Holds (id + 1) cs := by
  intro k c hc
  have := h (k + 1) c (by rwa [List.getElem?_cons_succ])
  rwa [Nat.add_right_comm]

theorem Holds.left {cs ds : List Component} (h : t.Holds id (cs ++ ds)) : t.Holds id cs :=
  fun k c hc => h k c (List.getElem?_append_left (List.getElem?_eq_some_iff.1 hc).1 ▸ hc)

theorem Holds.right {cs ds : List Component} (h : t.Holds id (cs ++ ds)) :
    t.Holds (id + cs.length) ds := by
  intro k c hc
  have := h (cs.length + k) c
    (by rwa [List.getElem?_append_right (by omega), Nat.add_sub_cancel_left])
  rwa [Nat.add_assoc]

theorem holds_toList (t : Tree) : t.Holds 0 t.components.toList := by
  intro k c hc
  rw [Nat.zero_add, ← getElem?_toList, hc]

mutual

/-- What was written is read back, and in the order in which it was written. -/
theorem reads_arena {n : Nat} {parent : Option ComponentId} {id : ComponentId} {d : Description}
    (hn : d.size ≤ n) (h : t.Holds id (d.arena parent id)) :
    t.describeWithin n id = some d ∧ t.preorderWithin n id = List.range' id d.size := by
  cases d with
  | node item children =>
    rw [Description.size] at hn
    cases n with
    | zero => omega
    | succ n =>
      obtain ⟨hdescribe, hpreorder⟩ := reads_arenaAll (n := n) (by omega) h.tail
      have hget := h.head
      refine ⟨?_, ?_⟩
      · rw [describeWithin, hget]
        show (starts (id + 1) children).mapM (t.describeWithin n) >>= _ = _
        rw [hdescribe]
        rfl
      · rw [preorderWithin, Tree.children, hget, Description.size, Nat.add_comm 1,
          List.range'_succ]
        exact congrArg (id :: ·) hpreorder

theorem reads_arenaAll {n : Nat} {parent next : ComponentId} {ds : List Description}
    (hn : sizes ds ≤ n) (h : t.Holds next (arenaAll parent next ds)) :
    (starts next ds).mapM (t.describeWithin n) = some ds ∧
      (starts next ds).flatMap (t.preorderWithin n) = List.range' next (sizes ds) := by
  cases ds with
  | nil => exact ⟨rfl, rfl⟩
  | cons d rest =>
    rw [sizes] at hn
    rw [arenaAll] at h
    have hrest := h.right
    rw [Description.length_arena] at hrest
    obtain ⟨hd, hwalk⟩ := reads_arena (n := n) (by omega) h.left
    obtain ⟨hds, hwalks⟩ := reads_arenaAll (n := n) (by omega) hrest
    rw [starts, sizes]
    refine ⟨?_, ?_⟩
    · rw [List.mapM_cons, hd, hds]
      rfl
    · rw [List.flatMap_cons, hwalk, hwalks, List.range'_append_1]

end

/-! ## Names -/

/-- The component is called `name` by its settings. -/
def IsCalled (t : Tree) (i : ComponentId) (name : String) : Prop :=
  (t.config? i).bind ItemConfig.itemId = some name

/-- A name stands for the last component that is called so. -/
def Registered (t : Tree) : Prop :=
  ∀ name i, t.lookup name = some i ↔ t.IsCalled i name ∧ ∀ j, i < j → ¬ t.IsCalled j name

theorem lookup_register (t : Tree) (called : String) (i : ComponentId) (name : String) :
    (t.register called i).lookup name = if called = name then some i else t.lookup name := by
  unfold lookup register
  rw [List.find?_cons]
  by_cases heq : called = name
  · simp [heq]
  · simp only [heq, beq_eq_false_iff_ne.2 heq, if_false, List.find?_filter]
    refine congrArg _ (congrArg (List.find? · t.registry) (funext fun e => ?_))
    by_cases he : e.1 = name
    · simp [he, Ne.symm heq]
    · simp [he]

theorem lookup_alloc (t : Tree) (item : ItemConfig) (name : String) :
    (t.alloc item).lookup name =
      if item.itemId = some name then some t.size else t.lookup name := by
  unfold alloc
  cases hid : item.itemId with
  | none => rfl
  | some called =>
    show (t.register called t.size).lookup name = _
    rw [lookup_register]
    simp only [Option.some.injEq]

theorem registry_detach (t : Tree) (parent child : ComponentId) :
    (t.detach parent child).registry = t.registry := by
  unfold detach
  split <;> rfl

theorem lookup_attach (t : Tree) (parent child : ComponentId) :
    (t.attach parent child).lookup = t.lookup := by
  have hregistry : (t.attach parent child).registry = t.registry := by
    unfold attach
    cases t.parent? child with
    | none => rfl
    | some old => exact t.registry_detach old child
  funext name
  rw [lookup, hregistry, lookup]

theorem isCalled_alloc (t : Tree) (item : ItemConfig) (i : ComponentId) (name : String) :
    (t.alloc item).IsCalled i name ↔
      if i = t.size then item.itemId = some name else t.IsCalled i name := by
  unfold IsCalled config?
  rw [get?_alloc]
  split <;> rfl

theorem lt_size_of_isCalled (h : t.IsCalled i name) : i < t.size := by
  obtain ⟨config, hconfig, -⟩ := Option.bind_eq_some_iff.1 h
  obtain ⟨c, hc, -⟩ := Option.map_eq_some_iff.1 hconfig
  exact (Array.getElem?_eq_some_iff.1 hc).1

theorem Registered.alloc (h : t.Registered) (item : ItemConfig) : (t.alloc item).Registered := by
  intro name i
  simp only [lookup_alloc, isCalled_alloc]
  by_cases hitem : item.itemId = some name
  · -- whoever else is called so has come before
    rw [if_pos hitem, Option.some.injEq]
    constructor
    · rintro rfl
      refine ⟨by rwa [if_pos rfl], fun j hj => ?_⟩
      rw [if_neg (Nat.ne_of_gt hj)]
      exact fun hcalled => Nat.lt_asymm hj (lt_size_of_isCalled hcalled)
    · intro ⟨hi, hlast⟩
      by_contra hne
      rw [if_neg (Ne.symm hne)] at hi
      exact hlast t.size (lt_size_of_isCalled hi) (by rwa [if_pos rfl])
  · rw [if_neg hitem, h]
    constructor
    · intro ⟨hi, hlast⟩
      refine ⟨by rwa [if_neg (Nat.ne_of_lt (lt_size_of_isCalled hi))], fun j hj => ?_⟩
      split
      · exact hitem
      · exact hlast j hj
    · intro ⟨hi, hlast⟩
      split at hi
      · exact absurd hi hitem
      · refine ⟨hi, fun j hj hcalled => hlast j hj ?_⟩
        rwa [if_neg (Nat.ne_of_lt (lt_size_of_isCalled hcalled))]

theorem Registered.attach (h : t.Registered) (parent child : ComponentId) :
    (t.attach parent child).Registered := by
  intro name i
  simp only [IsCalled, ← (t.rearranged_attach parent child).config?_eq]
  rw [lookup_attach]
  exact h name i

theorem registered_ofDescription (d : Description) : (ofDescription d).Registered := by
  have hextends : Extends Registered :=
    ⟨fun item h => h.alloc item, fun parent child h => h.attach parent child⟩
  refine hextends.ofDescription (fun name i => ?_) d
  constructor
  · intro h
    cases h
  · intro h
    cases h.1

/-! ## The tree that a description becomes -/

/-- The tree is what was described, and nothing else. -/
structure Presents (t : Tree) (d : Description) : Prop where
  /-- Read off the tree, the description is the one that was given. -/
  described : t.describe 0 = some d
  size_eq : t.size = 1 + sizes d.children
  /-- Ids are given in preorder. -/
  preorder_eq : t.preorder 0 = List.range t.size
  /-- The settings that are stored, which nest no others. -/
  settings : t.components.toList.map (·.config) = d.items
  mem_children : ∀ c i, i ∈ t.children c ↔ t.parent? i = some c
  older : ∀ c i, i ∈ t.children c → c < i
  acyclic : ∀ i, t.isDescendantOf i i = false
  /-- No layout has touched a component, and only settings hide it. -/
  untouched : ∀ i c, t.get? i = some c → c.state = { hidden := c.config.hidden }
  /-- A name stands for the last component in preorder that is called so. -/
  lookup_eq_some : ∀ name i,
    t.lookup name = some i ↔ t.IsCalled i name ∧ ∀ j, i < j → ¬ t.IsCalled j name

/-- Nothing is lost when a description becomes a tree. -/
theorem ofDescription_presents (d : Description) : (ofDescription d).Presents d := by
  have htoList := toList_ofDescription d
  have hnested := nested_ofDescription d
  have hmap := d.map_arena none 0
  have hsize : (ofDescription d).size = d.size := by
    rw [size, ← Array.length_toList, htoList, Description.length_arena]
  have hholds := (ofDescription d).holds_toList
  rw [htoList] at hholds
  obtain ⟨hdescribe, hwalk⟩ := reads_arena (Nat.le_refl d.size) hholds
  constructor
  case described => rwa [describe, hsize]
  case size_eq =>
    rw [hsize]
    cases d
    rfl
  case preorder_eq =>
    rw [preorder, hsize, hwalk, List.range_eq_range']
  case settings =>
    have := congrArg (List.map Prod.fst) hmap
    rw [List.map_map, List.map_map] at this
    rw [htoList]
    exact this.trans (List.map_id _)
  case mem_children => exact hnested.mem_children
  case older =>
    intro c i hi
    exact hnested.older c i ((hnested.mem_children c i).1 hi)
  case acyclic =>
    intro i
    rw [Bool.eq_false_iff]
    intro hself
    obtain ⟨p, hp, hin⟩ := isDescendantOf_iff.1 hself
    exact hnested.not_inside_child hp hin
  case untouched =>
    intro i c hc
    rw [← getElem?_toList, htoList] at hc
    have hmem : (c.config, c.state) ∈ (d.arena none 0).map fun c => (c.config, c.state) :=
      List.mem_map_of_mem (List.mem_of_getElem? hc)
    rw [hmap] at hmem
    obtain ⟨item, -, heq⟩ := List.mem_map.1 hmem
    rw [Prod.mk.injEq] at heq
    rw [← heq.1, ← heq.2]
  case lookup_eq_some => exact registered_ofDescription d

end Tree

end Trellis
