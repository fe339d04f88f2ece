/-!
# Values kept for components

A map from positions in a tree to values, as a list in ascending order of positions, so that
whatever is read off it comes in that order and each position once.

* `get?_insert`, `get?_filter`, `get?_map`, `get?_modify`: what is found after a change.
* `nodup_keys`, `pairwise_keys`: no position is kept twice, and positions ascend.
-/
namespace Trellis

structure IdMap (α : Type) where
  entries : List (Nat × α)
  ascending : entries.Pairwise fun a b => a.1 < b.1

namespace IdMap

variable {α β : Type}

def empty : IdMap α := ⟨[], .nil⟩

instance : Inhabited (IdMap α) := ⟨empty⟩

def keys (m : IdMap α) : List Nat := m.entries.map Prod.fst

/-- The value next to `k`. -/
def findIn (k : Nat) : List (Nat × α) → Option α
  | [] => none
  | e :: rest => if k = e.1 then some e.2 else findIn k rest

def get? (m : IdMap α) (k : Nat) : Option α := findIn k m.entries

def contains (m : IdMap α) (k : Nat) : Bool := (m.get? k).isSome

/-- Put `v` in its place among ascending entries, instead of the one for `k` if there is one. -/
def insertInto (k : Nat) (v : α) : List (Nat × α) → List (Nat × α)
  | [] => [(k, v)]
  | e :: rest =>
    if k < e.1 then (k, v) :: e :: rest
    else if k = e.1 then (k, v) :: rest
    else e :: insertInto k v rest

theorem mem_insertInto {k : Nat} {v : α} {l : List (Nat × α)}
    {e : Nat × α} (h : e ∈ insertInto k v l) : e = (k, v) ∨ e ∈ l := by
  induction l with
  | nil => simpa [insertInto] using h
  | cons f rest ih =>
    unfold insertInto at h
    split at h
    · simpa using h
    · split at h
      · rcases List.mem_cons.1 h with h | h
        · exact .inl h
        · exact .inr (List.mem_cons_of_mem _ h)
      · rcases List.mem_cons.1 h with h | h
        · exact .inr (by simp [h])
        · rcases ih h with h | h
          · exact .inl h
          · exact .inr (List.mem_cons_of_mem _ h)

theorem ascending_insertInto (k : Nat) (v : α) {l : List (Nat × α)}
    (h : l.Pairwise fun a b => a.1 < b.1) :
    (insertInto k v l).Pairwise fun a b => a.1 < b.1 := by
  induction l with
  | nil => simp [insertInto]
  | cons e rest ih =>
    obtain ⟨hall, hrest⟩ := List.pairwise_cons.1 h
    unfold insertInto
    split
    · next hlt =>
      refine List.pairwise_cons.2 ⟨fun f hf => ?_, h⟩
      rcases List.mem_cons.1 hf with rfl | hf
      · exact hlt
      · exact Nat.lt_trans hlt (hall f hf)
    · split
      · next heq => exact List.pairwise_cons.2 ⟨fun f hf => heq ▸ hall f hf, hrest⟩
      · next hlt hne =>
        refine List.pairwise_cons.2 ⟨fun f hf => ?_, ih hrest⟩
        rcases mem_insertInto hf with rfl | hf
        · show e.1 < k
          omega
        · exact hall f hf

def insert (m : IdMap α) (k : Nat) (v : α) : IdMap α :=
  ⟨insertInto k v m.entries, ascending_insertInto k v m.ascending⟩

/-- The entries that satisfy `keep`. -/
def filter (m : IdMap α) (keep : Nat → α → Bool) : IdMap α :=
  ⟨m.entries.filter fun e => keep e.1 e.2, m.ascending.filter _⟩

def erase (m : IdMap α) (k : Nat) : IdMap α := m.filter fun i _ => i != k

def map (m : IdMap α) (f : α → β) : IdMap β :=
  ⟨m.entries.map fun e => (e.1, f e.2), by
    rw [List.pairwise_map]; exact m.ascending⟩

/-- Change the value kept for `k`, if there is one. -/
def modify (m : IdMap α) (k : Nat) (f : α → α) : IdMap α :=
  match m.get? k with
  | some v => m.insert k (f v)
  | none => m

theorem findIn_insertInto (k i : Nat) (v : α) (l : List (Nat × α)) :
    findIn i (insertInto k v l) = if i = k then some v else findIn i l := by
  induction l with
  | nil => rfl
  | cons e rest ih =>
    unfold insertInto
    split
    · rfl
    · split
      · next heq => by_cases h : i = k <;> simp [findIn, h, ← heq]
      · by_cases hj : i = e.1
        · have hk : e.1 ≠ k := by omega
          simp [findIn, hj, hk]
        · simp [findIn, hj, ih]

@[simp] theorem get?_insert (m : IdMap α) (k i : Nat) (v : α) :
    (m.insert k v).get? i = if i = k then some v else m.get? i :=
  findIn_insertInto k i v m.entries

@[simp] theorem get?_empty (i : Nat) : (empty : IdMap α).get? i = none := rfl

theorem nodup_keys (m : IdMap α) : m.keys.Nodup := by
  unfold keys List.Nodup
  rw [List.pairwise_map]
  exact m.ascending.imp fun h => Nat.ne_of_lt h

theorem findIn_eq_none_of_lt {l : List (Nat × α)} {i : Nat} (h : ∀ e ∈ l, i < e.1) :
    findIn i l = none := by
  induction l with
  | nil => rfl
  | cons e rest ih =>
    have hi : i < e.1 := h e (by simp)
    have hne : i ≠ e.1 := by omega
    simp only [findIn, hne, if_false]
    exact ih fun f hf => h f (List.mem_cons_of_mem _ hf)

theorem findIn_filter (keep : Nat → α → Bool) (i : Nat) {l : List (Nat × α)}
    (h : l.Pairwise fun a b => a.1 < b.1) :
    findIn i (l.filter fun e => keep e.1 e.2) = (findIn i l).filter (keep i) := by
  induction l with
  | nil => rfl
  | cons e rest ih =>
    obtain ⟨hall, hrest⟩ := List.pairwise_cons.1 h
    by_cases hij : i = e.1
    · subst hij
      by_cases hk : keep e.1 e.2 = true
      · simp [hk, findIn, Option.filter]
      · have hnone : findIn e.1 (rest.filter fun e => keep e.1 e.2) = none :=
          findIn_eq_none_of_lt fun f hf => hall f (List.mem_filter.1 hf).1
        simp [hk, findIn, hnone, Option.filter]
    · by_cases hk : keep e.1 e.2 = true
      · simp [hk, findIn, hij, ih hrest]
      · simp [hk, findIn, hij, ih hrest]

@[simp] theorem get?_filter (m : IdMap α) (keep : Nat → α → Bool) (i : Nat) :
    (m.filter keep).get? i = (m.get? i).filter (keep i) :=
  findIn_filter keep i m.ascending

/-! ## Entries and keys -/

theorem findIn_eq_some {l : List (Nat × α)} (h : l.Pairwise fun a b => a.1 < b.1) {i : Nat}
    {v : α} : findIn i l = some v ↔ (i, v) ∈ l := by
  induction l with
  | nil => simp [findIn]
  | cons e rest ih =>
    obtain ⟨hall, hrest⟩ := List.pairwise_cons.1 h
    by_cases hi : i = e.1
    · subst hi
      -- the first entry for a position is the only one
      have hnot : (e.1, v) ∉ rest := fun hmem => Nat.lt_irrefl e.1 (hall (e.1, v) hmem)
      simp only [findIn, if_true, Option.some.injEq, List.mem_cons, hnot, or_false]
      exact ⟨fun heq => by rw [← heq], fun heq => by rw [← heq]⟩
    · have hne : (i, v) ≠ e := by
        rintro rfl
        exact hi rfl
      simp only [findIn, if_neg hi, List.mem_cons, hne, false_or]
      exact ih hrest

theorem get?_eq_some {m : IdMap α} {i : Nat} {v : α} :
    m.get? i = some v ↔ (i, v) ∈ m.entries :=
  findIn_eq_some m.ascending

theorem mem_keys {m : IdMap α} {i : Nat} : i ∈ m.keys ↔ ∃ v, m.get? i = some v := by
  unfold keys
  rw [List.mem_map]
  constructor
  · intro ⟨e, he, hi⟩
    exact ⟨e.2, get?_eq_some.2 (by rwa [← hi])⟩
  · intro ⟨v, hv⟩
    exact ⟨(i, v), get?_eq_some.1 hv, rfl⟩

/-- Keys come in ascending order, each of them once. -/
theorem pairwise_keys (m : IdMap α) : m.keys.Pairwise (· < ·) := by
  unfold keys
  rw [List.pairwise_map]
  exact m.ascending

@[simp] theorem get?_map (m : IdMap α) (f : α → β) (i : Nat) :
    (m.map f).get? i = (m.get? i).map f := by
  have hfind : ∀ l : List (Nat × α),
      findIn i (l.map fun e => (e.1, f e.2)) = (findIn i l).map f := by
    intro l
    induction l with
    | nil => rfl
    | cons e rest ih => by_cases hi : i = e.1 <;> simp [findIn, hi, ih]
  exact hfind m.entries

theorem get?_modify (m : IdMap α) (k i : Nat) (f : α → α) :
    (m.modify k f).get? i = if i = k then (m.get? i).map f else m.get? i := by
  unfold modify
  split
  · next v hv => by_cases hi : i = k <;> simp [hi, hv]
  · next hnone => by_cases hi : i = k <;> simp [hi, hnone]

end IdMap

end Trellis
