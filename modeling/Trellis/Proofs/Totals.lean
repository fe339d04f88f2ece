import Mathlib.Algebra.Order.BigOperators.Group.List
import Mathlib.Algebra.Order.Ring.Int
import Trellis.Length

/-!
# Checked lists and totals

A checked total that succeeds is the plain sum, so every law about lengths that add up is a law
about `List.sum`.

* `mapM_eq_ok`, `mapM_eq_ok_iff_map`: a checked list succeeds exactly when every element does.
* `total_eq_ok`: a checked total is the true sum of its terms.
* `total_eq_sum`: a checked total of terms that are known is the sum of those terms.
* `total_plain_eq_ok`: a total of plain lengths, with its running sums.
-/
namespace Trellis.Length

variable {α β : Type}

@[simp] theorem ok_bind (a : α) (f : α → Checked β) : ((Except.ok a : Checked α) >>= f) = f a :=
  rfl

/-- What follows a computation may differ only where the computation succeeds. -/
theorem bind_congr_of_ok {x : Checked α} {f g : α → Checked β}
    (h : ∀ a, x = .ok a → f a = g a) : x >>= f = x >>= g := by
  cases x with
  | error fault => rfl
  | ok a => exact h a rfl

theorem mapM_cons_eq_ok {f : α → Checked β} {x : α} {xs : List α} {ys : List β} :
    (x :: xs).mapM f = .ok ys ↔ ∃ y zs, f x = .ok y ∧ xs.mapM f = .ok zs ∧ ys = y :: zs := by
  rw [List.mapM_cons]
  simp only [bind_eq_ok, pure, Except.pure, Except.ok.injEq]
  constructor
  · rintro ⟨y, hy, zs, hz, rfl⟩
    exact ⟨y, zs, hy, hz, rfl⟩
  · rintro ⟨y, zs, hy, hz, rfl⟩
    exact ⟨y, hy, zs, hz, rfl⟩

theorem mapM_eq_ok {f : α → Checked β} {xs : List α} {ys : List β} :
    xs.mapM f = .ok ys ↔ List.Forall₂ (fun x y => f x = .ok y) xs ys := by
  induction xs generalizing ys with
  | nil =>
    simp only [List.mapM_nil, pure, Except.pure, Except.ok.injEq, List.forall₂_nil_left_iff]
    exact eq_comm
  | cons x xs ih =>
    rw [mapM_cons_eq_ok, List.forall₂_cons_left_iff]
    constructor
    · rintro ⟨y, zs, hy, hz, rfl⟩
      exact ⟨y, zs, hy, ih.1 hz, rfl⟩
    · rintro ⟨y, zs, hy, hz, rfl⟩
      exact ⟨y, zs, hy, ih.2 hz, rfl⟩

/-- A checked list with known results, which each depend on a condition. -/
theorem mapM_eq_ok_iff_map {f : α → Checked β} {g : α → β} {p : α → Prop} {xs : List α}
    {ys : List β} (hf : ∀ x ∈ xs, ∀ y, f x = .ok y ↔ y = g x ∧ p x) :
    xs.mapM f = .ok ys ↔ ys = xs.map g ∧ ∀ x ∈ xs, p x := by
  induction xs generalizing ys with
  | nil => simp [pure, Except.pure, eq_comm]
  | cons x xs ih =>
    have ih' := fun zs => @ih zs fun z hz => hf z (by simp [hz])
    simp only [mapM_cons_eq_ok, hf x (by simp), ih', List.map_cons, List.forall_mem_cons]
    constructor
    · rintro ⟨y, zs, ⟨rfl, hx⟩, ⟨rfl, hxs⟩, rfl⟩
      exact ⟨rfl, hx, hxs⟩
    · rintro ⟨rfl, hx, hxs⟩
      exact ⟨_, _, ⟨rfl, hx⟩, ⟨rfl, hxs⟩, rfl⟩

/-- Where two lists correspond, every element of the first has its counterpart in the second. -/
theorem exists_of_forall₂ {R : α → β → Prop} {xs : List α} {ys : List β} (h : List.Forall₂ R xs ys)
    {x : α} (hx : x ∈ xs) : ∃ y ∈ ys, R x y := by
  induction h with
  | nil => cases hx
  | cons hxy _ ih =>
    rcases List.mem_cons.1 hx with rfl | hx
    · exact ⟨_, by simp, hxy⟩
    · obtain ⟨y, hy, hxy⟩ := ih hx
      exact ⟨y, by simp [hy], hxy⟩

/-- Every element of a checked list has its result. -/
theorem exists_mem_of_mapM {f : α → Checked β} {xs : List α} {ys : List β}
    (h : xs.mapM f = .ok ys) {x : α} (hx : x ∈ xs) : ∃ y ∈ ys, f x = .ok y :=
  exists_of_forall₂ (mapM_eq_ok.1 h) hx

/-- Every result of a checked list comes from an element. -/
theorem exists_of_mem_mapM {f : α → Checked β} {xs : List α} {ys : List β}
    (h : xs.mapM f = .ok ys) {y : β} (hy : y ∈ ys) : ∃ x ∈ xs, f x = .ok y :=
  exists_of_forall₂ (mapM_eq_ok.1 h).flip hy

/-- What is known of every counterpart in terms of its element is known of the whole list. -/
theorem map_of_forall₂ {γ : Type} {R : α → β → Prop} {g : β → γ} {k : α → γ} {xs : List α}
    {ys : List β} (hR : ∀ x y, R x y → g y = k x) (h : List.Forall₂ R xs ys) :
    ys.map g = xs.map k := by
  induction h with
  | nil => rfl
  | cons hxy _ ih => rw [List.map_cons, List.map_cons, ih, hR _ _ hxy]

theorem map_of_mapM {γ : Type} {f : α → Checked β} {g : β → γ} {k : α → γ} {xs : List α}
    {ys : List β} (hfg : ∀ x y, f x = .ok y → g y = k x) (h : xs.mapM f = .ok ys) :
    ys.map g = xs.map k :=
  map_of_forall₂ hfg (mapM_eq_ok.1 h)

theorem map_eq_ok {f : α → β} {x : Checked α} {b : β} :
    (f <$> x) = .ok b ↔ ∃ a, x = .ok a ∧ f a = b := by
  cases x <;> simp [Functor.map, Except.map]

/-- The terms of a total are all lengths, and the total is their sum. -/
theorem foldlM_total_eq_ok {f : α → Checked Int} {xs : List α} {start s : Int}
    (h : xs.foldlM (fun acc x => do add acc (← f x)) start = .ok s) :
    ∃ terms : List Int, xs.mapM f = .ok terms ∧ s = start + terms.sum := by
  induction xs generalizing start with
  | nil =>
    simp only [List.foldlM_nil, pure, Except.pure, Except.ok.injEq] at h
    exact ⟨[], rfl, by simp [h]⟩
  | cons x xs ih =>
    simp only [List.foldlM_cons, bind_eq_ok] at h
    obtain ⟨mid, ⟨t, ht, hmid⟩, hrest⟩ := h
    obtain ⟨terms, hterms, hs⟩ := ih hrest
    refine ⟨t :: terms, by rw [List.mapM_cons, ht, hterms]; rfl, ?_⟩
    rw [(add_eq_ok.1 hmid).1] at hs
    simp only [List.sum_cons]
    omega

theorem total_eq_ok {f : α → Checked Int} {xs : List α} {s : Int}
    (h : total f xs = .ok s) :
    ∃ terms : List Int, xs.mapM f = .ok terms ∧ s = terms.sum := by
  obtain ⟨terms, hterms, hs⟩ := foldlM_total_eq_ok h
  exact ⟨terms, hterms, by omega⟩

/-- A total whose terms are known to be `g` is the sum of `g`. -/
theorem total_eq_sum {f : α → Checked Int} {g : α → Int} {xs : List α} {s : Int}
    (hfg : ∀ x ∈ xs, ∀ y, f x = .ok y → y = g x) (h : total f xs = .ok s) :
    s = (xs.map g).sum := by
  obtain ⟨terms, hterms, rfl⟩ := total_eq_ok h
  have hall := mapM_eq_ok.1 hterms
  clear h hterms
  induction hall with
  | nil => rfl
  | cons hx _ ih =>
    rw [List.sum_cons, List.map_cons, List.sum_cons, hfg _ (by simp) _ hx,
      ih fun x hx => hfg x (by simp [hx])]

/-- A running sum of plain lengths succeeds exactly when it is a length all the way. -/
theorem foldlM_add_eq_ok {xs : List Int} {start s : Int} (hstart : Fits start) :
    xs.foldlM add start = .ok s ↔ s = start + xs.sum ∧ ∀ n, Fits (start + (xs.take n).sum) := by
  induction xs generalizing start with
  | nil => simp [pure, Except.pure, hstart, eq_comm]
  | cons x xs ih =>
    rw [List.foldlM_cons, bind_eq_ok]
    constructor
    · rintro ⟨mid, hmid, hrest⟩
      obtain ⟨rfl, hfits⟩ := add_eq_ok.1 hmid
      obtain ⟨rfl, hall⟩ := (ih hfits).1 hrest
      refine ⟨by rw [List.sum_cons, Int.add_assoc], fun n => ?_⟩
      cases n with
      | zero => simpa using hstart
      | succ n => simpa [Int.add_assoc] using hall n
    · rintro ⟨rfl, hall⟩
      have hfits : Fits (start + x) := by simpa using hall 1
      refine ⟨start + x, add_eq_ok.2 ⟨rfl, hfits⟩, (ih hfits).2 ⟨?_, fun n => ?_⟩⟩
      · rw [List.sum_cons, Int.add_assoc]
      · simpa [Int.add_assoc] using hall (n + 1)

theorem total_plain_eq_ok {xs : List Int} {s : Int} :
    total (fun x => .ok x) xs = .ok s ↔ s = xs.sum ∧ ∀ n, Fits (xs.take n).sum := by
  have hzero := @foldlM_add_eq_ok xs 0 s (by decide)
  simp only [Int.zero_add] at hzero
  exact hzero

theorem total_map {γ : Type} (f : α → Checked Int) (g : γ → α) (xs : List γ) :
    total f (xs.map g) = total (fun x => f (g x)) xs := by
  simp only [total, List.foldlM_map]

theorem foldlM_congr {f g : β → α → Checked β} {xs : List α}
    (h : ∀ x ∈ xs, ∀ b, f b x = g b x) (start : β) : xs.foldlM f start = xs.foldlM g start := by
  induction xs generalizing start with
  | nil => rfl
  | cons x xs ih =>
    rw [List.foldlM_cons, List.foldlM_cons, h x (by simp)]
    congr 1
    funext mid
    exact ih (fun y hy => h y (by simp [hy])) mid

theorem total_congr {f g : α → Checked Int} {xs : List α} (h : ∀ x ∈ xs, f x = g x) :
    total f xs = total g xs :=
  foldlM_congr (fun x hx acc => by rw [h x hx]) 0

/-- The sum over the elements that satisfy `p` and the sum over the others make up the whole. -/
theorem sum_filter_add_sum_filter_not (p : α → Bool) (f : α → Int) (xs : List α) :
    ((xs.filter p).map f).sum + ((xs.filter fun x => !p x).map f).sum = (xs.map f).sum := by
  rw [← List.sum_append, ← List.map_append]
  exact ((List.filter_append_perm p xs).map f).sum_eq

end Trellis.Length
