import Trellis.Geometry

/-!
# Points, margin boxes and spans

A rectangle covers the points from its left and top edge up to, but not including, its right and
bottom edge. The *margin box* of a rectangle is the rectangle grown by its margins. On one axis a
margin box is a span, and the spans of a line abut when each begins where the one before it ends.

* `Sides.horizontal_eq_ok`, `Axis.mainSides_eq_ok`, ...: a checked sum of two sides is their sum.
* `Bounds.constrain_nonneg`, `Bounds.least_le_constrain`: what bounds make of a length.
* `Bounds.admits_iff`, `Bounds.admits_grounded`: which lengths bounds leave as they are;
  `Bounds.constrain_le_of_lt` and `Bounds.le_constrain_of_lt`: a length is raised to the least of
  them, or lowered to the greatest.
-/
namespace Trellis

namespace Sides

structure Nonneg (s : Sides) : Prop where
  top : 0 ≤ s.top
  right : 0 ≤ s.right
  bottom : 0 ≤ s.bottom
  left : 0 ≤ s.left

instance (s : Sides) : Decidable s.Nonneg :=
  decidable_of_iff (0 ≤ s.top ∧ 0 ≤ s.right ∧ 0 ≤ s.bottom ∧ 0 ≤ s.left)
    ⟨fun ⟨t, r, b, l⟩ => ⟨t, r, b, l⟩, fun ⟨t, r, b, l⟩ => ⟨t, r, b, l⟩⟩

theorem horizontal_eq_ok {s : Sides} {n : Int} (h : s.horizontal = .ok n) : n = s.left + s.right :=
  (Length.add_eq_ok.1 h).1

theorem vertical_eq_ok {s : Sides} {n : Int} (h : s.vertical = .ok n) : n = s.top + s.bottom :=
  (Length.add_eq_ok.1 h).1

end Sides

namespace Rect

/-- The point (`x`, `y`) lies in the rectangle. -/
def Covers (r : Rect) (x y : Int) : Prop :=
  r.x ≤ x ∧ x < r.x + r.width ∧ r.y ≤ y ∧ y < r.y + r.height

instance (r : Rect) (x y : Int) : Decidable (r.Covers x y) :=
  inferInstanceAs (Decidable (_ ∧ _ ∧ _ ∧ _))

/-- The rectangle grown by `m`: the margin box of a component with these margins. -/
def grow (r : Rect) (m : Sides) : Rect :=
  ⟨r.x - m.left, r.y - m.top, r.width + m.left + m.right, r.height + m.top + m.bottom⟩

/-- No edge of the rectangle is outside of `outer`. -/
structure Within (r outer : Rect) : Prop where
  left : outer.x ≤ r.x
  right : r.x + r.width ≤ outer.x + outer.width
  top : outer.y ≤ r.y
  bottom : r.y + r.height ≤ outer.y + outer.height

instance (r outer : Rect) : Decidable (r.Within outer) :=
  decidable_of_iff (outer.x ≤ r.x ∧ r.x + r.width ≤ outer.x + outer.width ∧ outer.y ≤ r.y ∧
      r.y + r.height ≤ outer.y + outer.height)
    ⟨fun ⟨l, r, t, b⟩ => ⟨l, r, t, b⟩, fun ⟨l, r, t, b⟩ => ⟨l, r, t, b⟩⟩

theorem Within.covers {r outer : Rect} (h : r.Within outer) {x y : Int} (hxy : r.Covers x y) :
    outer.Covers x y := by
  have := h.left
  have := h.right
  have := h.top
  have := h.bottom
  unfold Covers at hxy ⊢
  omega

/-- The rectangles share no point. -/
def Apart (r q : Rect) : Prop := ∀ x y, ¬ (r.Covers x y ∧ q.Covers x y)

theorem Within.apart {r q r' q' : Rect} (h : r'.Apart q') (hr : r.Within r') (hq : q.Within q') :
    r.Apart q :=
  fun x y hboth => h x y ⟨hr.covers hboth.1, hq.covers hboth.2⟩

end Rect

namespace Axis

/-- The position on the axis. -/
def mainPos : Axis → Rect → Int
  | .horizontal, r => r.x
  | .vertical, r => r.y

def crossEnd : Axis → Sides → Int
  | .horizontal, s => s.bottom
  | .vertical, s => s.right

theorem mainSides_eq_ok {a : Axis} {s : Sides} {n : Int} (h : a.mainSides s = .ok n) :
    n = a.mainStart s + a.mainEnd s := by
  cases a
  · exact Sides.horizontal_eq_ok h
  · exact Sides.vertical_eq_ok h

theorem mainStart_nonneg {s : Sides} (h : s.Nonneg) (a : Axis) : 0 ≤ a.mainStart s := by
  cases a
  · exact h.left
  · exact h.top

theorem mainEnd_nonneg {s : Sides} (h : s.Nonneg) (a : Axis) : 0 ≤ a.mainEnd s := by
  cases a
  · exact h.right
  · exact h.bottom

@[simp] theorem mainPos_rect (a : Axis) (mp cp m c : Int) : a.mainPos (a.rect mp cp m c) = mp := by
  cases a <;> rfl

@[simp] theorem main_size_rect (a : Axis) (mp cp m c : Int) :
    a.main (a.rect mp cp m c).size = m := by
  cases a <;> rfl

end Axis

namespace Bounds

structure Nonneg (b : Bounds) : Prop where
  least : ∀ n ∈ b.least?, 0 ≤ n
  greatest : ∀ n ∈ b.greatest?, 0 ≤ n

instance (b : Bounds) : Decidable b.Nonneg :=
  decidable_of_iff ((∀ n ∈ b.least?, 0 ≤ n) ∧ ∀ n ∈ b.greatest?, 0 ≤ n)
    ⟨fun ⟨l, g⟩ => ⟨l, g⟩, fun ⟨l, g⟩ => ⟨l, g⟩⟩

/-- The lower bound, and zero without one. -/
def floor (b : Bounds) : Int := b.least?.getD 0

theorem floor_nonneg {b : Bounds} (h : b.Nonneg) : 0 ≤ b.floor := by
  unfold floor
  cases hl : b.least? with
  | none => exact Int.le_refl 0
  | some n => exact h.least n hl

theorem constrain_nonneg {b : Bounds} (h : b.Nonneg) {n : Int} (hn : 0 ≤ n) :
    0 ≤ b.constrain n := by
  rcases b with ⟨_ | lo, _ | hi⟩
  · exact hn
  · have := h.greatest hi rfl
    simp only [constrain, Option.elim]
    omega
  · have := h.least lo rfl
    simp only [constrain, Option.elim]
    omega
  · have := h.least lo rfl
    simp only [constrain, Option.elim]
    omega

theorem floor_le_constrain {b : Bounds} (h : b.Nonneg) {n : Int} (hn : 0 ≤ n) :
    b.floor ≤ b.constrain n := by
  have hnonneg := constrain_nonneg h hn
  rcases b with ⟨_ | lo, _ | hi⟩
  · exact hnonneg
  · exact hnonneg
  · simp only [floor, constrain, Option.elim, Option.getD_some]
    omega
  · simp only [floor, constrain, Option.elim, Option.getD_some]
    omega

/-- What raises a length is the lower bound. -/
theorem constrain_eq_floor_of_lt {b : Bounds} {n : Int} (h : n < b.constrain n) :
    b.constrain n = b.floor := by
  rcases b with ⟨_ | lo, _ | hi⟩ <;> simp only [floor, constrain, Option.elim, Option.getD_some,
    Option.getD_none] at h ⊢ <;> omega

theorem least_le_constrain {b : Bounds} {lo : Int} (h : b.least? = some lo) (n : Int) :
    lo ≤ b.constrain n := by
  simp only [constrain, h, Option.elim]
  omega

/-- `n` is within the bounds. -/
def Admits (b : Bounds) (n : Int) : Prop := b.constrain n = n

instance (b : Bounds) (n : Int) : Decidable (b.Admits n) := inferInstanceAs (Decidable (_ = _))

/-- The greatest length within the bounds: the upper bound, or the lower one where that is above
it. -/
def ceiling? (b : Bounds) : Option Int := b.greatest?.map b.constrain

/-- At least the lower bound, and at most the upper one unless they conflict. -/
theorem admits_iff {b : Bounds} {n : Int} :
    b.Admits n ↔ (∀ lo ∈ b.least?, lo ≤ n) ∧ ∀ hi ∈ b.greatest?, n ≤ hi ∨ b.least? = some n := by
  rcases b with ⟨_ | lo, _ | hi⟩
  all_goals
    simp only [Admits, constrain, Option.elim_none, Option.elim_some, Option.mem_def,
      Option.some.injEq, forall_eq', reduceCtorEq, false_implies, implies_true, true_and, and_true,
      or_false]
  all_goals omega

theorem admits_constrain (b : Bounds) (n : Int) : b.Admits (b.constrain n) :=
  constrain_constrain b n

theorem admits_least {b : Bounds} {lo : Int} (h : b.least? = some lo) : b.Admits lo := by
  simp [admits_iff, h]

theorem admits_floor {b : Bounds} (h : ∀ hi ∈ b.greatest?, 0 ≤ hi) : b.Admits b.floor := by
  rw [admits_iff, floor]
  cases hl : b.least? <;> simp_all

/-- What lies between the lower bound and an admitted length is admitted. -/
theorem Admits.of_le {b : Bounds} {m n : Int} (h : b.Admits m) (hle : n ≤ m)
    (hleast : ∀ lo ∈ b.least?, lo ≤ n) : b.Admits n := by
  obtain ⟨hlow, hhigh⟩ := admits_iff.1 h
  refine admits_iff.2 ⟨hleast, fun hi hhi => ?_⟩
  rcases hhigh hi hhi with hmax | hmin
  · exact .inl (by omega)
  · have := hleast m hmin
    exact .inr (by rw [hmin, show n = m by omega])

/-- The bounds with zero for a missing lower bound: those of a length that is stretched. -/
def grounded (b : Bounds) : Bounds := ⟨some b.floor, b.greatest?⟩

/-- A stretched length keeps to the bounds themselves: it stops at zero at the least, which is not
above the upper bound. -/
theorem admits_grounded {b : Bounds} (h : ∀ hi ∈ b.greatest?, 0 ≤ hi) (n : Int) :
    b.Admits (b.grounded.constrain n) := by
  rcases b with ⟨_ | lo, cap?⟩
  · obtain ⟨-, hcapped⟩ := admits_iff.1 (admits_constrain ⟨some 0, cap?⟩ n)
    refine admits_iff.2 ⟨by simp, fun hi hhi => .inl ?_⟩
    rcases hcapped hi hhi with hle | hzero
    · exact hle
    · exact Option.some.inj hzero ▸ h hi hhi
  · exact admits_constrain ⟨some lo, cap?⟩ n

theorem constrain_mono {b : Bounds} {m n : Int} (h : m ≤ n) : b.constrain m ≤ b.constrain n := by
  rcases b with ⟨_ | lo, _ | hi⟩ <;> simp [constrain] <;> omega

/-- What is raised for a length is raised for every smaller one. -/
theorem lt_constrain_of_le {b : Bounds} {m n : Int} (h : n < b.constrain n) (hle : m ≤ n) :
    m < b.constrain m := by
  rcases b with ⟨_ | lo, _ | hi⟩ <;> simp [constrain] at h ⊢ <;> omega

theorem constrain_lt_of_le {b : Bounds} {m n : Int} (h : b.constrain m < m) (hle : m ≤ n) :
    b.constrain n < n := by
  rcases b with ⟨_ | lo, _ | hi⟩ <;> simp [constrain] at h ⊢ <;> omega

/-- What is raised becomes the least length within the bounds. -/
theorem constrain_le_of_lt {b : Bounds} {m n : Int} (h : m < b.constrain m) (hn : b.Admits n) :
    b.constrain m ≤ n := by
  rcases b with ⟨_ | lo, _ | hi⟩ <;> simp [Admits, constrain] at h hn ⊢ <;> omega

/-- What is lowered becomes the greatest length within the bounds. -/
theorem le_constrain_of_lt {b : Bounds} {m n : Int} (h : b.constrain m < m) (hn : b.Admits n) :
    n ≤ b.constrain m := by
  rcases b with ⟨_ | lo, _ | hi⟩ <;> simp [Admits, constrain] at h hn ⊢ <;> omega

theorem ceiling?_of_lt {b : Bounds} {n : Int} (h : b.constrain n < n) :
    b.ceiling? = some (b.constrain n) := by
  rcases b with ⟨_ | lo, _ | hi⟩ <;> simp [ceiling?, constrain] at h ⊢ <;> omega

theorem constrain_le_ceiling {b : Bounds} {c : Int} (h : b.ceiling? = some c) (n : Int) :
    b.constrain n ≤ c := by
  rcases b with ⟨_ | lo, _ | hi⟩ <;> simp [ceiling?, constrain] at h ⊢ <;> omega

end Bounds

end Trellis
