/-!
# Lengths in pixels

A length is a signed whole number of pixels that fits 32 bits. Lengths are kept as `Int`, so that
laws about them are laws of integer arithmetic, and every sum, difference, product or negation that
a layout forms is checked: a result outside the range abandons the computation with
`Fault.overflow` and never wraps. Where a layout prefers the nearest length it says so with
`saturate`.

* `add_eq_ok`, `sub_eq_ok`, `mul_eq_ok`: a checked operation gives the true result, and only when
  that result is a length.
* `saturate_of_fits`: a length is its own nearest length.
-/
namespace Trellis

/-- A component's position in its tree; the root has position 0. -/
abbrev ComponentId := Nat

/-- Why a computation was abandoned, leaving no usable state behind. -/
inductive Fault where
  /-- A length (or a count) left its range. -/
  | overflow
  /-- A component was asked for that the tree of `count` components does not have. -/
  | noSuchComponent (count : Nat) (id : ComponentId)
  /-- Components contain one another, so a walk through them has no end. -/
  | endlessNesting
  deriving DecidableEq, Repr

/-- A computation that may be abandoned. -/
abbrev Checked := Except Fault

namespace Fault

def message : Fault → String
  | .overflow => "arithmetic overflow"
  | .noSuchComponent count id =>
    s!"index out of bounds: the len is {count} but the index is {id}"
  | .endlessNesting => "components contain one another"

end Fault

namespace Length

def least : Int := -2147483648

def greatest : Int := 2147483647

/-- `x` is a length. -/
def Fits (x : Int) : Prop := least ≤ x ∧ x ≤ greatest

instance (x : Int) : Decidable (Fits x) := inferInstanceAs (Decidable (_ ∧ _))

/-- `x` itself if it is a length. -/
def checked (x : Int) : Checked Int := if Fits x then .ok x else .error .overflow

def add (a b : Int) : Checked Int := checked (a + b)

def sub (a b : Int) : Checked Int := checked (a - b)

def mul (a b : Int) : Checked Int := checked (a * b)

/-- The sum of `f` over `xs`, from left to right. -/
def total {α : Type} (f : α → Checked Int) (xs : List α) : Checked Int :=
  xs.foldlM (fun acc x => do add acc (← f x)) 0

/-- The length nearest to `x`. -/
def saturate (x : Int) : Int := max least (min x greatest)

theorem checked_eq_ok {x y : Int} : checked x = .ok y ↔ y = x ∧ Fits x := by
  unfold checked
  split <;> simp_all [eq_comm]

theorem add_eq_ok {a b c : Int} : add a b = .ok c ↔ c = a + b ∧ Fits (a + b) := checked_eq_ok

theorem sub_eq_ok {a b c : Int} : sub a b = .ok c ↔ c = a - b ∧ Fits (a - b) := checked_eq_ok

theorem mul_eq_ok {a b c : Int} : mul a b = .ok c ↔ c = a * b ∧ Fits (a * b) := checked_eq_ok

theorem bind_eq_ok {α β : Type} {x : Checked α} {f : α → Checked β} {b : β} :
    (x >>= f) = .ok b ↔ ∃ a, x = .ok a ∧ f a = .ok b := by
  cases x <;> simp [bind, Except.bind]

/-- A list of checked results is as long as the list it comes from. -/
theorem length_of_mapM_eq_ok {α β : Type} {f : α → Checked β} {xs : List α} {ys : List β}
    (h : xs.mapM f = .ok ys) : ys.length = xs.length := by
  induction xs generalizing ys with
  | nil => cases h; rfl
  | cons x xs ih =>
    rw [List.mapM_cons] at h
    obtain ⟨y, -, h⟩ := bind_eq_ok.1 h
    obtain ⟨zs, hz, h⟩ := bind_eq_ok.1 h
    cases h
    simp [ih hz]

theorem saturate_of_fits {x : Int} (h : Fits x) : saturate x = x := by
  unfold saturate; unfold Fits at h; omega

theorem fits_saturate (x : Int) : Fits (saturate x) := by
  unfold saturate Fits least greatest; omega

end Length

end Trellis
