import Trellis.Config.Basic
import Trellis.Proofs.Geometry

/-!
# Margins and padding are never negative

* `Spacing.nonneg_sides`: whatever is written, no side comes out negative.
* `ItemConfig.marginSides`, `LayoutConfig.paddingSides`: the margins of a component and the padding
  of a container.
-/
namespace Trellis

namespace Noted

variable {α β : Type}

/-- The value of a list that is read element by element. -/
@[simp] theorem value_mapM (f : α → Noted β) (xs : List α) :
    (xs.mapM f).value = xs.map fun x => (f x).value := by
  induction xs with
  | nil => rfl
  | cons x xs ih =>
    rw [List.mapM_cons, List.map_cons, ← ih]
    rfl

end Noted

namespace Spacing

theorem nonneg_expand {lengths : List Int} (h : ∀ n ∈ lengths, 0 ≤ n) :
    (expand lengths).Nonneg := by
  match lengths with
  | [] => exact ⟨by decide, by decide, by decide, by decide⟩
  | [a] => exact ⟨h a (by simp), h a (by simp), h a (by simp), h a (by simp)⟩
  | [a, b] => exact ⟨h a (by simp), h b (by simp), h a (by simp), h b (by simp)⟩
  | [a, b, c] => exact ⟨h a (by simp), h b (by simp), h c (by simp), h b (by simp)⟩
  | a :: b :: c :: d :: _ => exact ⟨h a (by simp), h b (by simp), h c (by simp), h d (by simp)⟩

theorem nonneg_sides (s : Spacing) : s.sides.value.Nonneg := by
  cases s with
  | number x =>
    have := Binary64.positiveWhole_nonneg x
    exact ⟨this, this, this, this⟩
  | text s =>
    show (expand ((((Text.tokens s.toList).take 4).mapM sideOfToken).value)).Nonneg
    refine nonneg_expand fun n hn => ?_
    rw [Noted.value_mapM] at hn
    obtain ⟨token, -, rfl⟩ := List.mem_map.1 hn
    exact sideOfToken_nonneg token

theorem nonneg_sidesOrZero (s : Option Spacing) : (sidesOrZero s).value.Nonneg := by
  cases s with
  | none => exact ⟨by decide, by decide, by decide, by decide⟩
  | some s => exact s.nonneg_sides

end Spacing

/-- The margins of a component, its own or those that the layout gives every child. -/
def ItemConfig.marginSides (c : ItemConfig) (layout : LayoutConfig) : Sides :=
  (match c.margins with
  | some own => own.sides
  | none => Spacing.sidesOrZero layout.defaultMargins).value

theorem ItemConfig.nonneg_marginSides (c : ItemConfig) (layout : LayoutConfig) :
    (c.marginSides layout).Nonneg := by
  unfold marginSides
  cases c.margins with
  | none => exact Spacing.nonneg_sidesOrZero _
  | some own => exact own.nonneg_sides

/-- The padding of a container. -/
def LayoutConfig.paddingSides (layout : LayoutConfig) : Sides :=
  (Spacing.sidesOrZero layout.padding).value

end Trellis
