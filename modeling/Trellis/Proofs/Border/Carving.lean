import Trellis.Layout.Border
import Trellis.Proofs.Margins
import Trellis.Proofs.Totals

/-!
# Cutting a strip off an area

A strip is a rectangle grown by its margins, and a bar. As long as both lie within the area, strip
and rest make up the area, and share no point.

* `carved`: the strip that `carve` cuts, with every edge in its place.
* `carved_splits`: every point of the area lies in the strip or in the rest, and in only one of
  them.
* `inset_grow`: a rectangle set into an area fills it again once it is grown.
-/
namespace Trellis

/-- The axis along which the regions at an edge take space. -/
def Edge.axis : Edge → Axis
  | .north | .south => .vertical
  | .west | .east => .horizontal

namespace Border

/-- The points of `area` are those of `part` and those of `rest`, and no point is both. -/
def Splits (area : Rect) (part : Int → Int → Prop) (rest : Rect) : Prop :=
  ∀ x y, (area.Covers x y ↔ part x y ∨ rest.Covers x y) ∧ ¬ (part x y ∧ rest.Covers x y)

theorem Splits.nothing (area : Rect) : Splits area (fun _ _ => False) area :=
  fun _ _ => ⟨by simp, by simp⟩

/-- Each of the parts in turn is split off what is left of `area`, and in the end `rest` is. -/
def SplitsAll (part : Edge → Int → Int → Prop) : List Edge → (area rest : Rect) → Prop
  | [], area, rest => rest = area
  | e :: edges, area, rest => ∃ left, Splits area (part e) left ∧ SplitsAll part edges left rest

namespace SplitsAll

variable {part : Edge → Int → Int → Prop} {edges : List Edge} {area rest : Rect} {x y : Int}

theorem covers (h : SplitsAll part edges area rest) :
    area.Covers x y ↔ (∃ e ∈ edges, part e x y) ∨ rest.Covers x y := by
  induction edges generalizing area with
  | nil =>
    cases h
    simp
  | cons e edges ih =>
    obtain ⟨left, hsplits, h⟩ := h
    rw [(hsplits x y).1, ih h]
    simp only [List.mem_cons, exists_eq_or_imp, or_assoc]

/-- What is split off is not left. -/
theorem not_rest (h : SplitsAll part edges area rest) {e : Edge} (he : e ∈ edges)
    (hpart : part e x y) : ¬ rest.Covers x y := by
  induction edges generalizing area with
  | nil => cases he
  | cons f edges ih =>
    obtain ⟨left, hsplits, h⟩ := h
    rcases List.mem_cons.1 he with rfl | he
    · exact fun hrest => (hsplits x y).2 ⟨hpart, h.covers.2 (.inr hrest)⟩
    · exact ih h he

/-- No point is split off twice. -/
theorem unique (h : SplitsAll part edges area rest) {e f : Edge} (he : e ∈ edges) (hf : f ∈ edges)
    (hpart : part e x y) (hother : part f x y) : e = f := by
  induction edges generalizing area with
  | nil => cases he
  | cons g edges ih =>
    obtain ⟨left, hsplits, h⟩ := h
    rcases List.mem_cons.1 he with rfl | he'
    · rcases List.mem_cons.1 hf with rfl | hf'
      · rfl
      · exact absurd ⟨hpart, h.covers.2 (.inl ⟨f, hf', hother⟩)⟩ (hsplits x y).2
    · rcases List.mem_cons.1 hf with rfl | hf'
      · exact absurd ⟨hother, h.covers.2 (.inl ⟨e, he', hpart⟩)⟩ (hsplits x y).2
      · exact ih h he' hf'

end SplitsAll

/-- A strip cut off `area`, worked out without regard to the range of lengths. -/
def carved (area : Rect) (e : Edge) (thickness : Int) (m : Sides) (split : Int) : Strip :=
  let t := max thickness 0
  let width := max (area.width - (m.left + m.right)) 0
  let height := max (area.height - (m.top + m.bottom)) 0
  let across := t + (m.left + m.right) + split
  let down := t + (m.top + m.bottom) + split
  match e with
  | .north =>
    { rect := ⟨area.x + m.left, area.y + m.top, width, t⟩
      bar := ⟨area.x, area.y + m.top + t + m.bottom, area.width, split⟩
      rest := ⟨area.x, area.y + down, area.width, max (area.height - down) 0⟩ }
  | .south =>
    { rect := ⟨area.x + m.left, area.y + area.height - m.bottom - t, width, t⟩
      bar := ⟨area.x, area.y + area.height - m.bottom - t - m.top - split, area.width, split⟩
      rest := ⟨area.x, area.y, area.width, max (area.height - down) 0⟩ }
  | .west =>
    { rect := ⟨area.x + m.left, area.y + m.top, t, height⟩
      bar := ⟨area.x + m.left + t + m.right, area.y, split, area.height⟩
      rest := ⟨area.x + across, area.y, max (area.width - across) 0, area.height⟩ }
  | .east =>
    { rect := ⟨area.x + area.width - m.right - t, area.y + m.top, t, height⟩
      bar := ⟨area.x + area.width - m.right - t - m.left - split, area.y, split, area.height⟩
      rest := ⟨area.x, area.y, max (area.width - across) 0, area.height⟩ }

variable {area : Rect} {e : Edge} {thickness split : Int} {m : Sides} {strip : Strip}

/-- What is cut off with every length in its range is what is cut off without regard to it. -/
theorem carve_eq_ok (h : carve area e thickness m split = .ok strip) :
    strip = carved area e thickness m split := by
  cases e <;> simp only [carve, Sides.horizontal, Sides.vertical, Rect.bottom, Rect.right,
    Length.bind_eq_ok, Length.add_eq_ok, Length.sub_eq_ok, pure, Except.pure, Except.ok.injEq,
    and_assoc, exists_eq_left] at h
  case north | west =>
    obtain ⟨-, -, -, -, -, -, -, -, -, -, -, rfl⟩ := h
    rfl
  case south | east =>
    obtain ⟨-, -, -, -, -, -, -, -, -, -, -, -, rfl⟩ := h
    rfl

/-- How much of the area's length the strip takes, margins and bar included. -/
def Strip.depth (s : Strip) (e : Edge) (m : Sides) : Int :=
  e.axis.main (s.rect.grow m).size + e.axis.main s.bar.size

theorem depth_carved_nonneg (area : Rect) (e : Edge) (thickness : Int) (hm : m.Nonneg)
    (hsplit : 0 ≤ split) : 0 ≤ (carved area e thickness m split).depth e m := by
  have := hm.top
  have := hm.right
  have := hm.bottom
  have := hm.left
  cases e <;>
  · simp only [Strip.depth, carved, Edge.axis, Axis.main, Rect.size, Rect.grow]
    omega

/-- A strip takes what it takes off the area, and leaves it as wide as it was. -/
theorem carved_leaves (area : Rect) (e : Edge) (thickness : Int) (m : Sides) (split : Int) :
    e.axis.main (carved area e thickness m split).rest.size =
        max (e.axis.main area.size - (carved area e thickness m split).depth e m) 0 ∧
      e.axis.cross (carved area e thickness m split).rest.size = e.axis.cross area.size := by
  cases e <;>
  · refine ⟨?_, rfl⟩
    simp only [Strip.depth, carved, Edge.axis, Axis.main, Rect.size, Rect.grow]
    omega

/-- A strip and the rest make up the area, provided that the strip fits. -/
theorem carved_splits (hm : m.Nonneg) (hsplit : 0 ≤ split)
    (hfit : (carved area e thickness m split).depth e m ≤ e.axis.main area.size)
    (hcross : e.axis.crossStart m + e.axis.crossEnd m ≤ e.axis.cross area.size) :
    Splits area (fun x y => ((carved area e thickness m split).rect.grow m).Covers x y ∨
      (carved area e thickness m split).bar.Covers x y) (carved area e thickness m split).rest := by
  have := hm.top
  have := hm.right
  have := hm.bottom
  have := hm.left
  intro x y
  cases e <;>
  · simp only [Strip.depth, carved, Edge.axis, Axis.main, Axis.cross, Axis.crossStart,
      Axis.crossEnd, Rect.size, Rect.grow, Rect.Covers] at hfit hcross ⊢
    omega

/-- A rectangle that is set into an area by margins that fit fills the area once it is grown. -/
theorem inset_grow {rect : Rect} (hwidth : m.left + m.right ≤ area.width)
    (hheight : m.top + m.bottom ≤ area.height) (h : area.inset m = .ok rect) :
    rect.grow m = area := by
  simp only [Rect.inset, Sides.horizontal, Sides.vertical, Length.bind_eq_ok, Length.add_eq_ok,
    Length.sub_eq_ok, pure, Except.pure, Except.ok.injEq, and_assoc, exists_eq_left] at h
  obtain ⟨-, -, -, -, -, -, rfl⟩ := h
  simp only [Rect.grow]
  cases area
  simp only [Rect.mk.injEq] at hwidth hheight ⊢
  omega

end Border

end Trellis
