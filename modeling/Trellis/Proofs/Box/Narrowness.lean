import Trellis.Proofs.Box.Containment

/-!
# What a line that is too narrow takes

A line is too narrow when the floors of its children, with the margins, exceed the space. The floor
of a child that shares leftover space is zero without a lower bound, and so it counts in
`minimumMain`, from which overflow is worked out. But a line that is too narrow gives every child
without a lower bound its own length, whether it shares leftover space or not. What such a child
gets beyond its floor is its overhang, and by the overhangs the line takes more than `minimumMain`
says.

* `Request.narrowMain_eq`: the floor and the overhang.
* `solve_overhangs`: a line that is too narrow takes its least length and the overhangs, so its
  children are at their floors only if no child that shares leftover space hangs over.
-/
namespace Trellis.Box

variable {ω : Type} [Weight ω]

namespace Request

/-- What a child gets beyond its floor in a line that is too narrow. -/
def overhang (r : Request ω) (a : Axis) : Int :=
  if r.isFlexed a = true ∧ (r.mainBounds a).least? = none then r.resolvedMain a else 0

theorem narrowMain_eq (r : Request ω) (a : Axis) :
    r.narrowMain a = r.floorMain a + r.overhang a := by
  unfold narrowMain floorMain overhang
  cases hleast : (r.mainBounds a).least? with
  | some lo => simp
  | none => cases hflexed : r.isFlexed a <;> simp

/-- Only a child that shares leftover space and has no lower bound hangs over. -/
theorem overhang_eq_zero_iff {r : Request ω} {a : Axis} : r.overhang a = 0 ↔
    (r.isFlexed a = true → (r.mainBounds a).least? = none → r.resolvedMain a = 0) := by
  unfold overhang
  split
  · next h => exact ⟨fun hzero _ _ => hzero, fun hzero => hzero h.1 h.2⟩
  · next h => exact ⟨fun _ hflexed hleast => absurd ⟨hflexed, hleast⟩ h, fun _ => rfl⟩

theorem overhang_nonneg {r : Request ω} (h : r.Nonneg) (a : Axis) : 0 ≤ r.overhang a := by
  unfold overhang
  split
  · exact resolvedMain_nonneg h a
  · exact Int.le_refl 0

end Request

theorem sum_narrowMain (a : Axis) (boxes : List (Request ω)) :
    (boxes.map fun r => r.narrowMain a).sum =
      (boxes.map fun r => r.floorMain a).sum + (boxes.map fun r => r.overhang a).sum := by
  rw [← List.sum_map_add]
  exact congrArg List.sum (List.map_congr_left fun r _ => r.narrowMain_eq a)

variable {boxes : List (Request ω)} {space : Space} {solution : Solution}

/-- The children of a line are at their floors, and it takes the length it cannot do without. -/
structure AtFloors (a : Axis) (boxes : List (Request ω)) (solution : Solution) : Prop where
  mains : (solution.rects.map fun rect => a.main rect.size) = boxes.map fun r => r.floorMain a
  used : solution.usedMain a boxes = .ok solution.summary.minimumMain

/-- In a line that is too narrow every child has its floor and its overhang, and the line takes its
least length and all the overhangs. So the children are at their floors exactly if each of them that
shares leftover space has a lower bound or no length of its own. -/
theorem solve_overhangs (h : solve boxes space = .ok solution)
    (hnarrow : solution.summary.tooNarrow = true) :
    (solution.rects.map fun rect => space.axis.main rect.size) =
        (boxes.map fun r => r.floorMain space.axis + r.overhang space.axis) ∧
      solution.usedMain space.axis boxes =
        .ok (solution.summary.minimumMain + (boxes.map fun r => r.overhang space.axis).sum) ∧
      (AtFloors space.axis boxes solution ↔
        ∀ r ∈ boxes, r.isFlexed space.axis = true → (r.mainBounds space.axis).least? = none →
          r.resolvedMain space.axis = 0) := by
  have hne : boxes ≠ [] := by
    rintro rfl
    cases h
    exact absurd hnarrow (by decide)
  obtain ⟨inner, used, -, hsummary, hmains, hused⟩ := mains_of_solve hne h
  have hlength := length_mains hmains
  have hminimum := (totals_of_summarize hsummary).minimumMain
  rw [mains, if_pos hnarrow, Except.ok.injEq] at hmains
  have hlengths : (solution.rects.map fun rect => space.axis.main rect.size) =
      boxes.map fun r => r.floorMain space.axis + r.overhang space.axis := by
    rw [← hmains]
    exact List.map_congr_left fun r _ => r.narrowMain_eq space.axis
  have hsum : used =
      solution.summary.minimumMain + (boxes.map fun r => r.overhang space.axis).sum := by
    rw [List.sum_map_add] at hminimum
    rw [used_eq_ok hlength hused, ← hmains, sum_narrowMain]
    omega
  rw [hsum] at hused
  refine ⟨hlengths, hused, ?own, ?floors⟩
  case own =>
    intro hfloors r hr
    have heq := hlengths.symm.trans hfloors.mains
    rw [List.map_inj_left] at heq
    have := heq r hr
    exact Request.overhang_eq_zero_iff.1 (by omega)
  case floors =>
    intro hown
    have hzero : ∀ r ∈ boxes, r.overhang space.axis = 0 :=
      fun r hr => Request.overhang_eq_zero_iff.2 (hown r hr)
    refine ⟨?_, ?_⟩
    · rw [hlengths]
      exact List.map_congr_left fun r hr => by rw [hzero r hr, Int.add_zero]
    · rw [hused, List.map_congr_left hzero]
      simp

/-- The margin boxes of a line that is too narrow stand side by side from the padding on, however
the line is packed. -/
theorem abut_of_narrow (hnonneg : ∀ r ∈ boxes, r.Nonneg) (h : solve boxes space = .ok solution)
    (hnarrow : solution.summary.tooNarrow = true) :
    Abut (space.axis.mainStart space.padding) (outerSpans space.axis solution.rects boxes)
      (space.axis.mainStart space.padding + (solution.summary.minimumMain +
        (boxes.map fun r => r.overhang space.axis).sum)) := by
  have hne : boxes ≠ [] := by
    rintro rfl
    cases h
    exact absurd hnarrow (by decide)
  obtain ⟨inner, _, lengths, used, start, -, -, hsummary, hlengths, hused, rfl, hrects⟩ :=
    solve_eq_ok hne h
  have htotals := totals_of_summarize hsummary
  have hminimum := htotals.minimumMain
  rw [mains, if_pos hnarrow, Except.ok.injEq] at hlengths
  subst hlengths
  have hlength : (boxes.map fun r => r.narrowMain space.axis).length = boxes.length :=
    List.length_map ..
  have hsum : used =
      solution.summary.minimumMain + (boxes.map fun r => r.overhang space.axis).sum := by
    rw [List.sum_map_add] at hminimum
    rw [used_eq_ok hlength hused, sum_narrowMain]
    omega
  -- nothing is left of the space, so that the line is not moved from its start
  have hover : 0 ≤ (boxes.map fun r => r.overhang space.axis).sum := by
    refine List.sum_nonneg fun n hn => ?_
    obtain ⟨r, hr, rfl⟩ := List.mem_map.1 hn
    exact Request.overhang_nonneg (hnonneg r hr) space.axis
  have hshort : inner < solution.summary.minimumMain := by
    rw [htotals.tooNarrow, decide_eq_true_eq] at hnarrow
    exact hnarrow
  have hpack := packOffset_mem (Int.le_refl 0) space.pack
  rw [show max (inner - used) 0 = 0 by omega, show packOffset 0 space.pack = 0 by omega,
    Int.add_zero] at hrects
  have habut := abut_place (fun item hitem => ?_) hrects
  · rw [List.map_snd_zip (Nat.le_of_eq hlength.symm), sum_outer_zip hlength,
      ← used_eq_ok hlength hused, hsum] at habut
    exact habut
  · obtain ⟨hmain, hr⟩ := List.of_mem_zip hitem
    obtain ⟨r, hmem, heq⟩ := List.mem_map.1 hmain
    rw [← heq, Request.narrowMain_eq]
    exact ⟨Int.add_nonneg (Request.floorMain_nonneg (hnonneg r hmem) _)
        (Request.overhang_nonneg (hnonneg r hmem) _),
      Request.mainMargin_nonneg (hnonneg _ hr) _⟩

/-- A child of 70 pixels that shares leftover space, before one of 100 pixels. -/
def overhungLine : List (Request Nat) :=
  [⟨none, none, ⟨70, 20⟩, ⟨none, none⟩, ⟨none, none⟩, 1, .zero⟩,
    ⟨some 100, some 20, ⟨0, 0⟩, ⟨none, none⟩, ⟨none, none⟩, 0, .zero⟩]

/-- In 80 pixels the line is too narrow for the 100 it cannot do without, and it takes 170. -/
theorem overhungLine_overhangs :
    ∃ solution, solve overhungLine ⟨.horizontal, ⟨80, 20⟩, .start, .start, .zero⟩ = .ok solution ∧
      solution.summary.tooNarrow = true ∧ solution.summary.minimumMain = 100 ∧
      solution.usedMain .horizontal overhungLine = .ok 170 ∧
      ¬ AtFloors .horizontal overhungLine solution := by
  have h : solve overhungLine ⟨.horizontal, ⟨80, 20⟩, .start, .start, .zero⟩ =
      .ok ⟨[⟨0, 0, 70, 20⟩, ⟨70, 0, 100, 20⟩], ⟨20, 100, 0, 100, 100, 20, true⟩⟩ := by
    decide +kernel
  obtain ⟨-, hused, hfloors⟩ := solve_overhangs h rfl
  refine ⟨_, h, rfl, rfl, hused, fun hall => ?_⟩
  exact absurd (hfloors.1 hall _ (.head _) rfl rfl) (by decide)

end Trellis.Box
