import Mathlib.Tactic.Linarith
import Trellis.Proofs.Box.Containment

/-!
# A shortfall is taken up evenly

Along the walk over the children, what is still short is spread over those still to come. A child
takes the smaller of its part and its slack, so the least that the others must give, a whole number
for each of them, never goes down (`le_given`). A child that keeps some of its slack comes before
children that have at least as much, and none of those has to give more than it did (`given_le`).

* `even_shrink`: a child gives at most one pixel more than one that could give more.
* `giveWay_tightMains`: the main lengths of a line that is short, child by child.
* `solve_tight`: a line that is short, but not too narrow, fills its space exactly and evenly.
-/
namespace Trellis.Box

open Shrinkable (Gives room)

/-! ## Parts -/

section

variable {short part bound others : Int}

/-- Where everyone has `bound` to give, the next part is at least that, and leaves that much for
everyone else. -/
theorem le_part (hothers : 0 ≤ others) (hge : short ≤ (others + 1) * part)
    (hlt : (others + 1) * part < short + (others + 1)) (hbound : (others + 1) * bound ≤ short) :
    bound ≤ part ∧ others * bound ≤ short - part := by
  have hle : bound ≤ part :=
    Int.le_of_mul_le_mul_left (Int.le_trans hbound hge) (by omega)
  refine ⟨hle, ?_⟩
  by_contra hcon
  have hextra := Int.mul_nonneg hothers (show 0 ≤ short - (others + 1) * bound by omega)
  nlinarith

/-- Where no one has more than `bound` to give, the next part is at most that, and leaves no more
for everyone else. -/
theorem part_le (hothers : 0 ≤ others) (hge : short ≤ (others + 1) * part)
    (hlt : (others + 1) * part < short + (others + 1)) (hbound : short ≤ (others + 1) * bound) :
    part ≤ bound ∧ short - part ≤ others * bound := by
  have hle : part ≤ bound := by
    by_contra hcon
    have := Int.mul_le_mul_of_nonneg_left (show bound + 1 ≤ part by omega)
      (show 0 ≤ others + 1 by omega)
    rw [Int.mul_add] at this
    omega
  have hrest := Int.mul_le_mul_of_nonneg_left hle hothers
  rw [Int.add_mul] at hge
  exact ⟨hle, by omega⟩

end

/-! ## The walk -/

variable {short : Int} {children : List Shrinkable} {grants : List Grant}

/-- When nothing is short, no one gives anything. -/
theorem length_eq_of_shrink (hshort : short ≤ 0) (h : shrink short children = .ok grants)
    {s : Shrinkable} {g : Grant} (hmem : (s, g) ∈ children.zip grants) : g.length = s.length := by
  cases children with
  | nil => cases hmem
  | cons t rest =>
    rw [shrink, if_pos hshort] at h
    cases h
    obtain ⟨i, hi, hget⟩ := List.getElem_of_mem hmem
    rw [List.getElem_zip, List.getElem_map] at hget
    cases hget
    rfl

/-- When at least `least` is short for each child, everyone gives that much or all it has. -/
theorem le_given {least : Int} (hleast : 0 ≤ least) (hshort : children.length * least ≤ short)
    (h : shrink short children = .ok grants) {s : Shrinkable} {g : Grant}
    (hmem : (s, g) ∈ children.zip grants) (hspare : s.floor < g.length) :
    least ≤ s.length - g.length := by
  induction children generalizing short grants with
  | nil => cases hmem
  | cons t rest ih =>
    rw [List.length_cons, Int.natCast_add, Int.natCast_one] at hshort
    have hothers : (0 : Int) ≤ rest.length := Int.natCast_nonneg _
    by_cases h0 : short ≤ 0
    · have := Int.mul_nonneg hothers hleast
      rw [Int.add_mul] at hshort
      rw [length_eq_of_shrink h0 h hmem]
      omega
    · obtain ⟨part, granted, hge, hlt, hpos, -, hrest, rfl⟩ := shrink_cons_eq_ok (by omega) h
      obtain ⟨hpart, hleft⟩ := le_part hothers hge hlt hshort
      rcases List.mem_cons.1 hmem with heq | hmem
      · cases heq
        simp only [Shrinkable.grant, room] at hspare ⊢
        omega
      · exact ih (Int.le_trans hleft (by omega)) hrest hmem

/-- When at most `most` is short for each child, and everyone has that much, no one gives more. -/
theorem given_le {most : Int} (hmost : 0 ≤ most) (hroom : ∀ s ∈ children, most ≤ s.room)
    (hshort : short ≤ children.length * most) (h : shrink short children = .ok grants)
    {s : Shrinkable} {g : Grant} (hmem : (s, g) ∈ children.zip grants) :
    s.length - g.length ≤ most := by
  induction children generalizing short grants with
  | nil => cases hmem
  | cons t rest ih =>
    rw [List.length_cons, Int.natCast_add, Int.natCast_one] at hshort
    by_cases h0 : short ≤ 0
    · rw [length_eq_of_shrink h0 h hmem]
      omega
    · obtain ⟨part, granted, hge, hlt, hpos, -, hrest, rfl⟩ := shrink_cons_eq_ok (by omega) h
      obtain ⟨hpart, hleft⟩ := part_le (Int.natCast_nonneg _) hge hlt hshort
      have hgiven : min part t.room = part := by
        have := hroom t (by simp)
        omega
      rw [hgiven] at hmem hrest
      rcases List.mem_cons.1 hmem with heq | hmem
      · cases heq
        simp only [Shrinkable.grant]
        omega
      · exact ih (fun u hu => hroom u (by simp [hu])) hleft hrest hmem

/-- In ascending order of slack, no child gives more than one pixel more than a child that has
some of its slack left. -/
theorem even_shrink (hsorted : children.Pairwise fun s t => s.room ≤ t.room)
    (h : shrink short children = .ok grants) {s t : Shrinkable} {f g : Grant}
    (hs : (s, f) ∈ children.zip grants) (ht : (t, g) ∈ children.zip grants)
    (hspare : t.floor < g.length) : s.length - f.length ≤ t.length - g.length + 1 := by
  induction children generalizing short grants with
  | nil => cases hs
  | cons c rest ih =>
    obtain ⟨hfirst, hsorted'⟩ := List.pairwise_cons.1 hsorted
    by_cases h0 : short ≤ 0
    · rw [length_eq_of_shrink h0 h hs, length_eq_of_shrink h0 h ht]
      omega
    · have hwalk := h
      obtain ⟨part, granted, hge, hlt, hpos, -, hrest, rfl⟩ := shrink_cons_eq_ok (by omega) h
      rcases List.mem_cons.1 hs with heq | hs'
      · -- the first child gives no more than its part, and all others almost as much
        cases heq
        have hleast : ((s :: rest).length : Int) * (part - 1) ≤ short := by
          rw [List.length_cons, Int.natCast_add, Int.natCast_one, Int.mul_sub]
          omega
        have := le_given (by omega) hleast hwalk ht hspare
        simp only [Shrinkable.grant]
        omega
      · rcases List.mem_cons.1 ht with heq | ht'
        · -- the first child has slack left, so everyone after it can give a whole part
          cases heq
          simp only [Shrinkable.grant, room] at hspare ⊢
          have hgiven : min part t.room = part := by
            unfold room
            omega
          rw [hgiven] at hrest
          rw [Int.add_mul] at hge
          have hrooms : ∀ u ∈ rest, part ≤ u.room := fun u hu => by
            have := hfirst u hu
            omega
          have := given_le (by omega) hrooms (by omega) hrest hs'
          omega
        · exact ih hsorted' hrest hs' ht'

/-! ## Lines -/

variable {ω : Type} [Weight ω] {a : Axis} {boxes : List (Request ω)} {lengths : List Int}

/-- What becomes of the children of a line when they have to give way. -/
structure GiveWay (a : Axis) (boxes : List (Request ω)) (lengths : List Int) : Prop where
  length_eq : lengths.length = boxes.length
  /-- Children that would share leftover space are at their floor. -/
  flexed : ∀ e ∈ lengths.zip boxes, e.2.isFlexed a = true → e.1 = e.2.floorMain a
  /-- All others stand between their floor and their own length. -/
  fixed : ∀ e ∈ lengths.zip boxes, e.2.isFlexed a = false →
    e.2.floorMain a ≤ e.1 ∧ e.1 ≤ e.2.resolvedMain a
  /-- No one gives more than one pixel more than one that is above its floor. -/
  even : ∀ e ∈ lengths.zip boxes, ∀ f ∈ lengths.zip boxes,
    e.2.isFlexed a = false → f.2.isFlexed a = false → f.2.floorMain a < f.1 →
    e.2.resolvedMain a - e.1 ≤ f.2.resolvedMain a - f.1 + 1

/-- A child with a length of its own has a place in the walk, and gets what is granted there. -/
theorem exists_granted {ordered : List Shrinkable} (hperm : ordered.Perm (shrinkables a boxes))
    (hgives : List.Forall₂ Gives ordered grants) {r : Request ω} {i : Nat}
    (hmem : (r, i) ∈ boxes.zipIdx) (hfixed : r.isFlexed a = false) (otherwise : Int) :
    ∃ g, (⟨i, r.resolvedMain a, r.floorMain a⟩, g) ∈ ordered.zip grants ∧
      granted grants i otherwise = g.length := by
  obtain ⟨hlength, hall⟩ := List.forall₂_iff_zip.1 hgives
  have hordered : ⟨i, r.resolvedMain a, r.floorMain a⟩ ∈ ordered :=
    hperm.mem_iff.2 (List.mem_map.2 ⟨(r, i), List.mem_filter.2 ⟨hmem, by simp [hfixed]⟩, rfl⟩)
  obtain ⟨k, hk, hget⟩ := List.getElem_of_mem hordered
  have hzip : (ordered[k], grants[k]) ∈ ordered.zip grants :=
    List.mem_iff_getElem.2 ⟨k, by rw [List.length_zip]; omega, List.getElem_zip⟩
  have hnodup : (grants.map Grant.index).Nodup := by
    rw [index_of_gives hgives, (hperm.map _).nodup_iff, shrinkables, List.map_map]
    exact nodup_snd_filter_zipIdx _ boxes
  have hindex : grants[k].index = i := by rw [(hall hzip).index, hget]
  refine ⟨grants[k], hget ▸ hzip, ?_⟩
  rw [← hindex]
  exact granted_of_mem hnodup (List.getElem_mem _) otherwise

/-- In a line that is short, children with a length of their own give way evenly, and all others
are at their floor. -/
theorem giveWay_tightMains (h : tightMains a short boxes = .ok lengths) :
    GiveWay a boxes lengths := by
  obtain ⟨ordered, hordered, h⟩ := Length.bind_eq_ok.1 h
  obtain ⟨grants, hgrants, h⟩ := Length.bind_eq_ok.1 h
  cases h
  have hperm := perm_bySlack hordered
  have hsorted := pairwise_bySlack hordered
  have hgives := gives_shrink
    (fun c hc => room_shrinkables_nonneg (hperm.mem_iff.1 hc)) hgrants
  have hplace := fun {r : Request ω} {i : Nat} (hmem : (r, i) ∈ boxes.zipIdx) hfixed =>
    exists_granted hperm hgives hmem hfixed (r.resolvedMain a)
  refine ⟨by rw [List.length_map, List.length_zipIdx], ?flexed, ?fixed, ?even⟩
  case flexed =>
    intro e he hflexed
    obtain ⟨i, -, heq⟩ := exists_of_mem_zip he
    dsimp only at heq
    rwa [if_pos hflexed] at heq
  case fixed =>
    intro e he hfixed
    obtain ⟨i, hmem, heq⟩ := exists_of_mem_zip he
    obtain ⟨g, hg, hgranted⟩ := hplace hmem hfixed
    dsimp only at heq
    rw [if_neg (by simp [hfixed]), hgranted] at heq
    have hgive := (List.forall₂_iff_zip.1 hgives).2 hg
    exact ⟨heq ▸ hgive.floor, heq ▸ hgive.length⟩
  case even =>
    intro e he f hf hefixed hffixed hspare
    obtain ⟨i, hmem, heq⟩ := exists_of_mem_zip he
    obtain ⟨j, hmem', heq'⟩ := exists_of_mem_zip hf
    obtain ⟨g, hg, hgranted⟩ := hplace hmem hefixed
    obtain ⟨g', hg', hgranted'⟩ := hplace hmem' hffixed
    dsimp only at heq heq'
    rw [if_neg (by simp [hefixed]), hgranted] at heq
    rw [if_neg (by simp [hffixed]), hgranted'] at heq'
    rw [heq, heq']
    exact even_shrink hsorted hgrants hg hg' (heq' ▸ hspare)

/-- A line that is short, but not too narrow, takes exactly the space between the paddings, and its
children give way evenly. -/
theorem solve_tight {space : Space} {solution : Solution} (h : solve boxes space = .ok solution)
    (hfits : solution.summary.tooNarrow = false) (hshort : 0 < solution.summary.shortfall) :
    ∃ inner, space.innerMain = .ok inner ∧
      solution.usedMain space.axis boxes = .ok inner ∧
      GiveWay space.axis boxes (solution.rects.map fun rect => space.axis.main rect.size) := by
  have hne : boxes ≠ [] := by
    rintro rfl
    cases h
    exact absurd hshort (by decide)
  obtain ⟨inner, innerCross, lengths, used, start, hinner, -, hsummary, hlengths, hused, -,
    hrects⟩ := solve_eq_ok hne h
  have htotals := totals_of_summarize hsummary
  have hminimum : solution.summary.minimumMain ≤ inner := by
    have := htotals.tooNarrow
    rw [hfits] at this
    simpa using this.symm
  have hlength := length_mains hlengths
  rw [mains, if_neg (by simp [hfits]), if_pos hshort] at hlengths
  have hmains : (solution.rects.map fun rect => space.axis.main rect.size) = lengths := by
    rw [map_main_place hrects]
    exact List.map_fst_zip (by omega)
  have hexact : used = inner := by
    rw [used_eq_ok hlength hused]
    exact sum_tightMains htotals hminimum hshort hlengths
  refine ⟨inner, hinner, ?_, ?_⟩
  · rw [Solution.usedMain, hmains, hused, hexact]
  · rw [hmains]
    exact giveWay_tightMains hlengths

/-- Three children of 40, 30 and 35 pixels that can be shortened to 10, 28 and 0, and, before the
last, one that shares leftover space and has at least 4 pixels. -/
def crampedLine : List (Request Nat) :=
  [⟨some 40, none, ⟨5, 5⟩, ⟨some 10, none⟩, ⟨none, none⟩, 0, ⟨0, 2, 0, 1⟩⟩,
    ⟨some 30, none, ⟨5, 5⟩, ⟨some 28, none⟩, ⟨none, none⟩, 0, .zero⟩,
    ⟨none, none, ⟨5, 5⟩, ⟨some 4, some 15⟩, ⟨none, none⟩, 3, .zero⟩,
    ⟨some 35, none, ⟨5, 5⟩, ⟨some 0, none⟩, ⟨none, none⟩, 0, .zero⟩]

theorem solve_crampedLine :
    solve crampedLine ⟨.horizontal, ⟨100, 20⟩, .start, .stretch, ⟨0, 0, 0, 5⟩⟩ =
      .ok ⟨[⟨6, 0, 32, 20⟩, ⟨40, 0, 28, 20⟩, ⟨68, 0, 4, 20⟩, ⟨72, 0, 28, 20⟩],
        ⟨5, 108, 0, 112, 45, 17, false⟩⟩ := by
  -- sorting does not reduce in the kernel
  have hsorted : bySlack (shrinkables .horizontal crampedLine) =
      .ok [⟨1, 30, 28⟩, ⟨0, 40, 10⟩, ⟨3, 35, 0⟩] := by
    show Except.ok ((List.mergeSort
      [((30 : Int), (⟨0, 40, 10⟩ : Shrinkable)), (2, ⟨1, 30, 28⟩), (35, ⟨3, 35, 0⟩)]
        fun a b => a.1 ≤ b.1).map Prod.snd) = _
    simp [List.mergeSort]
  have hmains : mains .horizontal 95 ⟨5, 108, 0, 112, 45, 17, false⟩ crampedLine =
      .ok [32, 28, 4, 28] := by
    rw [mains, if_neg (by decide), if_pos (by decide), tightMains, hsorted]
    decide +kernel
  show (mains .horizontal 95 ⟨5, 108, 0, 112, 45, 17, false⟩ crampedLine >>= _) = _
  rw [hmains]
  decide +kernel

/-- In 95 pixels, 17 are short: the second child gives the 2 it has, the first 8, the last 7. -/
theorem crampedLine_tight :
    ∃ solution, solve crampedLine ⟨.horizontal, ⟨100, 20⟩, .start, .stretch, ⟨0, 0, 0, 5⟩⟩ =
        .ok solution ∧
      solution.summary.tooNarrow = false ∧ 0 < solution.summary.shortfall ∧
      ∃ inner, Space.innerMain ⟨.horizontal, ⟨100, 20⟩, .start, .stretch, ⟨0, 0, 0, 5⟩⟩ =
          .ok inner ∧
        solution.usedMain .horizontal crampedLine = .ok inner ∧
        GiveWay .horizontal crampedLine
          (solution.rects.map fun rect => Axis.horizontal.main rect.size) :=
  ⟨_, solve_crampedLine, rfl, by decide, solve_tight solve_crampedLine rfl (by decide)⟩

end Trellis.Box
