import Trellis.Proofs.Box.Limits

/-!
# A line with one child that expands

If a single child shares leftover space, it is offered all of it, and what it gets is that offer
within its bounds. All other children keep their own lengths, provided none of them has a lower
bound to shrink to. So the line takes all of the space between the paddings, but for a child whose
upper bound stops it, and for others that are longer than the space.

* `shareOut_sole`: a single claim is granted its offer, within bounds.
* `resolvedMain_of_mains`: a child without a weight and without a lower bound has its own length.
* `solve_expands`: what a line takes that is not too narrow.
-/
namespace Trellis.Box

variable {ω : Type} [Weight ω]

/-- A single claim is granted its offer within its bounds, in the first round. -/
theorem shareOut_sole {pool : Int} {weights : ω} {c : Claim ω} {grants : List Grant}
    (h : shareOut pool weights [c] = .ok grants) : grants = [c.grant (c.bounded pool weights)] := by
  rcases shareOut_eq_ok h with
    hround | ⟨settled, left, weights', rest, others, hround, hothers, rfl⟩
  · obtain ⟨rfl, hfits⟩ := Round.ofClaims_complete hround
    rw [List.map_singleton, hfits c (by simp)]
  · -- a round that goes on settles a claim, and there is only this one
    obtain rfl : rest = [] := List.length_eq_zero_iff.1 (Nat.lt_one_iff.1 (Round.rest_length_lt hround))
    obtain ⟨violation, -, rfl, hrest, -, -⟩ := Round.ofClaims_again hround
    have hsettled : c.isSettled pool weights violation = true := by
      simpa using List.filter_eq_nil_iff.1 hrest.symm c
    have hothers := perm_index_shareOut hothers
    rw [List.map_nil, List.perm_nil, List.map_eq_nil_iff] at hothers
    simp [hothers, hsettled]

variable {a : Axis} {inner : Int} {boxes : List (Request ω)} {s : Summary} {lengths : List Int}
  {r : Request ω}

/-- In whichever way the main lengths are found, a child that has its own length and no lower bound
keeps it. -/
theorem resolvedMain_of_mains (h : mains a inner s boxes = .ok lengths) {e : Int × Request ω}
    (he : e ∈ lengths.zip boxes) (hfixed : e.2.isFlexed a = false)
    (hleast : (e.2.mainBounds a).least? = none) : e.1 = e.2.resolvedMain a := by
  unfold mains at h
  split at h
  · cases h
    rw [← List.map_prod_right_eq_zip] at he
    obtain ⟨r, -, rfl⟩ := List.mem_map.1 he
    exact congrArg (Option.getD · _) hleast
  · split at h
    · obtain ⟨hfloor, hle⟩ := (giveWay_tightMains h).fixed e he hfixed
      rw [Request.floorMain, hleast, Option.getD_none, if_neg (by simp [hfixed])] at hfloor
      exact Int.le_antisymm hle hfloor
    · obtain ⟨_, -, hlengths⟩ := exists_shares h
      exact (hlengths e he).2 hfixed

/-- What the children of a line take besides the leftover space that they share. -/
def unshared (a : Axis) (boxes : List (Request ω)) : Int :=
  (boxes.map fun r => r.mainMargin a + if r.isFlexed a then 0 else r.resolvedMain a).sum

theorem Totals.eq_unshared (h : Totals a inner boxes s) :
    s.nonFlexMain + s.flexMargins = unshared a boxes := by
  have hsplit := Length.sum_filter_add_sum_filter_not (fun r : Request ω => r.isFlexed a)
    (fun r => if r.isFlexed a then 0 else r.resolvedMain a) boxes
  have hflexed : ((boxes.filter fun r => r.isFlexed a).map fun r =>
      if r.isFlexed a then (0 : Int) else r.resolvedMain a).sum = 0 :=
    List.sum_eq_zero fun n hn => by
      obtain ⟨r, hr, rfl⟩ := List.mem_map.1 hn
      exact if_pos (List.mem_filter.1 hr).2
  have hfixed : ((boxes.filter fun r => !r.isFlexed a).map fun r =>
      if r.isFlexed a then (0 : Int) else r.resolvedMain a) =
      (boxes.filter fun r => !r.isFlexed a).map fun r => r.resolvedMain a :=
    List.map_congr_left fun r hr => if_neg (by simpa using (List.mem_filter.1 hr).2)
  rw [hflexed, hfixed] at hsplit
  rw [h.unshared_eq, unshared, List.sum_map_add]
  unfold fixedMain
  omega

theorem flexFloor_of_sole (hsole : (boxes.filter fun r => r.isFlexed a) = [r]) :
    flexFloor a boxes = (r.mainBounds a).floor := by
  rw [flexFloor, hsole, List.map_singleton, List.sum_singleton]

/-- Where no child but those that share leftover space has a lower bound, a line is short only if it
is too narrow. -/
theorem Totals.shortfall_eq (h : Totals a inner boxes s)
    (hown : ∀ r ∈ boxes, r.isFlexed a = false → (r.mainBounds a).least? = none) :
    s.shortfall = s.minimumMain - inner := by
  have hfixed : ((boxes.filter fun r => !r.isFlexed a).map fun r => r.floorMain a) =
      (boxes.filter fun r => !r.isFlexed a).map fun r => r.resolvedMain a := by
    refine List.map_congr_left fun b hb => ?_
    obtain ⟨hb, hopen⟩ := List.mem_filter.1 hb
    have hopen : b.isFlexed a = false := by simpa using hopen
    rw [Request.floorMain, hown b hb hopen, Option.getD_none, if_neg (by simp [hopen])]
  have hminimum := h.minimum_eq
  rw [hfixed] at hminimum
  have hdesired := h.desired_eq
  unfold fixedMain at hdesired
  omega

/-- With room to spare, a child that alone shares leftover space gets what is offered to it, within
its bounds. -/
theorem sum_roomyMains_of_sole (ht : Totals a inner boxes s)
    (hsole : (boxes.filter fun r => r.isFlexed a) = [r])
    (h : roomyMains a inner s boxes = .ok lengths) :
    lengths.sum + (boxes.map (Request.mainMargin a)).sum = unshared a boxes +
      (r.mainBounds a).constrain (Weight.share (max (inner - unshared a boxes) 0) r.flex
        (Weight.add Weight.zero r.flex)) := by
  obtain ⟨grants, hgrants, rfl⟩ := exists_grants h
  obtain ⟨e, hplace, rfl⟩ := List.map_eq_singleton_iff.1
    ((map_fst_filter_zipIdx (fun r : Request ω => r.isFlexed a) boxes).trans hsole)
  have hclaims : claims a boxes = [⟨e.2, e.1.flex, e.1.mainBounds a⟩] := by
    rw [claims, hplace, List.map_singleton]
  have hweights : totalWeight a boxes = Weight.add Weight.zero e.1.flex := by
    rw [totalWeight, hsole, List.foldl_cons, List.foldl_nil]
  have hunshared := ht.eq_unshared
  have htotal := ht.unshared_eq
  have hpool : inner - s.nonFlexMain - s.flexMargins = inner - unshared a boxes := by omega
  rw [hclaims, hweights, hpool] at hgrants
  have hgranted : granted grants e.2 0 = (e.1.mainBounds a).constrain
      (Weight.share (max (inner - unshared a boxes) 0) e.1.flex
        (Weight.add Weight.zero e.1.flex)) := by
    rw [shareOut_sole hgrants]
    exact granted_of_mem (by simp) (List.mem_singleton_self _) 0
  have hsum := sum_zipIdx_split (a := a) (fun e => granted grants e.2 0)
    (fun e => e.1.resolvedMain a) boxes
  rw [hplace, List.map_singleton, List.sum_singleton, hgranted,
    sum_filter_zipIdx (fun r => !r.isFlexed a) fun r => r.resolvedMain a] at hsum
  rw [hunshared] at htotal
  rw [hsum, htotal]
  unfold fixedMain
  omega

variable {space : Space} {solution : Solution}

/-- A line in which a single child shares leftover space, no other one has a lower bound, and all of
them fit, takes exactly the space between the paddings. Only if the lower bound of that child is
negative can the others take more than there is, and then the line takes what they do. -/
theorem solve_expands (hinner : space.innerMain = .ok inner)
    (hsole : (boxes.filter fun r => r.isFlexed space.axis) = [r])
    (hown : ∀ r ∈ boxes, r.isFlexed space.axis = false → (r.mainBounds space.axis).least? = none)
    (hcap : (r.mainBounds space.axis).greatest? = none)
    (hshare : Weight.share (max (inner - unshared space.axis boxes) 0) r.flex
      (Weight.add Weight.zero r.flex) = max (inner - unshared space.axis boxes) 0)
    (h : solve boxes space = .ok solution)
    (hfits : (boxes.map fun r => r.floorMain space.axis + r.mainMargin space.axis).sum ≤ inner) :
    solution.usedMain space.axis boxes = .ok (max inner (unshared space.axis boxes)) := by
  have hne : boxes ≠ [] := by
    rintro rfl
    cases hsole
  obtain ⟨_, used, hinner', hsummary, hmains, hused⟩ := mains_of_solve hne h
  rw [hinner] at hinner'
  cases hinner'
  have htotals := totals_of_summarize hsummary
  rw [← htotals.minimumMain] at hfits
  have hshort := htotals.shortfall_eq hown
  have hnarrow : solution.summary.tooNarrow = false := by
    rw [htotals.tooNarrow, decide_eq_false_iff_not]
    omega
  have hlength := length_mains hmains
  rw [mains, if_neg (by simp [hnarrow]), if_neg (by omega)] at hmains
  have hsum := sum_roomyMains_of_sole htotals hsole hmains
  -- the lower bound is met by what is left for the child
  have hroom : (r.mainBounds space.axis).floor ≤ inner - unshared space.axis boxes := by
    have hdesired := htotals.desired_eq
    rw [flexFloor_of_sole hsole, ← htotals.unshared_eq, htotals.eq_unshared] at hdesired
    omega
  have hgrows : (r.mainBounds space.axis).constrain (max (inner - unshared space.axis boxes) 0) =
      max (inner - unshared space.axis boxes) 0 := by
    rw [Bounds.constrain, hcap]
    unfold Bounds.floor at hroom
    cases hleast : (r.mainBounds space.axis).least? with
    | none => rfl
    | some lo =>
      rw [hleast, Option.getD_some] at hroom
      show max (max (inner - unshared space.axis boxes) 0) lo = _
      omega
  rw [hshare, hgrows] at hsum
  rw [hused, used_eq_ok hlength hused, hsum]
  congr 1
  omega

end Trellis.Box
