import Trellis.Proofs.Box.Evenness

/-!
# Leftover space is used up, in the order of the weights

Claims are settled in different rounds, raised or lowered, so what two of them come to is compared
round by round. A claim that is settled before one with a larger offer has been raised, to the least
length that both may have; one that is settled before one with a smaller offer has been lowered, to
the greatest (`Shared.le_of_offer_le`).

A round that raises anyone has corrections that do not lower the sum, so what it offers within
bounds comes short of the pool by the rounding only (`lt_sum_bounded`). If everyone who is left ends
at the ceiling, no one has less than that offer. So space goes unused beyond rounding only if no one
has been raised, and then everyone is at the ceiling (`Shared.fills`).

* `solve_respects_weights`: of two children with the same bounds, the one with the larger weight is
  at least as long.
* `solve_uses_up`: with room to spare, children leave less than a pixel each unless all of them are
  as long as they may be.
-/
namespace Trellis.Box

/-! ## In the order of the weights -/

section

variable {ω : Type} [Weight ω] {pool : Int} {weights : ω} {claims : List (Claim ω)}
  {shares : List (Claim ω × Int)} {c d : Claim ω} {violation : Int}

namespace Claim

theorem bounded_le_bounded (hbounds : c.bounds = d.bounds)
    (hoffer : c.offer pool weights ≤ d.offer pool weights) :
    c.bounded pool weights ≤ d.bounded pool weights := by
  unfold bounded
  rw [hbounds]
  exact Bounds.constrain_mono hoffer

/-- A claim that is settled before one with a larger offer has been raised: had it been lowered, so
would the other. -/
theorem raised_of_isSettled (hbounds : c.bounds = d.bounds)
    (hoffer : c.offer pool weights ≤ d.offer pool weights)
    (hc : c.isSettled pool weights violation = true)
    (hd : d.isSettled pool weights violation = false) :
    c.offer pool weights < c.bounded pool weights := by
  have hlowered : c.bounded pool weights < c.offer pool weights →
      d.bounded pool weights < d.offer pool weights := by
    unfold bounded
    rw [hbounds]
    exact fun hlt => Bounds.constrain_lt_of_le hlt hoffer
  rw [isSettled_iff] at hc
  rw [← Bool.not_eq_true, isSettled_iff] at hd
  omega

/-- A claim that is settled before one with a smaller offer has been lowered. -/
theorem lowered_of_isSettled (hbounds : c.bounds = d.bounds)
    (hoffer : c.offer pool weights ≤ d.offer pool weights)
    (hc : c.isSettled pool weights violation = false)
    (hd : d.isSettled pool weights violation = true) :
    d.bounded pool weights < d.offer pool weights := by
  have hraised : d.offer pool weights < d.bounded pool weights →
      c.offer pool weights < c.bounded pool weights := by
    unfold bounded
    rw [hbounds]
    exact fun hlt => Bounds.lt_constrain_of_le hlt hoffer
  rw [isSettled_iff] at hd
  rw [← Bool.not_eq_true, isSettled_iff] at hc
  omega

end Claim

/-- Of two claims with the same bounds, one that is never offered less does not end up with less. -/
theorem Shared.le_of_offer_le (h : Shared pool weights claims shares)
    (hbounds : c.bounds = d.bounds)
    (hoffer : ∀ pool weights, c.offer pool weights ≤ d.offer pool weights) {m n : Int}
    (hm : (c, m) ∈ shares) (hn : (d, n) ∈ shares) : m ≤ n := by
  induction h with
  | complete _ =>
    obtain ⟨_, -, hm⟩ := List.mem_map.1 hm
    obtain ⟨_, -, hn⟩ := List.mem_map.1 hn
    cases hm
    cases hn
    exact Claim.bounded_le_bounded hbounds (hoffer ..)
  | @again pool weights claims violation others hviolation hrest ih =>
    have hsettled : ∀ {e : Claim ω} {k : Int},
        (e, k) ∈ (claims.filter (Claim.isSettled pool weights violation)).map
          (fun c => (c, c.bounded pool weights)) →
        e.isSettled pool weights violation = true ∧ k = e.bounded pool weights := by
      intro e k he
      obtain ⟨_, hmem, heq⟩ := List.mem_map.1 he
      cases heq
      exact ⟨(List.mem_filter.1 hmem).2, rfl⟩
    have hopen : ∀ {e : Claim ω} {k : Int}, (e, k) ∈ others →
        e.isSettled pool weights violation = false := by
      intro e k he
      have := (List.mem_filter.1 (hrest.perm.mem_iff.1 (List.mem_map_of_mem he))).2
      simpa using this
    rcases List.mem_append.1 hm with hm | hm <;> rcases List.mem_append.1 hn with hn | hn
    · rw [(hsettled hm).2, (hsettled hn).2]
      exact Claim.bounded_le_bounded hbounds (hoffer ..)
    · -- `c` has the least length that the common bounds allow
      have hraised := Claim.raised_of_isSettled hbounds (hoffer ..) (hsettled hm).1 (hopen hn)
      rw [(hsettled hm).2]
      exact Bounds.constrain_le_of_lt hraised (hbounds ▸ hrest.admits hn)
    · -- `d` has the greatest length that the common bounds allow
      have hlowered := Claim.lowered_of_isSettled hbounds (hoffer ..) (hopen hm) (hsettled hn).1
      rw [(hsettled hn).2]
      exact Bounds.le_constrain_of_lt hlowered (hbounds ▸ hrest.admits hm)
    · exact ih hm hn

end

/-! ## Up to rounding -/

section

variable {pool : Int} {weights : Nat} {claims : List (Claim Nat)}
  {shares : List (Claim Nat × Int)}

theorem exactShare_mono {v w : Nat} (h : v ≤ w) (space : Int) (total : Nat) :
    exactShare space v total ≤ exactShare space w total := by
  unfold exactShare
  split
  · exact Int.le_refl 0
  · refine Int.ediv_le_ediv (by omega) (Int.mul_le_mul_of_nonneg_left ?_ (by omega))
    exact_mod_cast h

/-- Rounded down, the parts of the space come short of it by less than one unit each. -/
theorem lt_sum_exactShare (space : Int) {weights : List Nat} (hpos : 0 < weights.sum) :
    space < (weights.map fun w => exactShare space w weights.sum).sum + weights.length := by
  have hlength : 0 < weights.length := List.length_pos_iff.2 (by rintro rfl; simp at hpos)
  by_cases hspace : space ≤ 0
  · have hnonneg : 0 ≤ (weights.map fun w => exactShare space w weights.sum).sum := by
      refine List.sum_nonneg fun n hn => ?_
      obtain ⟨w, -, rfl⟩ := List.mem_map.1 hn
      exact exactShare_nonneg ..
    omega
  · have key : ∀ ws : List Nat, space * (ws.sum : Nat) + ws.length ≤
        ((ws.map fun w => exactShare space w weights.sum).sum + ws.length) * weights.sum := by
      intro ws
      induction ws with
      | nil => simp
      | cons w ws ih =>
        have hw : space * w < (exactShare space w weights.sum + 1) * weights.sum := by
          rw [exactShare, if_neg (by omega)]
          exact Int.lt_ediv_add_one_mul_self _ (by omega)
        simp only [List.map_cons, List.sum_cons, List.length_cons, Int.natCast_add, Int.mul_add,
          Int.add_mul] at hw ih ⊢
        omega
    refine Int.lt_of_mul_lt_mul_right (a := weights.sum) ?_ (by omega)
    have := key weights
    omega

theorem lt_sum_offer (pool : Int) (hne : claims ≠ []) (hpos : ∀ c ∈ claims, 0 < c.weight) :
    pool < (claims.map (Claim.offer pool (claimed claims))).sum + claims.length := by
  obtain ⟨c, hc⟩ := List.exists_mem_of_ne_nil claims hne
  have htotal : 0 < claimed claims := Nat.lt_of_lt_of_le (hpos c hc) (weight_le_claimed hc)
  have := lt_sum_exactShare pool htotal
  rwa [List.map_map, List.length_map] at this

/-- A claim that a round settles short of its ceiling has been raised, and then the bounded offers
of the round come short of the pool by less than one unit each. -/
theorem lt_sum_bounded {violation : Int} (hpos : ∀ c ∈ claims, 0 < c.weight)
    (hviolation : violation = (claims.map fun c =>
      c.bounded pool (claimed claims) - c.offer pool (claimed claims)).sum) {c : Claim Nat}
    (hc : c ∈ claims) (hsettled : c.isSettled pool (claimed claims) violation = true)
    (hshort : c.bounds.ceiling? ≠ some (c.bounded pool (claimed claims))) :
    pool < (claims.map (Claim.bounded pool (claimed claims))).sum + claims.length := by
  have hraised : ¬ c.bounded pool (claimed claims) < c.offer pool (claimed claims) :=
    fun hlt => hshort (Bounds.ceiling?_of_lt hlt)
  have hoffers := lt_sum_offer pool (List.ne_nil_of_mem hc) hpos
  rw [Claim.isSettled_iff] at hsettled
  rw [sum_bounded_eq hviolation]
  omega

/-- Unless everyone is at the ceiling, less than one unit for each claim is left unused. -/
theorem Shared.fills (h : Shared pool weights claims shares) (hweights : weights = claimed claims)
    (hpay : Payable pool claims) (hpos : ∀ c ∈ claims, 0 < c.weight) :
    (∀ s ∈ shares, s.1.bounds.ceiling? = some s.2) ∨
      pool - (shares.map Prod.snd).sum < claims.length := by
  induction h with
  | @complete pool weights claims hfits =>
    subst hweights
    by_cases hne : claims = []
    · exact .inl (by simp [hne])
    · have hoffers := lt_sum_offer pool hne hpos
      have hlengths : claims.map (Prod.snd ∘ fun c => (c, c.bounded pool (claimed claims))) =
          claims.map (Claim.offer pool (claimed claims)) := List.map_congr_left hfits
      rw [List.map_map, hlengths]
      exact .inr (by omega)
  | @again pool weights claims violation others hviolation hrest ih =>
    subst hweights
    obtain ⟨hweights, -, hpay', hspent, -⟩ := Round.keeps hpay hviolation
    have hfills := ih hweights hpay' fun c hc => hpos c (List.mem_filter.1 hc).1
    have hperm := hrest.perm
    have hsplit := Length.sum_filter_add_sum_filter_not
      (Claim.isSettled pool (claimed claims) violation) (Claim.bounded pool (claimed claims)) claims
    have hlt := fun c => lt_sum_bounded (c := c) hpos hviolation
    generalize Claim.isSettled pool (claimed claims) violation = S at *
    rw [List.map_map] at hspent
    change ((claims.filter S).map (Claim.bounded pool (claimed claims))).sum + _ = pool at hspent
    rw [List.map_append, List.map_map, List.sum_append]
    change _ ∨ pool - (((claims.filter S).map (Claim.bounded pool (claimed claims))).sum + _) < _
    rcases hfills with hfull | hused
    · by_cases hall : ∀ c ∈ claims.filter S,
          c.bounds.ceiling? = some (c.bounded pool (claimed claims))
      · left
        intro s hs
        rcases List.mem_append.1 hs with hs | hs
        · obtain ⟨c, hc, rfl⟩ := List.mem_map.1 hs
          exact hall c hc
        · exact hfull s hs
      · -- what the others have come to is at least what this round offers them within bounds
        right
        push Not at hall
        obtain ⟨c, hc, hshort⟩ := hall
        obtain ⟨hmem, hset⟩ := List.mem_filter.1 hc
        have hothers : ((claims.filter fun c => !S c).map
            (Claim.bounded pool (claimed claims))).sum ≤ (others.map Prod.snd).sum := by
          rw [← (hperm.map _).sum_eq, List.map_map]
          exact List.sum_le_sum fun s hs => Bounds.constrain_le_ceiling (hfull s hs) _
        have := hlt c hmem hset hshort
        omega
    · right
      have := List.length_filter_le (fun c => !S c) claims
      omega

end

/-! ## Lines -/

/-- Four children that share leftover space, two of them with 30 pixels at least and one with 10 at
most, and one of 20 pixels. -/
def sharedLine : List (Request Nat) :=
  [⟨none, none, ⟨5, 5⟩, ⟨some 30, none⟩, ⟨none, none⟩, 1, ⟨0, 2, 0, 1⟩⟩,
    ⟨none, none, ⟨5, 5⟩, ⟨some 30, none⟩, ⟨none, none⟩, 3, .zero⟩,
    ⟨none, none, ⟨5, 5⟩, ⟨none, some 10⟩, ⟨none, none⟩, 2, .zero⟩,
    ⟨some 20, none, ⟨5, 5⟩, ⟨none, none⟩, ⟨none, none⟩, 0, .zero⟩,
    ⟨none, none, ⟨5, 5⟩, ⟨none, none⟩, ⟨none, none⟩, 3, .zero⟩]

theorem solve_sharedLine :
    solve sharedLine ⟨.horizontal, ⟨183, 20⟩, .start, .stretch, ⟨0, 0, 0, 5⟩⟩ =
      .ok ⟨[⟨6, 0, 30, 20⟩, ⟨38, 0, 57, 20⟩, ⟨95, 0, 10, 20⟩, ⟨105, 0, 20, 20⟩, ⟨125, 0, 57, 20⟩],
        ⟨5, 20, 3, 83, 83, -95, false⟩⟩ := by
  decide +kernel

section

variable {ω : Type} [Weight ω] {a : Axis} {innerMain : Int} {boxes : List (Request ω)}
  {s : Summary} {lengths : List Int}

/-- The children that share leftover space, next to their main lengths. -/
def flexedMains (a : Axis) (boxes : List (Request ω)) (lengths : List Int) :
    List (Int × Request ω) :=
  (lengths.zip boxes).filter fun e => e.2.isFlexed a

/-- Children that share leftover space use it up: they stay within it, and unless all of them are as
long as their bounds let them be, they leave less than one pixel each. -/
structure UsesUp (a : Axis) (leftover : Int) (flexed : List (Int × Request ω)) : Prop where
  sum_le : (flexed.map Prod.fst).sum ≤ leftover
  full_or_lt : (∀ e ∈ flexed, (e.2.mainBounds a).ceiling? = some e.1) ∨
    leftover - (flexed.map Prod.fst).sum < flexed.length

/-- Unless a line is too narrow, a child with the same bounds as another, and never a smaller share,
is not shorter. -/
theorem mains_le_mains (h : mains a innerMain s boxes = .ok lengths) (hfits : s.tooNarrow = false)
    {e f : Int × Request ω} (he : e ∈ flexedMains a boxes lengths)
    (hf : f ∈ flexedMains a boxes lengths) (hbounds : e.2.mainBounds a = f.2.mainBounds a)
    (hshare : ∀ space total,
      Weight.share space e.2.flex total ≤ Weight.share space f.2.flex total) : e.1 ≤ f.1 := by
  obtain ⟨he, heflexed⟩ := List.mem_filter.1 he
  obtain ⟨hf, hfflexed⟩ := List.mem_filter.1 hf
  unfold mains at h
  rw [if_neg (by simp [hfits])] at h
  split at h
  · have hway := giveWay_tightMains h
    rw [hway.flexed e he heflexed, hway.flexed f hf hfflexed,
      Request.floorMain_of_isFlexed heflexed, Request.floorMain_of_isFlexed hfflexed, hbounds]
  · obtain ⟨shares, hshares, hlengths⟩ := exists_shares h
    obtain ⟨i, hm⟩ := (hlengths e he).1 heflexed
    obtain ⟨j, hn⟩ := (hlengths f hf).1 hfflexed
    refine hshares.le_of_offer_le ?_ ?_ hm hn
    · exact hbounds
    · exact fun pool weights => hshare pool weights

/-- With room to spare, the children that share leftover space have what they are granted. -/
theorem flexedMains_granted (grants : List Grant) (boxes : List (Request ω)) :
    flexedMains a boxes (boxes.zipIdx.map fun e =>
        if e.1.isFlexed a then granted grants e.2 0 else e.1.resolvedMain a) =
      (boxes.zipIdx.filter fun e => e.1.isFlexed a).map fun e => (granted grants e.2 0, e.1) := by
  rw [flexedMains, zip_zipIdx_map, List.filter_map]
  refine List.map_congr_left fun e he => ?_
  have hflexed : e.1.isFlexed a = true := (List.mem_filter.1 he).2
  rw [if_pos hflexed]

/-- With room to spare, leftover space is used up. -/
theorem usesUp_roomyMains {weigh : Nat → ω} {count : ω → Nat} (ht : Totals a innerMain boxes s)
    (hnonneg : ∀ r ∈ boxes, r.Nonneg) (hroomy : s.shortfall ≤ 0)
    (hweigh : ∀ r ∈ boxes, r.isFlexed a = true → weigh (count r.flex) = r.flex)
    (hw : Weight.Exact weigh (flexCount count a boxes) innerMain)
    (h : roomyMains a innerMain s boxes = .ok lengths) :
    UsesUp a (innerMain - s.nonFlexMain - s.flexMargins) (flexedMains a boxes lengths) := by
  obtain ⟨grants, hgrants, hindex, rfl⟩ := exists_grants_counted ht hnonneg hroomy hweigh hw h
  have hpay := payable_counted count ht hnonneg hroomy
  have hsum := sum_granted (fun _ => 0) hindex (nodup_snd_filter_zipIdx _ boxes)
  obtain ⟨shares, hshares, rfl⟩ := shared_of_shareOut hgrants
  have hle := hshares.sum_le (claimed_counted boxes).symm hpay
  have hfills := hshares.fills (claimed_counted boxes).symm hpay (weight_counted_pos hweigh hw)
  rw [List.map_map] at hsum
  change _ = (shares.map Prod.snd).sum at hsum
  rw [← hsum] at hle hfills
  rw [flexedMains_granted]
  refine ⟨?_, ?_⟩
  · rw [List.map_map]
    exact hle
  · rw [List.map_map, List.length_map]
    rw [List.length_map, claims, List.length_map] at hfills
    refine hfills.imp (fun hfull e he => ?_) id
    obtain ⟨⟨r, i⟩, hmem, rfl⟩ := List.mem_map.1 he
    obtain ⟨hmem, hflexed⟩ := List.mem_filter.1 hmem
    have hclaim := List.mem_map_of_mem (f := Claim.counted count)
      (mem_claims_iff.2 ⟨r, i, hmem, hflexed, rfl⟩)
    have hnodup : (((claims a boxes).map (Claim.counted count)).map Claim.index).Nodup := by
      rw [index_counted]
      exact nodup_index_claims a boxes
    exact hfull _ (hshares.granted_mem hnodup hclaim 0)

variable {space : Space} {solution : Solution}

/-- Unless a line is too narrow, of two children that share leftover space and have the same bounds
the one with the larger weight is at least as long, and with equal weights they are equally long,
provided that a larger weight never has a smaller share. -/
theorem solve_respects_weights [LE ω]
    (hmono : ∀ {v w : ω}, v ≤ w → ∀ (space : Int) (total : ω),
      Weight.share space v total ≤ Weight.share space w total)
    (h : solve boxes space = .ok solution) (hfits : solution.summary.tooNarrow = false) :
    let flexed := flexedMains space.axis boxes
      (solution.rects.map fun rect => space.axis.main rect.size)
    ∀ e ∈ flexed, ∀ f ∈ flexed, e.2.mainBounds space.axis = f.2.mainBounds space.axis →
      (e.2.flex ≤ f.2.flex → e.1 ≤ f.1) ∧ (e.2.flex = f.2.flex → e.1 = f.1) := by
  intro flexed e he f hf hbounds
  have hne : boxes ≠ [] := by
    rintro rfl
    simp [flexed, flexedMains] at he
  obtain ⟨_, _, -, -, hmains, -⟩ := mains_of_solve hne h
  refine ⟨fun hle => mains_le_mains hmains hfits he hf hbounds (hmono hle), fun heq => ?_⟩
  have hle := mains_le_mains hmains hfits he hf hbounds fun _ _ => Int.le_of_eq (by rw [heq])
  have hge := mains_le_mains hmains hfits hf he hbounds.symm fun _ _ => Int.le_of_eq (by rw [heq])
  exact Int.le_antisymm hle hge

/-- The two children with the same bounds are settled in different rounds: the one with weight 1 is
raised to 30 pixels, and later the one with weight 3 gets 57. -/
theorem sharedLine_respects_weights :
    ∃ solution, solve sharedLine ⟨.horizontal, ⟨183, 20⟩, .start, .stretch, ⟨0, 0, 0, 5⟩⟩ =
        .ok solution ∧
      solution.summary.tooNarrow = false ∧
      let flexed := flexedMains .horizontal sharedLine
        (solution.rects.map fun rect => Axis.horizontal.main rect.size)
      ((30 : Int), sharedLine[0]) ∈ flexed ∧ ((57 : Int), sharedLine[1]) ∈ flexed ∧
        (sharedLine[0].flex ≤ sharedLine[1].flex → (30 : Int) ≤ 57) ∧
        (sharedLine[0].flex = sharedLine[1].flex → (30 : Int) = 57) := by
  refine ⟨_, solve_sharedLine, rfl, ?_⟩
  intro flexed
  have hlight : ((30 : Int), sharedLine[0]) ∈ flexed := List.mem_filter.2 ⟨.head _, rfl⟩
  have hheavy : ((57 : Int), sharedLine[1]) ∈ flexed := List.mem_filter.2 ⟨.tail _ (.head _), rfl⟩
  exact ⟨hlight, hheavy,
    solve_respects_weights exactShare_mono solve_sharedLine rfl _ hlight _ hheavy rfl⟩

/-- With room to spare, the children that share leftover space, which is what the other children and
the margins leave, use it up. -/
theorem solve_uses_up {weigh : Nat → ω} {count : ω → Nat} {inner : Int}
    (hnonneg : ∀ r ∈ boxes, r.Nonneg) (hinner : space.innerMain = .ok inner)
    (hweigh : ∀ r ∈ boxes, r.isFlexed space.axis = true → weigh (count r.flex) = r.flex)
    (hw : Weight.Exact weigh (flexCount count space.axis boxes) inner)
    (h : solve boxes space = .ok solution) (hfits : solution.summary.tooNarrow = false)
    (hroomy : solution.summary.shortfall ≤ 0) :
    UsesUp space.axis
      (inner - solution.summary.nonFlexMain -
        ((boxes.filter fun r => r.isFlexed space.axis).map (Request.mainMargin space.axis)).sum)
      (flexedMains space.axis boxes
        (solution.rects.map fun rect => space.axis.main rect.size)) := by
  by_cases hne : boxes = []
  · subst hne
    cases h
    have := innerMain_nonneg hinner
    refine ⟨?_, .inl (by simp [flexedMains])⟩
    simpa [flexedMains, Solution.empty, Summary.empty] using this
  · obtain ⟨_, _, hinner', hsummary, hmains, -⟩ := mains_of_solve hne h
    cases hinner.symm.trans hinner'
    have htotals := totals_of_summarize hsummary
    rw [mains, if_neg (by simp [hfits]), if_neg (by omega)] at hmains
    rw [← htotals.flexMargins]
    exact usesUp_roomyMains htotals hnonneg hroomy hweigh hw hmains

/-- Of the 155 pixels that the four children share, 154 are used. -/
theorem sharedLine_used_up :
    ∃ solution, solve sharedLine ⟨.horizontal, ⟨183, 20⟩, .start, .stretch, ⟨0, 0, 0, 5⟩⟩ =
        .ok solution ∧
      (∀ r ∈ sharedLine, r.Nonneg) ∧ solution.summary.tooNarrow = false ∧
      solution.summary.shortfall ≤ 0 ∧
      UsesUp .horizontal (178 - 20 - 3) (flexedMains .horizontal sharedLine
        (solution.rects.map fun rect => Axis.horizontal.main rect.size)) :=
  ⟨_, solve_sharedLine, by decide, rfl, by decide,
    @solve_uses_up _ _ _ _ _ id id 178 (by decide) rfl (fun _ _ _ => rfl)
      (Weight.exact_nat _ 178) solve_sharedLine rfl (by decide)⟩

end

end Trellis.Box
