import Mathlib.Algebra.Order.Group.Int
import Mathlib.Algebra.Order.Group.Nat
import Trellis.Box.Flex
import Trellis.Proofs.Geometry
import Trellis.Proofs.Totals

/-!
# Shares never add up to more than the space

One round of sharing keeps an invariant: the lower bounds of the claims that are still open fit in
the pool. It survives every kind of round, because what is settled is settled at its bound: raised
claims take their lower bound, which the invariant has room for, and when the corrections do not
raise the sum, all bounded offers fit together.

* `ofClaims_again`: what a round that goes on has settled, and what is left.
* `Shared`: what sharing comes to, round by round; every claim has one length (`Shared.perm`), which
  is within its bounds (`Shared.admits`).
* `Round.Keeps`: the step of the invariant; `sum_shareOut_le`: the whole run.
-/
namespace Trellis.Box

namespace Claim

variable {ω : Type} [Weight ω]

theorem correction_eq_ok {pool : Int} {weights : ω} {c : Claim ω} {n : Int}
    (h : c.correction pool weights = .ok n) : n = c.bounded pool weights - c.offer pool weights :=
  (Length.sub_eq_ok.1 h).1

/-- A round settles claims that it raises when the corrections do not lower the sum, and claims that
it lowers when they do not raise it. -/
theorem isSettled_iff {pool violation : Int} {weights : ω} {c : Claim ω} :
    c.isSettled pool weights violation = true ↔
      (0 ≤ violation ∧ c.offer pool weights < c.bounded pool weights) ∨
        (violation ≤ 0 ∧ c.bounded pool weights < c.offer pool weights) := by
  unfold isSettled
  dsimp only
  split
  · simp only [decide_eq_true_eq]
    omega
  · split <;> simp only [decide_eq_true_eq, ne_eq] <;> omega

end Claim

namespace Round

variable {ω : Type} [Weight ω]

omit [Weight ω] in
theorem foldlM_sub_eq_ok {f : Claim ω → Int} {cs : List (Claim ω)} {start left : Int}
    (h : cs.foldlM (fun left c => Length.sub left (f c)) start = .ok left) :
    left = start - (cs.map f).sum := by
  induction cs generalizing start with
  | nil =>
    simp only [List.foldlM_nil, pure, Except.pure, Except.ok.injEq] at h
    simp [h]
  | cons c cs ih =>
    rw [List.foldlM_cons] at h
    obtain ⟨mid, hmid, hrest⟩ := Length.bind_eq_ok.1 h
    rw [ih hrest, (Length.sub_eq_ok.1 hmid).1, List.map_cons, List.sum_cons]
    omega

/-- A round that goes on: the corrections add up to some `violation`, the claims it settles get
their bounded offers, and those leave the pool. -/
theorem ofClaims_again {pool left : Int} {weights weights' : ω} {claims rest : List (Claim ω)}
    {settled : List Grant}
    (h : ofClaims pool weights claims = .ok (.again settled left weights' rest)) :
    ∃ violation, violation =
        (claims.map fun c => c.bounded pool weights - c.offer pool weights).sum ∧
      settled = (claims.filter (Claim.isSettled pool weights violation)).map
        (fun c => c.grant (c.bounded pool weights)) ∧
      rest = claims.filter (fun c => !Claim.isSettled pool weights violation c) ∧
      left = max (pool - ((claims.filter (Claim.isSettled pool weights violation)).map
        (Claim.bounded pool weights)).sum) 0 ∧
      weights' = (claims.filter (Claim.isSettled pool weights violation)).foldl
        (fun sum c => Weight.sub sum c.weight) weights := by
  unfold ofClaims at h
  obtain ⟨violation, hsum, h⟩ := Length.bind_eq_ok.1 h
  split at h
  · cases h
  · simp only [List.partition_eq_filter_filter] at h
    obtain ⟨rem, hrem, h⟩ := Length.bind_eq_ok.1 h
    simp only [pure, Except.pure, Except.ok.injEq, Round.again.injEq] at h
    obtain ⟨rfl, rfl, rfl, rfl⟩ := h
    refine ⟨violation, ?_, rfl, rfl, ?_, rfl⟩
    · exact Length.total_eq_sum (fun c _ n hn => Claim.correction_eq_ok hn) hsum
    · rw [foldlM_sub_eq_ok hrem]

theorem ofClaims_complete {pool : Int} {weights : ω} {claims : List (Claim ω)}
    {grants : List Grant} (h : ofClaims pool weights claims = .ok (.complete grants)) :
    grants = claims.map (fun c => c.grant (c.offer pool weights)) ∧
      ∀ c ∈ claims, c.bounded pool weights = c.offer pool weights := by
  unfold ofClaims at h
  obtain ⟨violation, -, h⟩ := Length.bind_eq_ok.1 h
  split at h
  · next hall =>
    cases h
    refine ⟨rfl, fun c hc => ?_⟩
    have := List.all_eq_true.1 hall c hc
    exact eq_of_beq this
  · obtain ⟨_, _, h⟩ := Length.bind_eq_ok.1 h
    cases h

end Round

/-- Sharing goes on as long as its rounds do. -/
theorem shareOut_eq {ω : Type} [Weight ω] (pool : Int) (weights : ω) (claims : List (Claim ω)) :
    shareOut pool weights claims =
      match Round.ofClaims pool weights claims with
      | .error fault => .error fault
      | .ok (.complete grants) => .ok grants
      | .ok (.again settled left weights' rest) =>
        (settled ++ ·) <$> shareOut left weights' rest := by
  rw [shareOut]
  split <;> next h => rw [h]

/-- What sharing comes to, one round after the other. -/
theorem shareOut_eq_ok {ω : Type} [Weight ω] {pool : Int} {weights : ω}
    {claims : List (Claim ω)} {grants : List Grant}
    (h : shareOut pool weights claims = .ok grants) :
    Round.ofClaims pool weights claims = .ok (.complete grants) ∨
      ∃ settled left weights' rest others,
        Round.ofClaims pool weights claims = .ok (.again settled left weights' rest) ∧
        shareOut left weights' rest = .ok others ∧ grants = settled ++ others := by
  rw [shareOut_eq] at h
  split at h
  · cases h
  · next grants' hround =>
    cases h
    exact .inl hround
  · next settled left weights' rest hround =>
    obtain ⟨others, hothers, h⟩ := Length.map_eq_ok.1 h
    exact .inr ⟨settled, left, weights', rest, others, hround, hothers, h.symm⟩

/-- What sharing comes to, one round after the other: each claim next to its length. -/
inductive Shared {ω : Type} [Weight ω] :
    (pool : Int) → (weights : ω) → List (Claim ω) → List (Claim ω × Int) → Prop where
  /-- Every offer is within bounds. -/
  | complete {pool : Int} {weights : ω} {claims : List (Claim ω)}
      (hfits : ∀ c ∈ claims, c.bounded pool weights = c.offer pool weights) :
      Shared pool weights claims (claims.map fun c => (c, c.bounded pool weights))
  /-- Some claims are settled at their bounds, and the rest share what is left. -/
  | again {pool : Int} {weights : ω} {claims : List (Claim ω)} {violation : Int}
      {others : List (Claim ω × Int)}
      (hviolation : violation =
        (claims.map fun c => c.bounded pool weights - c.offer pool weights).sum)
      (hrest : Shared
        (max (pool - ((claims.filter (Claim.isSettled pool weights violation)).map
          (Claim.bounded pool weights)).sum) 0)
        ((claims.filter (Claim.isSettled pool weights violation)).foldl
          (fun sum c => Weight.sub sum c.weight) weights)
        (claims.filter fun c => !Claim.isSettled pool weights violation c) others) :
      Shared pool weights claims
        ((claims.filter (Claim.isSettled pool weights violation)).map
          (fun c => (c, c.bounded pool weights)) ++ others)

section

variable {ω : Type} [Weight ω] {pool : Int} {weights : ω} {claims : List (Claim ω)}
  {grants : List Grant}

/-- The bounded offers of a round add up to its offers and the corrections. -/
theorem sum_bounded_eq {violation : Int} (hviolation : violation =
      (claims.map fun c => c.bounded pool weights - c.offer pool weights).sum) :
    (claims.map (Claim.bounded pool weights)).sum =
      violation + (claims.map (Claim.offer pool weights)).sum := by
  rw [hviolation, ← List.sum_map_add]
  exact congrArg List.sum (List.map_congr_left fun c _ => by omega)

theorem shared_of_shareOut (h : shareOut pool weights claims = .ok grants) :
    ∃ shares, Shared pool weights claims shares ∧ grants = shares.map fun s => s.1.grant s.2 := by
  induction hn : claims.length using Nat.strongRecOn generalizing pool weights claims grants with
  | ind n ih =>
    rcases shareOut_eq_ok h with
      hround | ⟨settled, left, weights', rest, others, hround, hrest, rfl⟩
    · obtain ⟨rfl, hfits⟩ := Round.ofClaims_complete hround
      refine ⟨_, .complete hfits, ?_⟩
      rw [List.map_map]
      exact List.map_congr_left fun c hc => by simp [hfits c hc]
    · have hlt := Round.rest_length_lt hround
      obtain ⟨shares, hshares, rfl⟩ := ih rest.length (by omega) hrest rfl
      obtain ⟨violation, hviolation, rfl, rfl, rfl, rfl⟩ := Round.ofClaims_again hround
      refine ⟨_, .again hviolation hshares, ?_⟩
      rw [List.map_append, List.map_map]
      rfl

namespace Shared

variable {shares : List (Claim ω × Int)}

/-- Every claim has one length. -/
theorem perm (h : Shared pool weights claims shares) : (shares.map Prod.fst).Perm claims := by
  induction h with
  | complete _ =>
    rw [List.map_map]
    exact .of_eq (List.map_id _)
  | again _ _ ih =>
    rw [List.map_append, List.map_map]
    exact (List.Perm.append (.of_eq (List.map_id _)) ih).trans (List.filter_append_perm _ _)

/-- Every length is what some round offers, within bounds. -/
theorem exists_bounded (h : Shared pool weights claims shares) {s : Claim ω × Int}
    (hs : s ∈ shares) : ∃ pool weights, s.2 = s.1.bounded pool weights := by
  induction h with
  | complete _ =>
    obtain ⟨c, -, rfl⟩ := List.mem_map.1 hs
    exact ⟨_, _, rfl⟩
  | again _ _ ih =>
    rcases List.mem_append.1 hs with hs | hs
    · obtain ⟨c, -, rfl⟩ := List.mem_map.1 hs
      exact ⟨_, _, rfl⟩
    · exact ih hs

theorem admits (h : Shared pool weights claims shares) {s : Claim ω × Int} (hs : s ∈ shares) :
    s.1.bounds.Admits s.2 := by
  obtain ⟨pool, weights, hlength⟩ := h.exists_bounded hs
  rw [hlength]
  exact Bounds.admits_constrain _ _

end Shared

/-- Every claim is granted one length. -/
theorem perm_index_shareOut (h : shareOut pool weights claims = .ok grants) :
    (grants.map Grant.index).Perm (claims.map Claim.index) := by
  obtain ⟨shares, hshares, rfl⟩ := shared_of_shareOut h
  have hperm := hshares.perm.map Claim.index
  rwa [List.map_map] at hperm ⊢

/-- Where no share and no bound is negative, no claim is granted a negative length. -/
theorem nonneg_of_mem_shareOut
    (hshare : ∀ (space : Int) (weight total : ω), 0 ≤ Weight.share space weight total)
    (hbounds : ∀ c ∈ claims, c.bounds.Nonneg) (h : shareOut pool weights claims = .ok grants) :
    ∀ g ∈ grants, 0 ≤ g.length := by
  obtain ⟨shares, hshares, rfl⟩ := shared_of_shareOut h
  intro g hg
  obtain ⟨s, hs, rfl⟩ := List.mem_map.1 hg
  have hclaim := hshares.perm.mem_iff.1 (List.mem_map_of_mem hs)
  obtain ⟨pool, weights, hlength⟩ := hshares.exists_bounded hs
  show 0 ≤ s.2
  rw [hlength]
  exact Bounds.constrain_nonneg (hbounds _ hclaim) (hshare ..)

end

/-! ## Exact weights -/

/-- The weights of the claims, added up. -/
def claimed (claims : List (Claim Nat)) : Nat := (claims.map Claim.weight).sum

theorem claimed_cons (c : Claim Nat) (cs : List (Claim Nat)) :
    claimed (c :: cs) = c.weight + claimed cs := by
  rw [claimed, List.map_cons, List.sum_cons, claimed]

theorem weight_le_claimed {claims : List (Claim Nat)} {c : Claim Nat} (hc : c ∈ claims) :
    c.weight ≤ claimed claims :=
  List.single_le_sum (fun _ _ => Nat.zero_le _) _ (List.mem_map_of_mem hc)

theorem exactShare_nonneg (space : Int) (weight total : Nat) :
    0 ≤ exactShare space weight total := by
  unfold exactShare
  split
  · exact Int.le_refl 0
  · exact Int.ediv_nonneg (Int.mul_nonneg (by omega) (by omega)) (by omega)

/-- Rounded down, the parts of the space do not add up to more than the space. -/
theorem sum_exactShare_le {space : Int} (hspace : 0 ≤ space) (total : Nat) (weights : List Nat)
    (htotal : weights.sum ≤ total) :
    (weights.map fun w => exactShare space w total).sum ≤ space := by
  by_cases h0 : total = 0 ∨ space ≤ 0
  · have hz : (weights.map fun w => exactShare space w total) = weights.map fun _ => 0 :=
      List.map_congr_left fun w _ => if_pos h0
    simpa [hz] using hspace
  · have hpos : (0 : Int) < total := by omega
    have key : ∀ ws : List Nat,
        (ws.map fun w => exactShare space w total).sum * total ≤ space * (ws.sum : Nat) := by
      intro ws
      induction ws with
      | nil => simp
      | cons w ws ih =>
        have hw : exactShare space w total * total ≤ space * w := by
          rw [exactShare, if_neg h0]
          exact Int.ediv_mul_le _ (by omega)
        simp only [List.map_cons, List.sum_cons, Int.natCast_add, Int.mul_add, Int.add_mul]
        omega
    have hle : (weights.map fun w => exactShare space w total).sum * total ≤ space * total := by
      refine Int.le_trans (key weights) (Int.mul_le_mul_of_nonneg_left ?_ hspace)
      exact_mod_cast htotal
    exact Int.le_of_mul_le_mul_right hle hpos

variable {pool left : Int} {claims rest : List (Claim Nat)} {settled grants : List Grant}

theorem offer_nonneg (pool : Int) (weights : Nat) (c : Claim Nat) : 0 ≤ c.offer pool weights :=
  exactShare_nonneg pool _ _

theorem sum_offer_le (hpool : 0 ≤ pool) (claims : List (Claim Nat)) :
    (claims.map (Claim.offer pool (claimed claims))).sum ≤ pool := by
  have := sum_exactShare_le hpool (claimed claims) (claims.map Claim.weight) (Nat.le_refl _)
  rwa [List.map_map] at this

theorem foldl_sub_weight (cs : List (Claim Nat)) (start : Nat) :
    cs.foldl (fun sum c => Weight.sub sum c.weight) start = start - claimed cs := by
  induction cs generalizing start with
  | nil => rfl
  | cons c cs ih =>
    rw [List.foldl_cons, ih, claimed_cons]
    exact Nat.sub_sub _ _ _

/-- Claims that can be met: no bound is negative, and the lower bounds fit in the pool. -/
structure Payable (pool : Int) (claims : List (Claim Nat)) : Prop where
  bounds : ∀ c ∈ claims, c.bounds.Nonneg
  pool_nonneg : 0 ≤ pool
  floors : (claims.map fun c => c.bounds.floor).sum ≤ pool

/-- What a round over `claims` keeps: the weights of the open claims, that they can be met, and the
space, which what is settled and what is left make up. -/
structure Round.Keeps (pool : Int) (claims : List (Claim Nat)) (settled : List Grant) (left : Int)
    (weights : Nat) (rest : List (Claim Nat)) : Prop where
  weights : weights = claimed rest
  claimed_le : claimed rest ≤ claimed claims
  payable : Payable left rest
  spent : (settled.map Grant.length).sum + left = pool
  left_le : left ≤ pool

/-- The settled claims and the lower bounds of the rest fit in the pool together. -/
theorem settled_add_floors_le (hpay : Payable pool claims) {violation : Int}
    (hviolation : violation = (claims.map fun c =>
      c.bounded pool (claimed claims) - c.offer pool (claimed claims)).sum) :
    ((claims.filter (Claim.isSettled pool (claimed claims) violation)).map
        (Claim.bounded pool (claimed claims))).sum +
      ((claims.filter fun c => !Claim.isSettled pool (claimed claims) violation c).map
        fun c => c.bounds.floor).sum ≤ pool := by
  generalize hS : Claim.isSettled pool (claimed claims) violation = S
  by_cases hpos : 0 < violation
  · -- raised claims are settled at their lower bounds
    have hraised : (claims.filter S).map (Claim.bounded pool (claimed claims)) =
        (claims.filter S).map fun c => c.bounds.floor := by
      refine List.map_congr_left fun c hc => Bounds.constrain_eq_floor_of_lt ?_
      have hset := (List.mem_filter.1 hc).2
      rw [← hS, Claim.isSettled_iff] at hset
      show c.offer pool (claimed claims) < c.bounded pool (claimed claims)
      omega
    rw [hraised, Length.sum_filter_add_sum_filter_not]
    exact hpay.floors
  · -- the bounded offers all fit together
    have hfloors : ((claims.filter fun c => !S c).map fun c => c.bounds.floor).sum ≤
        ((claims.filter fun c => !S c).map (Claim.bounded pool (claimed claims))).sum := by
      refine List.sum_le_sum fun c hc => ?_
      exact Bounds.floor_le_constrain (hpay.bounds c (List.mem_filter.1 hc).1)
        (offer_nonneg pool _ c)
    have hsplit :=
      Length.sum_filter_add_sum_filter_not S (Claim.bounded pool (claimed claims)) claims
    have hbounded := sum_bounded_eq hviolation
    have hoffers := sum_offer_le hpay.pool_nonneg claims
    omega

/-- A round that goes on keeps the space, and that its claims can be met. -/
theorem Round.keeps (hpay : Payable pool claims) {violation : Int}
    (hviolation : violation = (claims.map fun c =>
      c.bounded pool (claimed claims) - c.offer pool (claimed claims)).sum) :
    Round.Keeps pool claims
      ((claims.filter (Claim.isSettled pool (claimed claims) violation)).map
        fun c => c.grant (c.bounded pool (claimed claims)))
      (max (pool - ((claims.filter (Claim.isSettled pool (claimed claims) violation)).map
        (Claim.bounded pool (claimed claims))).sum) 0)
      ((claims.filter (Claim.isSettled pool (claimed claims) violation)).foldl
        (fun sum c => Weight.sub sum c.weight) (claimed claims))
      (claims.filter fun c => !Claim.isSettled pool (claimed claims) violation c) := by
  have hfit := settled_add_floors_le hpay hviolation
  generalize Claim.isSettled pool (claimed claims) violation = S at hfit ⊢
  have hbounds : ∀ c ∈ claims.filter fun c => !S c, c.bounds.Nonneg :=
    fun c hc => hpay.bounds c (List.mem_filter.1 hc).1
  have hfloors : 0 ≤ ((claims.filter fun c => !S c).map fun c => c.bounds.floor).sum := by
    refine List.sum_nonneg fun n hn => ?_
    obtain ⟨c, hc, rfl⟩ := List.mem_map.1 hn
    exact Bounds.floor_nonneg (hbounds c hc)
  have hsettled : 0 ≤ ((claims.filter S).map (Claim.bounded pool (claimed claims))).sum := by
    refine List.sum_nonneg fun n hn => ?_
    obtain ⟨c, hc, rfl⟩ := List.mem_map.1 hn
    exact Bounds.constrain_nonneg (hpay.bounds c (List.mem_filter.1 hc).1)
      (offer_nonneg pool _ c)
  have hclaimed : claimed (claims.filter S) + claimed (claims.filter fun c => !S c) =
      claimed claims := by
    simp only [claimed]
    rw [← List.sum_append, ← List.map_append]
    exact ((List.filter_append_perm S claims).map Claim.weight).sum_eq
  refine ⟨?_, by omega, ⟨hbounds, by omega, by omega⟩, ?_, by omega⟩
  · rw [foldl_sub_weight]
    omega
  · rw [List.map_map]
    show ((claims.filter S).map (Claim.bounded pool (claimed claims))).sum + _ = pool
    omega

theorem Round.keeps_of_again {weights' : Nat} (hpay : Payable pool claims)
    (h : Round.ofClaims pool (claimed claims) claims = .ok (.again settled left weights' rest)) :
    Round.Keeps pool claims settled left weights' rest := by
  obtain ⟨violation, hviolation, rfl, rfl, rfl, rfl⟩ := Round.ofClaims_again h
  exact Round.keeps hpay hviolation

/-- The lengths shared out of a pool that covers the lower bounds do not exceed it. -/
theorem Shared.sum_le {weights : Nat} {shares : List (Claim Nat × Int)}
    (h : Shared pool weights claims shares) (hweights : weights = claimed claims)
    (hpay : Payable pool claims) : (shares.map Prod.snd).sum ≤ pool := by
  induction h with
  | @complete pool weights claims hfits =>
    subst hweights
    have hlengths : claims.map (Prod.snd ∘ fun c => (c, c.bounded pool (claimed claims))) =
        claims.map (Claim.offer pool (claimed claims)) := List.map_congr_left hfits
    rw [List.map_map, hlengths]
    exact sum_offer_le hpay.pool_nonneg claims
  | @again pool weights claims violation others hviolation hrest ih =>
    subst hweights
    obtain ⟨hweights, -, hpay', hspent, -⟩ := Round.keeps hpay hviolation
    have hle := ih hweights hpay'
    rw [List.map_map] at hspent
    rw [List.map_append, List.map_map, List.sum_append]
    simp only [Function.comp_def, Claim.grant] at hspent ⊢
    omega

/-- The lengths granted out of a pool that covers the lower bounds do not exceed it. -/
theorem sum_shareOut_le (hpay : Payable pool claims)
    (h : shareOut pool (claimed claims) claims = .ok grants) :
    (grants.map Grant.length).sum ≤ pool := by
  obtain ⟨shares, hshares, rfl⟩ := shared_of_shareOut h
  rw [List.map_map]
  exact hshares.sum_le rfl hpay

end Trellis.Box
