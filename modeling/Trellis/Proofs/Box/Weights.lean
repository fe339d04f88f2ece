import Trellis.Proofs.Box.Lines

/-!
# Weights whose arithmetic is exact

Layouts share space in whatever arithmetic their weights have. Where that arithmetic is exact on the
numbers that occur, space is shared as it is with natural numbers for weights. Binary64 numbers
are exact for whole weights as long as total weight times space stays below 2^53; and fractions with
a common denominator count by their numerators.

* `Weight.Exact`: numbers up to `most` are weights that count, for space up to `room`.
* `shareOut_withWeight`: the shares are the same; `shareOut_counted`: so are those of a line's
  children, if the weights of those that share leftover space stand for numbers.
* `roomyMains_fit`: with room to spare, the children stay within the line.
-/
namespace Trellis

/-- `weigh` writes the numbers up to `most` as weights; adding them, taking them away and sharing
space up to `room` by them are exact. -/
structure Weight.Exact {ω : Type} [Weight ω] (weigh : Nat → ω) (most : Nat) (room : Int) :
    Prop where
  zero : Weight.zero = weigh 0
  add : ∀ {m n}, m + n ≤ most → Weight.add (weigh m) (weigh n) = weigh (m + n)
  sub : ∀ {m n}, n ≤ m → m ≤ most → Weight.sub (weigh m) (weigh n) = weigh (m - n)
  isPositive : ∀ {n}, n ≤ most → Weight.isPositive (weigh n) = decide (0 < n)
  share : ∀ {space w total}, space ≤ room → w ≤ total → total ≤ most →
    Weight.share space (weigh w) (weigh total) = Box.exactShare space w total

/-- Natural numbers count as themselves. -/
theorem Weight.exact_nat (most : Nat) (room : Int) : Weight.Exact (id : Nat → Nat) most room where
  zero := rfl
  add _ := rfl
  sub _ _ := rfl
  isPositive _ := rfl
  share _ _ _ := rfl

namespace Box

variable {ω : Type}

/-- The claim with the number that its weight stands for. -/
def Claim.counted (count : ω → Nat) (c : Claim ω) : Claim Nat where
  index := c.index
  weight := count c.weight
  bounds := c.bounds

def Claim.withWeight (weigh : Nat → ω) (c : Claim Nat) : Claim ω where
  index := c.index
  weight := weigh c.weight
  bounds := c.bounds

def Round.withWeight (weigh : Nat → ω) : Round Nat → Round ω
  | .complete grants => .complete grants
  | .again settled pool weights rest =>
    .again settled pool (weigh weights) (rest.map (Claim.withWeight weigh))

variable [Weight ω] {weigh : Nat → ω} {most : Nat} {room : Int}

/-! ## Sharing -/

section

variable {pool : Int} {claims : List (Claim Nat)}

theorem offer_withWeight (hw : Weight.Exact weigh most room) (hpool : pool ≤ room)
    (hmost : claimed claims ≤ most) {c : Claim Nat} (hc : c ∈ claims) :
    (c.withWeight weigh).offer pool (weigh (claimed claims)) = c.offer pool (claimed claims) :=
  hw.share hpool (weight_le_claimed hc) hmost

theorem bounded_withWeight (hw : Weight.Exact weigh most room) (hpool : pool ≤ room)
    (hmost : claimed claims ≤ most) {c : Claim Nat} (hc : c ∈ claims) :
    (c.withWeight weigh).bounded pool (weigh (claimed claims)) =
      c.bounded pool (claimed claims) :=
  congrArg c.bounds.constrain (offer_withWeight hw hpool hmost hc)

theorem isSettled_withWeight (hw : Weight.Exact weigh most room) (hpool : pool ≤ room)
    (hmost : claimed claims ≤ most) (violation : Int) {c : Claim Nat} (hc : c ∈ claims) :
    (c.withWeight weigh).isSettled pool (weigh (claimed claims)) violation =
      c.isSettled pool (claimed claims) violation := by
  simp only [Claim.isSettled, offer_withWeight hw hpool hmost hc,
    bounded_withWeight hw hpool hmost hc]

theorem foldl_sub_withWeight (hw : Weight.Exact weigh most room) {cs : List (Claim Nat)}
    {start : Nat} (hcs : claimed cs ≤ start) (hstart : start ≤ most) :
    (cs.map (Claim.withWeight weigh)).foldl (fun sum c => Weight.sub sum c.weight) (weigh start) =
      weigh (cs.foldl (fun sum c => Weight.sub sum c.weight) start) := by
  induction cs generalizing start with
  | nil => rfl
  | cons c cs ih =>
    rw [claimed_cons] at hcs
    rw [List.map_cons, List.foldl_cons, List.foldl_cons]
    show _ = weigh (cs.foldl _ (start - c.weight))
    rw [← ih (show claimed cs ≤ start - c.weight by omega) (by omega)]
    congr 1
    exact hw.sub (by omega) hstart

theorem foldl_add_withWeight (hw : Weight.Exact weigh most room) {cs : List (Claim Nat)}
    {start : Nat} (hmost : start + claimed cs ≤ most) :
    (cs.map (Claim.withWeight weigh)).foldl (fun sum c => Weight.add sum c.weight) (weigh start) =
      weigh (start + claimed cs) := by
  induction cs generalizing start with
  | nil => rfl
  | cons c cs ih =>
    rw [claimed_cons] at hmost
    have hadd : Weight.add (weigh start) (weigh c.weight) = weigh (start + c.weight) :=
      hw.add (by omega)
    rw [claimed_cons, ← Nat.add_assoc, ← ih (by omega), ← hadd]
    rfl

theorem claimed_filter_le (p : Claim Nat → Bool) (claims : List (Claim Nat)) :
    claimed (claims.filter p) ≤ claimed claims :=
  (List.filter_sublist.map Claim.weight).sum_le_sum fun _ _ => Nat.zero_le _

omit [Weight ω] in
theorem filter_withWeight {p : Claim ω → Bool} {q : Claim Nat → Bool}
    (h : ∀ c ∈ claims, p (c.withWeight weigh) = q c) :
    (claims.map (Claim.withWeight weigh)).filter p =
      (claims.filter q).map (Claim.withWeight weigh) := by
  rw [List.filter_map]
  exact congrArg _ (List.filter_congr h)

/-- The claims `cs` that a round settles leave the pool, and get the same grants. -/
theorem settle_withWeight (hw : Weight.Exact weigh most room) (hpool : pool ≤ room)
    (hmost : claimed claims ≤ most) {cs : List (Claim Nat)} (hcs : ∀ c ∈ cs, c ∈ claims) :
    (cs.map (Claim.withWeight weigh)).foldlM
        (fun left c => Length.sub left (c.bounded pool (weigh (claimed claims)))) pool =
      cs.foldlM (fun left c => Length.sub left (c.bounded pool (claimed claims))) pool ∧
    (cs.map (Claim.withWeight weigh)).map
        (fun c => c.grant (c.bounded pool (weigh (claimed claims)))) =
      cs.map fun c => c.grant (c.bounded pool (claimed claims)) := by
  have hbounded := fun c hc => bounded_withWeight (c := c) hw hpool hmost (hcs c hc)
  constructor
  · rw [List.foldlM_map]
    exact Length.foldlM_congr (fun c hc left => by rw [hbounded c hc]) pool
  · rw [List.map_map]
    refine List.map_congr_left fun c hc => ?_
    rw [Function.comp_apply, hbounded c hc]
    rfl

theorem ofClaims_withWeight (hw : Weight.Exact weigh most room) (hpool : pool ≤ room)
    (hmost : claimed claims ≤ most) :
    Round.ofClaims pool (weigh (claimed claims)) (claims.map (Claim.withWeight weigh)) =
      (Round.ofClaims pool (claimed claims) claims).map (Round.withWeight weigh) := by
  have hoffer := fun c hc => offer_withWeight (c := c) hw hpool hmost hc
  have hbounded := fun c hc => bounded_withWeight (c := c) hw hpool hmost hc
  have hcorrection : Length.total (Claim.correction pool (weigh (claimed claims)))
      (claims.map (Claim.withWeight weigh)) =
      Length.total (Claim.correction pool (claimed claims)) claims := by
    rw [Length.total_map]
    refine Length.total_congr fun c hc => ?_
    simp only [Claim.correction, hoffer c hc, hbounded c hc]
  have hall : ((claims.map (Claim.withWeight weigh)).all fun c =>
      c.bounded pool (weigh (claimed claims)) == c.offer pool (weigh (claimed claims))) =
      claims.all fun c => c.bounded pool (claimed claims) == c.offer pool (claimed claims) := by
    rw [List.all_map, Bool.eq_iff_iff, List.all_eq_true, List.all_eq_true]
    refine forall₂_congr fun c hc => ?_
    rw [Function.comp_apply, hoffer c hc, hbounded c hc]
  have hcomplete : (claims.map (Claim.withWeight weigh)).map
      (fun c => c.grant (c.offer pool (weigh (claimed claims)))) =
      claims.map fun c => c.grant (c.offer pool (claimed claims)) := by
    rw [List.map_map]
    refine List.map_congr_left fun c hc => ?_
    rw [Function.comp_apply, hoffer c hc]
    rfl
  unfold Round.ofClaims
  rw [hcorrection, hall, hcomplete]
  cases Length.total (Claim.correction pool (claimed claims)) claims with
  | error fault => rfl
  | ok violation =>
    have hset := fun c hc => isSettled_withWeight (c := c) hw hpool hmost violation hc
    have hopen : ∀ c ∈ claims,
        (not ∘ Claim.isSettled pool (weigh (claimed claims)) violation) (c.withWeight weigh) =
          (not ∘ Claim.isSettled pool (claimed claims) violation) c :=
      fun c hc => congrArg not (hset c hc)
    have hsettled : ∀ c ∈ claims.filter (Claim.isSettled pool (claimed claims) violation),
        c ∈ claims := fun c hc => (List.mem_filter.1 hc).1
    obtain ⟨hleft, hgrants⟩ := settle_withWeight hw hpool hmost hsettled
    simp only [Length.ok_bind, List.partition_eq_filter_filter, filter_withWeight hset,
      filter_withWeight hopen, hleft, hgrants,
      foldl_sub_withWeight hw (claimed_filter_le _ claims) hmost]
    split
    · rfl
    · cases (claims.filter (Claim.isSettled pool (claimed claims) violation)).foldlM
        (fun left c => Length.sub left (c.bounded pool (claimed claims))) pool <;> rfl

theorem shareOut_withWeight (hw : Weight.Exact weigh most room) (hpay : Payable pool claims)
    (hpool : pool ≤ room) (hmost : claimed claims ≤ most) :
    shareOut pool (weigh (claimed claims)) (claims.map (Claim.withWeight weigh)) =
      shareOut pool (claimed claims) claims := by
  induction hn : claims.length using Nat.strongRecOn generalizing pool claims with
  | ind n ih =>
    rw [shareOut_eq, shareOut_eq pool (claimed claims), ofClaims_withWeight hw hpool hmost]
    cases hround : Round.ofClaims pool (claimed claims) claims with
    | error fault => rfl
    | ok round =>
      cases round with
      | complete grants => rfl
      | again settled left weights' rest =>
        have hlt := Round.rest_length_lt hround
        obtain ⟨rfl, hclaimed, hpay', -, hleft⟩ := Round.keeps_of_again hpay hround
        show (settled ++ ·) <$> shareOut left (weigh (claimed rest))
          (rest.map (Claim.withWeight weigh)) = _
        rw [ih rest.length (by omega) hpay' (by omega) (by omega) rfl]

end

/-! ## Lines -/

section

variable {a : Axis} {boxes : List (Request ω)} {count : ω → Nat}

/-- The total weight of the children that share leftover space. -/
def flexCount (count : ω → Nat) (a : Axis) (boxes : List (Request ω)) : Nat :=
  ((boxes.filter fun r => r.isFlexed a).map fun r => count r.flex).sum

theorem claimed_counted (boxes : List (Request ω)) :
    claimed ((claims a boxes).map (Claim.counted count)) = flexCount count a boxes := by
  rw [claimed, claims, List.map_map, List.map_map, flexCount,
    ← map_fst_filter_zipIdx (fun r => r.isFlexed a) boxes, List.map_map]
  rfl

theorem index_counted (boxes : List (Request ω)) :
    ((claims a boxes).map (Claim.counted count)).map Claim.index =
      (claims a boxes).map Claim.index := by
  rw [List.map_map]
  rfl

theorem weight_counted_pos
    (hweigh : ∀ r ∈ boxes, r.isFlexed a = true → weigh (count r.flex) = r.flex)
    (hw : Weight.Exact weigh (flexCount count a boxes) room) :
    ∀ c ∈ (claims a boxes).map (Claim.counted count), 0 < c.weight := by
  intro c hc
  have hle := weight_le_claimed hc
  rw [claimed_counted] at hle
  obtain ⟨_, hclaim, rfl⟩ := List.mem_map.1 hc
  obtain ⟨r, i, hmem, hflexed, rfl⟩ := mem_claims_iff.1 hclaim
  have hcount := hweigh r (List.fst_mem_of_mem_zipIdx hmem) hflexed
  have hpos : Weight.isPositive (weigh (count r.flex)) = true := by
    rw [hcount]
    exact Request.isPositive_of_isFlexed hflexed
  exact of_decide_eq_true ((hw.isPositive hle).symm.trans hpos)

/-- With room to spare, the claims to the leftover space can be met, whatever the weights. -/
theorem payable_counted (count : ω → Nat) {innerMain : Int} {s : Summary}
    (ht : Totals a innerMain boxes s) (hnonneg : ∀ r ∈ boxes, r.Nonneg) (hroomy : s.shortfall ≤ 0) :
    Payable (innerMain - s.nonFlexMain - s.flexMargins)
      ((claims a boxes).map (Claim.counted count)) := by
  have hcover := flexFloor_le_leftover ht hroomy
  have hfloors := flexFloor_nonneg (a := a) hnonneg
  refine ⟨fun c hc => ?_, by omega, ?_⟩
  · obtain ⟨_, hclaim, rfl⟩ := List.mem_map.1 hc
    exact bounds_claims_nonneg hnonneg _ hclaim
  · rw [List.map_map]
    exact Int.le_trans (Int.le_of_eq (sum_floor_claims boxes)) hcover

/-- Leftover space is shared as it is with natural numbers for weights, provided that the weights of
the children that share it stand for numbers. -/
theorem shareOut_counted {pool : Int}
    (hweigh : ∀ r ∈ boxes, r.isFlexed a = true → weigh (count r.flex) = r.flex)
    (hw : Weight.Exact weigh (flexCount count a boxes) room)
    (hpay : Payable pool ((claims a boxes).map (Claim.counted count))) (hpool : pool ≤ room) :
    shareOut pool (totalWeight a boxes) (claims a boxes) =
      shareOut pool (flexCount count a boxes) ((claims a boxes).map (Claim.counted count)) := by
  have hclaims : claims a boxes =
      ((claims a boxes).map (Claim.counted count)).map (Claim.withWeight weigh) := by
    rw [List.map_map]
    refine (List.map_id _).symm.trans (List.map_congr_left fun c hc => ?_)
    obtain ⟨r, i, hmem, hflexed, rfl⟩ := mem_claims_iff.1 hc
    simp [Claim.counted, Claim.withWeight,
      hweigh r (List.fst_mem_of_mem_zipIdx hmem) hflexed]
  have htotal : totalWeight a boxes = weigh (flexCount count a boxes) := by
    rw [totalWeight_eq_foldl, hclaims, hw.zero, foldl_add_withWeight hw
      (by rw [claimed_counted]; omega), claimed_counted, Nat.zero_add]
  have hshare := shareOut_withWeight hw hpay hpool (Nat.le_of_eq (claimed_counted boxes))
  rw [claimed_counted, ← hclaims, ← htotal] at hshare
  exact hshare

section

variable {innerMain : Int} {s : Summary} {lengths : List Int} (ht : Totals a innerMain boxes s)
  (hnonneg : ∀ r ∈ boxes, r.Nonneg) (hroomy : s.shortfall ≤ 0)
  (hweigh : ∀ r ∈ boxes, r.isFlexed a = true → weigh (count r.flex) = r.flex)
  (hw : Weight.Exact weigh (flexCount count a boxes) innerMain)
  (h : roomyMains a innerMain s boxes = .ok lengths)

include ht hnonneg hroomy hweigh hw h

/-- With room to spare, children get what natural numbers for weights grant them. -/
theorem exists_grants_counted :
    ∃ grants, shareOut (innerMain - s.nonFlexMain - s.flexMargins) (flexCount count a boxes)
        ((claims a boxes).map (Claim.counted count)) = .ok grants ∧
      (grants.map Grant.index).Perm
        ((boxes.zipIdx.filter fun e => e.1.isFlexed a).map Prod.snd) ∧
      lengths = boxes.zipIdx.map fun e =>
        if e.1.isFlexed a then granted grants e.2 0 else e.1.resolvedMain a := by
  obtain ⟨grants, hgrants, rfl⟩ := exists_grants h
  have hpay := payable_counted count ht hnonneg hroomy
  have hunshared := unshared_nonneg ht hnonneg
  rw [Int.max_eq_left hpay.pool_nonneg, shareOut_counted hweigh hw hpay (by omega)] at hgrants
  refine ⟨grants, hgrants, ?_, rfl⟩
  rw [← index_claims, ← index_counted]
  exact perm_index_shareOut hgrants

/-- With room to spare, the children stay within the line. -/
theorem roomyMains_fit :
    lengths.sum + (boxes.map (Request.mainMargin a)).sum ≤ innerMain ∧ ∀ n ∈ lengths, 0 ≤ n := by
  obtain ⟨grants, hgrants, hindex, rfl⟩ := exists_grants_counted ht hnonneg hroomy hweigh hw h
  have hpay := payable_counted count ht hnonneg hroomy
  have hunshared := ht.unshared_eq
  have hfixed : ((boxes.zipIdx.filter fun e => !e.1.isFlexed a).map fun e =>
      e.1.resolvedMain a).sum = fixedMain a boxes :=
    sum_filter_zipIdx (fun r => !r.isFlexed a) (fun r => r.resolvedMain a) boxes
  rw [← claimed_counted] at hgrants
  have hle := sum_shareOut_le hpay hgrants
  constructor
  · rw [sum_zipIdx_split (a := a) (fun e => granted grants e.2 0) (fun e => e.1.resolvedMain a),
      sum_granted (fun _ => 0) hindex (nodup_snd_filter_zipIdx _ boxes), hfixed]
    omega
  · exact nonneg_of_grants hnonneg
      (nonneg_of_mem_shareOut exactShare_nonneg hpay.bounds hgrants)

end

end

end Box

end Trellis
