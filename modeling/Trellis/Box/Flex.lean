import Trellis.Binary64
import Trellis.Box.Request

/-!
# Sharing leftover space by weight

Children with a weight claim a part of the leftover space of a line. A round offers every claim the
floor of its exact part. An offer outside the child's bounds is corrected to the nearer bound, and
the sum of the corrections decides which claims are settled at their bound: a positive sum settles
those that were raised, a negative sum those that were lowered, and zero settles every corrected
one. What is left of the space is offered to the rest in the next round, so bounds are honoured and
the offers never add up to more than there is.

* `Round.rest_length_lt`: a round that does not end the sharing settles at least one claim, so
  there are at most as many rounds as claims.
* `Weight Float` shares in binary64 arithmetic, as layouts do; `Weight Nat` shares exactly.
-/
namespace Trellis.Box

/-- A child's claim to leftover space, by its position in the line. -/
structure Claim (ω : Type) where
  index : Nat
  weight : ω
  bounds : Bounds
  deriving Repr

/-- The main length given to the child at a position. -/
structure Grant where
  index : Nat
  length : Int
  deriving DecidableEq, Repr

namespace Claim

variable {ω : Type} [Weight ω]

/-- The part of the pool that the claim's weight stands for. -/
def offer (pool : Int) (weights : ω) (c : Claim ω) : Int := Weight.share pool c.weight weights

/-- The offer within the child's bounds. -/
def bounded (pool : Int) (weights : ω) (c : Claim ω) : Int :=
  c.bounds.constrain (c.offer pool weights)

/-- By how much the bounds raise the offer. -/
def correction (pool : Int) (weights : ω) (c : Claim ω) : Checked Int :=
  Length.sub (c.bounded pool weights) (c.offer pool weights)

/-- Whether a round whose corrections add up to `violation` settles the claim at its bound. -/
def isSettled (pool : Int) (weights : ω) (violation : Int) (c : Claim ω) : Bool :=
  let offer := c.offer pool weights
  let bounded := c.bounded pool weights
  if 0 < violation then offer < bounded
  else if violation < 0 then bounded < offer
  else bounded ≠ offer

def grant (length : Int) (c : Claim ω) : Grant := ⟨c.index, length⟩

end Claim

/-- What one round of sharing comes to. -/
inductive Round (ω : Type) where
  /-- Every offer is within bounds. -/
  | complete (grants : List Grant)
  /-- Some claims are settled; the rest share what is left. -/
  | again (settled : List Grant) (pool : Int) (weights : ω) (rest : List (Claim ω))

namespace Round

variable {ω : Type} [Weight ω]

/-- One round of sharing `pool` among claims whose weights add up to `weights`. -/
def ofClaims (pool : Int) (weights : ω) (claims : List (Claim ω)) : Checked (Round ω) := do
  let violation ← Length.total (Claim.correction pool weights) claims
  if claims.all fun c => c.bounded pool weights == c.offer pool weights then
    return .complete (claims.map fun c => c.grant (c.offer pool weights))
  let (settled, rest) := claims.partition (Claim.isSettled pool weights violation)
  let left ← settled.foldlM (fun left c => Length.sub left (c.bounded pool weights)) pool
  return .again (settled.map fun c => c.grant (c.bounded pool weights)) (max left 0)
    (settled.foldl (fun sum c => Weight.sub sum c.weight) weights) rest

/-- Some claim of an unfinished round is settled: corrections that add up to more (less) than zero
include one that is. -/
theorem exists_isSettled {pool : Int} {weights : ω} {claims : List (Claim ω)} {violation : Int}
    (hsum : Length.total (Claim.correction pool weights) claims = .ok violation)
    (hviol : ¬ claims.all (fun c => c.bounded pool weights == c.offer pool weights) = true) :
    ∃ c ∈ claims, Claim.isSettled pool weights violation c = true := by
  have key : ∀ (cs : List (Claim ω)) (start s : Int),
      cs.foldlM (fun acc c => do Length.add acc (← Claim.correction pool weights c)) start = .ok s →
      (s ≤ start ∨ ∃ c ∈ cs, c.offer pool weights < c.bounded pool weights) ∧
      (start ≤ s ∨ ∃ c ∈ cs, c.bounded pool weights < c.offer pool weights) := by
    intro cs
    induction cs with
    | nil =>
      intro start s h
      simp only [List.foldlM_nil, pure, Except.pure, Except.ok.injEq] at h
      exact ⟨.inl (by omega), .inl (by omega)⟩
    | cons c cs ih =>
      intro start s h
      simp only [List.foldlM_cons, Length.bind_eq_ok] at h
      obtain ⟨mid, ⟨t, ht, hmid⟩, hrest⟩ := h
      have ht' := (Length.sub_eq_ok.1 ht).1
      have hm := (Length.add_eq_ok.1 hmid).1
      obtain ⟨h1, h2⟩ := ih mid s hrest
      constructor
      · by_cases hc : c.offer pool weights < c.bounded pool weights
        · exact .inr ⟨c, by simp, hc⟩
        · rcases h1 with h1 | ⟨d, hd, hlt⟩
          · exact .inl (by omega)
          · exact .inr ⟨d, by simp [hd], hlt⟩
      · by_cases hc : c.bounded pool weights < c.offer pool weights
        · exact .inr ⟨c, by simp, hc⟩
        · rcases h2 with h2 | ⟨d, hd, hlt⟩
          · exact .inl (by omega)
          · exact .inr ⟨d, by simp [hd], hlt⟩
  obtain ⟨h1, h2⟩ := key claims 0 violation hsum
  by_cases hpos : 0 < violation
  · obtain ⟨c, hc, hlt⟩ := h1.resolve_left (by omega)
    exact ⟨c, hc, by simp [Claim.isSettled, hpos, hlt]⟩
  · by_cases hneg : violation < 0
    · obtain ⟨c, hc, hlt⟩ := h2.resolve_left (by omega)
      exact ⟨c, hc, by simp [Claim.isSettled, hpos, hneg, hlt]⟩
    · simp only [List.all_eq_true, beq_iff_eq, Classical.not_forall] at hviol
      obtain ⟨c, hc, hne⟩ := hviol
      exact ⟨c, hc, by simp [Claim.isSettled, hpos, hneg, hne]⟩

theorem rest_length_lt {pool left : Int} {weights weights' : ω} {claims rest : List (Claim ω)}
    {settled : List Grant}
    (h : ofClaims pool weights claims = .ok (.again settled left weights' rest)) :
    rest.length < claims.length := by
  unfold ofClaims at h
  obtain ⟨violation, hsum, h⟩ := Length.bind_eq_ok.1 h
  split at h
  · cases h
  · next hviol =>
    obtain ⟨c, hc, hset⟩ := exists_isSettled hsum hviol
    simp only [List.partition_eq_filter_filter] at h
    obtain ⟨_, _, h⟩ := Length.bind_eq_ok.1 h
    simp only [pure, Except.pure, Except.ok.injEq, Round.again.injEq] at h
    rw [← h.2.2.2]
    have hle := List.length_filter_le (not ∘ Claim.isSettled pool weights violation) claims
    rcases Nat.lt_or_ge (claims.filter (not ∘ Claim.isSettled pool weights violation)).length
      claims.length with hlt | hge
    · exact hlt
    · have heq := List.length_filter_eq_length_iff.1 (Nat.le_antisymm hle hge) c hc
      simp [hset] at heq

end Round

variable {ω : Type} [Weight ω]

/-- The main lengths that the claims are granted out of `pool`. -/
def shareOut (pool : Int) (weights : ω) (claims : List (Claim ω)) : Checked (List Grant) :=
  match _h : Round.ofClaims pool weights claims with
  | .error fault => .error fault
  | .ok (.complete grants) => .ok grants
  | .ok (.again settled left weights' rest) => (settled ++ ·) <$> shareOut left weights' rest
termination_by claims.length
decreasing_by exact Round.rest_length_lt _h

/-- The floor of `space · weight / total` in binary64 arithmetic; nothing when there is no space or
no weight. -/
def flexShare (space : Int) (weight total : Float) : Int :=
  if total ≤ 0 || space ≤ 0 then 0
  else Binary64.floorLength (Float.ofInt space * weight / total)

/-- The floor of `space · weight / total`. -/
def exactShare (space : Int) (weight total : Nat) : Int :=
  if total = 0 ∨ space ≤ 0 then 0 else space * weight / total

instance : Weight Float where
  zero := 0
  add := (· + ·)
  sub := (· - ·)
  isPositive x := 0 < x
  share space weight total := max (flexShare space weight total) 0

instance : Weight Nat where
  zero := 0
  add := (· + ·)
  sub := (· - ·)
  isPositive n := 0 < n
  share := exactShare

end Trellis.Box
