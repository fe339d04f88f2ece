import Mathlib.Data.List.Chain
import Trellis.Proofs.Box.Lines

/-!
# Rounds of sharing

Leftover space is shared in rounds. A round that is not the last one settles only the claims that
it corrected to one side, the side that the sum of the corrections points to, so that it could be
thought to settle none; but a sum that is not zero has a term of its sign, so it settles at least
one. Hence there are at most as many rounds as claims, whatever the parts of the space come to, and
no claim is granted a length twice.

* `deals`: the rounds with the claims open in them and the lengths they grant; `shareOut_eq_deals`:
  what sharing grants is what its rounds grant, one after the other.
* `isChain_deals`, `length_deals_le`: each round has fewer claims open than the round before it, so
  there are no more rounds than claims.
* `overflow_of_shareOut`: sharing is only given up when a length leaves its range.
* `handOut`: granted lengths entered where the children stand; `roomyMains_eq_handOut`: this is how
  a line with room to spare comes by its lengths.
* `shareOut_settles_once`: all of it, for a line of children.
-/
namespace Trellis

namespace Length

variable {α β : Type} {fault : Fault}

theorem overflow_of_checked {n : Int} (h : checked n = .error fault) : fault = .overflow := by
  unfold checked at h
  split at h
  · cases h
  · cases h
    rfl

theorem overflow_of_bind {x : Checked α} {f : α → Checked β}
    (hx : x = .error fault → fault = .overflow)
    (hf : ∀ a, f a = .error fault → fault = .overflow) (h : x >>= f = .error fault) :
    fault = .overflow := by
  cases x with
  | error e =>
    cases h
    exact hx rfl
  | ok a => exact hf a h

theorem overflow_of_foldlM {f : β → α → Checked β}
    (hf : ∀ b x, f b x = .error fault → fault = .overflow) {xs : List α} {start : β}
    (h : xs.foldlM f start = .error fault) : fault = .overflow := by
  induction xs generalizing start with
  | nil => cases h
  | cons x xs ih =>
    rw [List.foldlM_cons] at h
    exact overflow_of_bind (hf start x) (fun _ => ih) h

end Length

namespace Box

/-- A round of sharing: the claims that are open in it, and the lengths that it grants. -/
structure Deal (ω : Type) where
  claims : List (Claim ω)
  grants : List Grant
  deriving Repr

/-- The second round is left with some of the claims of the first one, and with fewer. -/
def Deal.Precedes {ω : Type} (d e : Deal ω) : Prop :=
  e.claims.Sublist d.claims ∧ e.claims.length < d.claims.length

section

variable {ω : Type} [Weight ω]

/-- The rounds in which `pool` is shared; there is none where nothing is claimed. -/
def deals (pool : Int) (weights : ω) (claims : List (Claim ω)) : Checked (List (Deal ω)) :=
  if claims.isEmpty then .ok [] else
    match _h : Round.ofClaims pool weights claims with
    | .error fault => .error fault
    | .ok (.complete grants) => .ok [⟨claims, grants⟩]
    | .ok (.again settled left weights' rest) =>
      (⟨claims, settled⟩ :: ·) <$> deals left weights' rest
termination_by claims.length
decreasing_by exact Round.rest_length_lt _h

variable {pool : Int} {weights : ω} {claims : List (Claim ω)} {ds : List (Deal ω)}
  {grants : List Grant}

theorem deals_of_ne_nil (hne : claims ≠ []) :
    deals pool weights claims =
      match Round.ofClaims pool weights claims with
      | .error fault => .error fault
      | .ok (.complete grants) => .ok [⟨claims, grants⟩]
      | .ok (.again settled left weights' rest) =>
        (⟨claims, settled⟩ :: ·) <$> deals left weights' rest := by
  rw [deals, if_neg (by simpa using hne)]
  split <;> next h => rw [h]

/-- What sharing grants is what its rounds grant, one after the other. -/
theorem shareOut_eq_deals (pool : Int) (weights : ω) (claims : List (Claim ω)) :
    shareOut pool weights claims = List.flatMap Deal.grants <$> deals pool weights claims := by
  induction hn : claims.length using Nat.strongRecOn generalizing pool weights claims with
  | ind n ih =>
    by_cases hne : claims = []
    · subst hne
      rw [shareOut_eq, deals]
      rfl
    · rw [shareOut_eq, deals_of_ne_nil hne]
      cases hround : Round.ofClaims pool weights claims with
      | error fault => rfl
      | ok round =>
        cases round with
        | complete grants => simp [Functor.map, Except.map]
        | again settled left weights' rest =>
          have hlt := Round.rest_length_lt hround
          simp only [ih rest.length (by omega) left weights' rest rfl]
          cases deals left weights' rest <;> rfl

/-- The first round has all claims open, and each further round fewer than the one before it. -/
theorem isChain_deals (h : deals pool weights claims = .ok ds) :
    (∀ d ∈ ds.head?, d.claims = claims) ∧ ds.IsChain Deal.Precedes := by
  induction hn : claims.length using Nat.strongRecOn generalizing pool weights claims ds with
  | ind n ih =>
    by_cases hne : claims = []
    · subst hne
      rw [deals] at h
      cases h
      exact ⟨by simp, .nil⟩
    · rw [deals_of_ne_nil hne] at h
      split at h
      · cases h
      · cases h
        exact ⟨by simp, .singleton _⟩
      · next settled left weights' rest hround =>
        obtain ⟨others, hothers, rfl⟩ := Length.map_eq_ok.1 h
        have hlt := Round.rest_length_lt hround
        obtain ⟨hhead, hchain⟩ := ih rest.length (by omega) hothers rfl
        obtain ⟨violation, -, -, hrest, -, -⟩ := Round.ofClaims_again hround
        refine ⟨by simp, hchain.cons fun d hd => ?_⟩
        rw [Deal.Precedes, hhead d hd]
        exact ⟨hrest ▸ List.filter_sublist, hlt⟩

/-- There are no more rounds than claims. -/
theorem length_deals_le (h : deals pool weights claims = .ok ds) : ds.length ≤ claims.length := by
  induction hn : claims.length using Nat.strongRecOn generalizing pool weights claims ds with
  | ind n ih =>
    by_cases hne : claims = []
    · subst hne
      rw [deals] at h
      cases h
      exact Nat.zero_le _
    · have hpos := List.length_pos_iff.2 hne
      rw [deals_of_ne_nil hne] at h
      split at h
      · cases h
      · cases h
        rw [List.length_singleton]
        omega
      · next settled left weights' rest hround =>
        obtain ⟨others, hothers, rfl⟩ := Length.map_eq_ok.1 h
        have hlt := Round.rest_length_lt hround
        have hle := ih rest.length (by omega) hothers rfl
        rw [List.length_cons]
        omega

theorem Round.overflow_of_ofClaims {fault : Fault}
    (h : Round.ofClaims pool weights claims = .error fault) : fault = .overflow := by
  unfold Round.ofClaims at h
  refine Length.overflow_of_bind (Length.overflow_of_foldlM fun sum c => ?_) (fun _ h => ?_) h
  · exact Length.overflow_of_bind Length.overflow_of_checked fun _ => Length.overflow_of_checked
  · split at h
    · cases h
    · refine Length.overflow_of_bind (Length.overflow_of_foldlM fun left c => ?_) (fun _ h => ?_) h
      · exact Length.overflow_of_checked
      · cases h

/-- Sharing is only given up when a length leaves its range. -/
theorem overflow_of_shareOut {fault : Fault} (h : shareOut pool weights claims = .error fault) :
    fault = .overflow := by
  induction hn : claims.length using Nat.strongRecOn generalizing pool weights claims with
  | ind n ih =>
    rw [shareOut_eq] at h
    split at h
    · next hround =>
      cases h
      exact Round.overflow_of_ofClaims hround
    · cases h
    · next settled left weights' rest hround =>
      have hlt := Round.rest_length_lt hround
      cases hrest : shareOut left weights' rest with
      | error fault' =>
        rw [hrest] at h
        cases h
        exact ih rest.length (by omega) hrest rfl
      | ok others =>
        rw [hrest] at h
        cases h

end

/-! ## Where the lengths go -/

/-- The main lengths after the granted ones have been entered at their positions. -/
def handOut (grants : List Grant) (lengths : List Int) : List Int :=
  grants.foldl (fun lengths g => lengths.set g.index g.length) lengths

section

variable {grants : List Grant} {lengths : List Int}

@[simp] theorem length_handOut (grants : List Grant) (lengths : List Int) :
    (handOut grants lengths).length = lengths.length := by
  induction grants generalizing lengths with
  | nil => rfl
  | cons g rest ih => exact (ih _).trans (List.length_set ..)

/-- A position that nothing is granted to keeps its length. -/
theorem getElem?_handOut_of_notMem {i : Nat} (h : i ∉ grants.map Grant.index) :
    (handOut grants lengths)[i]? = lengths[i]? := by
  induction grants generalizing lengths with
  | nil => rfl
  | cons g rest ih =>
    rw [List.map_cons, List.mem_cons, not_or] at h
    exact (ih h.2).trans (List.getElem?_set_ne (Ne.symm h.1))

/-- A position that is granted one length has it. -/
theorem getElem?_handOut_of_mem (hnodup : (grants.map Grant.index).Nodup) {g : Grant}
    (hg : g ∈ grants) (hi : g.index < lengths.length) :
    (handOut grants lengths)[g.index]? = some g.length := by
  induction grants generalizing lengths with
  | nil => cases hg
  | cons f rest ih =>
    rw [List.map_cons, List.nodup_cons] at hnodup
    rcases List.mem_cons.1 hg with rfl | hg
    · exact (getElem?_handOut_of_notMem hnodup.1).trans (List.getElem?_set_self hi)
    · exact ih hnodup.2 hg (by rwa [List.length_set])

/-- A position that is granted a length is granted no other one. -/
theorem filter_index_eq_singleton (hnodup : (grants.map Grant.index).Nodup) {g : Grant}
    (hg : g ∈ grants) : grants.filter (fun f => f.index = g.index) = [g] := by
  induction grants with
  | nil => cases hg
  | cons f rest ih =>
    rw [List.map_cons, List.nodup_cons] at hnodup
    rcases List.mem_cons.1 hg with rfl | hg
    · have hnone : rest.filter (fun f => f.index = g.index) = [] :=
        List.filter_eq_nil_iff.2 fun f hf heq =>
          hnodup.1 (of_decide_eq_true heq ▸ List.mem_map_of_mem hf)
      simp [hnone]
    · have hne : f.index ≠ g.index := fun heq => hnodup.1 (heq ▸ List.mem_map_of_mem hg)
      simpa [hne] using ih hnodup.2 hg

end

section

variable {ω : Type} [Weight ω] {a : Axis} {boxes : List (Request ω)} {grants : List Grant}
  {pool : Int} {weights : ω}

theorem nodup_index_shareOut (h : shareOut pool weights (claims a boxes) = .ok grants) :
    (grants.map Grant.index).Nodup :=
  (perm_index_shareOut h).nodup_iff.2 (nodup_index_claims a boxes)

/-- Positions with a claim are those of the children that share leftover space. -/
theorem mem_index_claims_iff {i : Nat} {r : Request ω} (hr : boxes[i]? = some r) :
    i ∈ (claims a boxes).map Claim.index ↔ r.isFlexed a = true := by
  rw [List.mem_map]
  constructor
  · rintro ⟨c, hc, rfl⟩
    obtain ⟨r', i, hmem, hflexed, rfl⟩ := mem_claims_iff.1 hc
    cases hr.symm.trans (List.mem_zipIdx_iff_getElem?.1 hmem)
    exact hflexed
  · exact fun hflexed => ⟨_, mem_claims_iff.2
      ⟨r, i, List.mem_zipIdx_iff_getElem?.2 hr, hflexed, rfl⟩, rfl⟩

/-- A line with room to spare starts with the lengths of the children that share no leftover space
and with zeros for the others, and enters what is granted. -/
theorem roomyMains_eq_handOut {innerMain : Int} {s : Summary} {lengths : List Int}
    (h : roomyMains a innerMain s boxes = .ok lengths) :
    ∃ grants, shareOut (max (innerMain - s.nonFlexMain - s.flexMargins) 0) (totalWeight a boxes)
        (claims a boxes) = .ok grants ∧
      lengths = handOut grants
        (boxes.map fun r => if r.isFlexed a then 0 else r.resolvedMain a) := by
  obtain ⟨grants, hgrants, rfl⟩ := exists_grants h
  refine ⟨grants, hgrants, List.ext_getElem? fun i => ?_⟩
  have hnodup := nodup_index_shareOut hgrants
  have hindex := (perm_index_shareOut hgrants).mem_iff (a := i)
  rw [List.getElem?_map, List.getElem?_zipIdx]
  cases hr : boxes[i]? with
  | none =>
    have hlen := List.getElem?_eq_none_iff.1 hr
    rw [List.getElem?_eq_none (by simpa using hlen)]
    rfl
  | some r =>
    have hlen := (List.getElem?_eq_some_iff.1 hr).1
    rw [mem_index_claims_iff hr] at hindex
    by_cases hflexed : r.isFlexed a = true
    · obtain ⟨g, hg, rfl⟩ := List.mem_map.1 (hindex.2 hflexed)
      rw [getElem?_handOut_of_mem hnodup hg (by simpa using hlen)]
      simp [hflexed, granted_of_mem hnodup hg]
    · rw [getElem?_handOut_of_notMem (mt hindex.1 hflexed)]
      simp [hr, hflexed]

/-- What is granted to a position is within the bounds of the child there. -/
theorem admits_of_mem_shareOut (h : shareOut pool weights (claims a boxes) = .ok grants)
    {g : Grant} (hg : g ∈ grants) {r : Request ω} (hr : boxes[g.index]? = some r) :
    (r.mainBounds a).Admits g.length := by
  obtain ⟨shares, hshares, rfl⟩ := shared_of_shareOut h
  obtain ⟨s, hs, rfl⟩ := List.mem_map.1 hg
  obtain ⟨r', i, hmem, -, hclaim⟩ :=
    mem_claims_iff.1 (hshares.perm.mem_iff.1 (List.mem_map_of_mem hs))
  have hadmits := hshares.admits hs
  rw [hclaim] at hadmits
  have hr' : boxes[s.1.index]? = some r' := by
    rw [hclaim]
    exact List.mem_zipIdx_iff_getElem?.1 hmem
  cases hr.symm.trans hr'
  exact hadmits

/-- Unless a length leaves its range, sharing ends, after at most as many rounds as there are
children that share leftover space, and each round but the last settles at least one of them. In
the end each of these children has been granted a length once, one that its bounds do not change,
and it stands where the child does; the lengths of all other children are as they were. -/
theorem shareOut_settles_once (a : Axis) (boxes : List (Request ω)) (space : Int) (total : ω)
    (lengths : List Int) (hlength : lengths.length = boxes.length)
    (hfits : shareOut space total (claims a boxes) ≠ .error .overflow) :
    ∃ ds grants, deals space total (claims a boxes) = .ok ds ∧
      shareOut space total (claims a boxes) = .ok grants ∧ grants = ds.flatMap Deal.grants ∧
      ds.length ≤ (boxes.filter fun r => r.isFlexed a).length ∧
      (∀ d ∈ ds.head?, d.claims = claims a boxes) ∧ ds.IsChain Deal.Precedes ∧
      ∀ (i : Nat) (r : Request ω), boxes[i]? = some r →
        if r.isFlexed a then
          ∃ n, grants.filter (fun g => g.index = i) = [⟨i, n⟩] ∧
            (r.mainBounds a).constrain n = n ∧ (handOut grants lengths)[i]? = some n
        else
          grants.filter (fun g => g.index = i) = [] ∧
            (handOut grants lengths)[i]? = lengths[i]? := by
  cases hshare : shareOut space total (claims a boxes) with
  | error fault => exact absurd (overflow_of_shareOut hshare ▸ hshare) hfits
  | ok grants =>
    have hdeals := hshare
    rw [shareOut_eq_deals] at hdeals
    obtain ⟨ds, hds, hgrants⟩ := Length.map_eq_ok.1 hdeals
    obtain ⟨hhead, hchain⟩ := isChain_deals hds
    have hle : ds.length ≤ (boxes.filter fun r => r.isFlexed a).length := by
      have := length_deals_le hds
      rwa [← map_fst_filter_zipIdx (fun r => r.isFlexed a) boxes, List.length_map,
        ← List.length_map (f := Prod.snd), ← index_claims, List.length_map]
    refine ⟨ds, grants, hds, rfl, hgrants.symm, hle, hhead, hchain, fun i r hr => ?_⟩
    have hnodup := nodup_index_shareOut hshare
    have hindex := (perm_index_shareOut hshare).mem_iff (a := i)
    rw [mem_index_claims_iff hr] at hindex
    split
    · next hflexed =>
      obtain ⟨g, hg, rfl⟩ := List.mem_map.1 (hindex.2 hflexed)
      have hi := (List.getElem?_eq_some_iff.1 hr).1
      exact ⟨g.length, filter_index_eq_singleton hnodup hg, admits_of_mem_shareOut hshare hg hr,
        getElem?_handOut_of_mem hnodup hg (by omega)⟩
    · next hflexed =>
      have hnot := mt hindex.1 hflexed
      refine ⟨List.filter_eq_nil_iff.2 fun g hg heq => hnot ?_, getElem?_handOut_of_notMem hnot⟩
      exact of_decide_eq_true heq ▸ List.mem_map_of_mem hg

end

private def claimant (width : Option Int) (bounds : Bounds) (flex : Float) : Request Float where
  width := width
  height := none
  natural := ⟨5, 5⟩
  widthBounds := bounds
  heightBounds := ⟨none, none⟩
  flex := flex
  margins := ⟨0, 0, 0, 0⟩

/-- Four children, of which the second has a length of its own. -/
private def unevenLine : List (Request Float) :=
  [claimant none ⟨some 30, none⟩ 1, claimant (some 40) ⟨none, none⟩ 2,
    claimant none ⟨none, some 25⟩ 1.5, claimant none ⟨none, none⟩ 2.5]

/-- The first round offers 18, 27 and 45 pixels. It raises the first offer to 30 and lowers the
second to 25, and since the corrections add up to 10 it settles the first child only. The others
share the 60 pixels that are left. -/
theorem unevenLine_settled :
    shareOut 90 (5 : Float) (claims .horizontal unevenLine) ≠ .error .overflow ∧
      ∃ ds grants, deals 90 (5 : Float) (claims .horizontal unevenLine) = .ok ds ∧
        ds.length ≤ 3 ∧ ds.map (fun d => d.claims.map Claim.index) = [[0, 2, 3], [2, 3]] ∧
        shareOut 90 (5 : Float) (claims .horizontal unevenLine) = .ok grants ∧
        handOut grants [0, 40, 0, 0] = [30, 40, 22, 37] := by
  have hfits : shareOut 90 (5 : Float) (claims .horizontal unevenLine) ≠ .error .overflow := by
    decide +kernel
  obtain ⟨ds, grants, hds, hgrants, -, hle, -⟩ :=
    shareOut_settles_once .horizontal unevenLine 90 (5 : Float) [0, 40, 0, 0] rfl hfits
  have hopen : (List.map fun d => d.claims.map Claim.index) <$>
      deals 90 (5 : Float) (claims .horizontal unevenLine) = .ok [[0, 2, 3], [2, 3]] := by
    decide +kernel
  have hgranted : shareOut 90 (5 : Float) (claims .horizontal unevenLine) =
      .ok [⟨0, 30⟩, ⟨2, 22⟩, ⟨3, 37⟩] := by
    decide +kernel
  rw [hds] at hopen
  cases hgrants.symm.trans hgranted
  exact ⟨hfits, ds, _, hds, hle.trans (by decide +kernel), Except.ok.inj hopen, hgrants, rfl⟩

end Box

end Trellis
